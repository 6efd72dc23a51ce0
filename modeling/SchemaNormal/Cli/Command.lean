import SchemaNormal.Cli.Arguments
import SchemaNormal.Cli.Help
import SchemaNormal.Cli.Plan
import SchemaNormal.Format.Text

/-!
# Commands

A job reads its input, then its options, and checks them; only then does it run, and only after the
run does it write. So a job that is refused has written nothing, and one whose report cannot be
written has written its output in full.
-/

namespace SchemaNormal.Cli

/-! ## Errors with their causes -/

/-- Text whose further lines are indented. -/
def indented (indent : String) (text : String) : String :=
  ("\n" ++ indent).intercalate (text.splitOn "\n")

/-- Causes with their numbers, from `n`. -/
def numberedCauses (n : Nat) : List String → String
  | [] => ""
  | cause :: causes =>
      "    " ++ toString n ++ ": " ++ indented "       " cause ++ "\n"
        ++ numberedCauses (n + 1) causes

/-- An error and what caused it, the nearest cause first. A single cause has no number. -/
def errorText (context : String) (causes : List String) : String :=
  "Error: " ++ context ++ "\n\nCaused by:\n" ++
    match causes with
    | [cause] => "    " ++ indented "    " cause ++ "\n"
    | causes => numberedCauses 0 causes

def giveUp (context : String) (causes : List String) : Plan :=
  .complain (errorText context causes) (.finish 1)

/-! ## The steps of a job -/

/-- Reads a file as text; `role` says what the file is. -/
def readFileText (role path : String) (next : String → Plan) : Plan :=
  .read path fun
    | .error e => giveUp ("Failed to open " ++ role ++ " file: " ++ path) [e.message]
    | .ok bytes =>
        match String.fromUTF8? bytes with
        | none =>
            giveUp ("Failed to open " ++ role ++ " file: " ++ path) [FileError.notText.message]
        | some text => next text

def readInput (path : String) (next : File → Plan) : Plan :=
  readFileText "input" path fun text =>
    match Json.readText (File.read Json.levels) text with
    | .ok file => next file
    | .error fault =>
        let message := fault.message text
        giveUp ("Failed to parse file AST from: " ++ path)
          [(Failure.unreadable message).message, message]

/-- Reads the options of a job; without a file for them they are the defaults. -/
def readOptions (path : Option String) (next : Options → Plan) : Plan :=
  match path with
  | none => next {}
  | some path =>
      readFileText "config" path fun text =>
        match Json.readText (Options.read Json.levels) text with
        | .ok options => next options
        | .error fault =>
            giveUp ("Failed to parse config from: " ++ path) [fault.message text]

/-- The options with what the job itself asks for in place of theirs. -/
def Job.options (job : Job) (options : Options) : Options :=
  { passes := if job.passes.isEmpty then options.passes else job.passes
    zeroName := job.zeroName.getD options.zeroName
    digitPrefix := job.digitPrefix.getD options.digitPrefix }

def tellAll (events : List Event) (next : Plan) : Plan :=
  events.foldr .tell next

/-- Writes a value to a file. -/
def writeFile (path : String) (layout : Json.Layout) (value : Json) (next : Plan) : Plan :=
  .write path (value.render layout ++ "\n") fun
    | .error e => giveUp ("Failed to create output file: " ++ path) [e.message]
    | .ok () => next

/-- Writes a value to a file, or prints it. -/
def writeOutput (path : Option String) (layout : Json.Layout) (value : Json) (next : Plan) :
    Plan :=
  match path with
  | none => .print (value.render layout ++ "\n") next
  | some path => writeFile path layout value next

/-- Writes the outcome of a job: the file, and the report if it is asked for. -/
def Job.deliver (job : Job) (outcome : Outcome) : Plan :=
  writeOutput job.output job.layout outcome.file.toJson <|
    match job.report with
    | none => .finish 0
    | some path => writeFile path job.layout outcome.report.toJson (.finish 0)

/-- The events of a run that a verbose job tells. -/
def verboseEvents (outcome : Outcome) : List Event :=
  outcome.events.filter (·.level ≠ .trace) ++ [.runFinished outcome.report.changes.length]

def Job.plan (job : Job) (verbose : Bool) : Plan :=
  readInput job.input fun file =>
    readOptions job.config fun options =>
      match normalize file (job.options options) with
      | .error failure => giveUp "Invalid options" [failure.message]
      | .ok outcome =>
          tellAll (if verbose then verboseEvents outcome else []) (job.deliver outcome)

/-! ## The whole program -/

def Request.plan : Request → Plan
  | .help page => .print page.text (.finish 0)
  | .version => .print versionText (.finish 0)
  | .run _ .listPasses => .print (lines (Pass.all.map (·.name))) (.finish 0)
  | .run verbose (.normalize job) => job.plan verbose

/-- The plan of a command line. A command line that is not understood is answered with one line. -/
def planOfWords (words : List String) : Plan :=
  match Request.ofWords words with
  | .ok request => request.plan
  | .error e => .complain e.line (.finish 2)

end SchemaNormal.Cli
