import SchemaNormal.Cli.Request

/-!
# Reading a command line

Words are read from left to right. A word after `--` is never an option. An option's value is the
next word, or stands in the same word after `=`, or right after a letter. A value that came as a
word of its own is looked at only when the next option or input is accepted, or at the end; a word
that is not accepted is reported first.
-/

namespace SchemaNormal.Cli

inductive Pending where
  | nothing
  /-- The option still waits for its value. -/
  | waiting (setting : Setting)
  | value (setting : Setting) (value : String)
  | input (value : String)

structure Collected where
  verbose : Bool := false
  input : Option String := none
  output : Option String := none
  report : Option String := none
  config : Option String := none
  passes : List Pass := []
  zeroName : Option String := none
  digitPrefix : Option String := none
  layout : Option Json.Layout := none

/-- Why reading stops early: something is wrong, or a page or the version is asked for. -/
inductive Stop where
  | refused (error : UsageError)
  | answered (request : Request)

/-- Fills a place that can be filled once. -/
def fillOnce {α : Type} (setting : Setting) (place : Option α) (value : Except UsageError α) :
    Except UsageError (Option α) :=
  if place.isSome then .error (.repeated setting.shown) else value.map some

def pathValue (setting : Setting) (value : String) : Except UsageError String :=
  if value.isEmpty then .error (.missingValue setting.shown) else .ok value

def layoutValue (value : String) : Except UsageError Json.Layout :=
  if value = "pretty" then .ok .pretty
  else if value = "compact" then .ok .compact
  else if value.isEmpty then .error (.missingValue Setting.format.shown)
  else .error (.unknownFormat value)

def passValue (value : String) : Except UsageError Pass :=
  match Pass.ofName value with
  | .ok pass => .ok pass
  | .error _ => .error (.unknownPass value)

def Collected.set (c : Collected) (setting : Setting) (value : String) :
    Except UsageError Collected :=
  match setting with
  | .output => return { c with output := ← fillOnce setting c.output (pathValue setting value) }
  | .report => return { c with report := ← fillOnce setting c.report (pathValue setting value) }
  | .config => return { c with config := ← fillOnce setting c.config (pathValue setting value) }
  | .pass => return { c with passes := c.passes ++ [← passValue value] }
  | .zeroName => return { c with zeroName := ← fillOnce setting c.zeroName (.ok value) }
  | .digitPrefix => return { c with digitPrefix := ← fillOnce setting c.digitPrefix (.ok value) }
  | .format => return { c with layout := ← fillOnce setting c.layout (layoutValue value) }

structure Progress where
  collected : Collected := {}
  pending : Pending := .nothing
  hasInput : Bool := false

def Progress.resolve (p : Progress) : Except UsageError Progress :=
  match p.pending with
  | .nothing => .ok p
  | .waiting setting => .error (.missingValue setting.shown)
  | .value setting value => do
      let collected ← p.collected.set setting value
      return { p with collected, pending := .nothing }
  | .input value =>
      if value.isEmpty then .error (.missingValue "<INPUT>")
      else
        let collected := { p.collected with input := some value }
        .ok { p with collected, pending := .nothing }

/-- What a part of the command line accepts. -/
structure Grammar where
  flags : List Flag
  settings : List Setting := []
  takesInput : Bool := false
  page : Page

namespace Grammar

/-- In front of the command. -/
def program : Grammar :=
  { flags := [.verbose, .help, .version], page := .program }

/-- After the command that normalises a file. -/
def normalize : Grammar :=
  { flags := [.verbose, .help], settings := Setting.all, takesInput := true, page := .normalize }

/-- After the command that lists the passes. -/
def listPasses : Grammar :=
  { flags := [.verbose, .help], page := .listPasses }

variable (g : Grammar)

def takeFlag (p : Progress) (flag : Flag) : Except Stop Progress :=
  match p.resolve with
  | .error e => .error (.refused e)
  | .ok p =>
      match flag with
      | .help => .error (.answered (.help g.page))
      | .version => .error (.answered .version)
      | .verbose =>
          if p.collected.verbose then .error (.refused (.repeated flag.shown))
          else .ok { p with collected := { p.collected with verbose := true } }

/-- Takes an option, with its value if that stands in the same word. -/
def takeSetting (p : Progress) (setting : Setting) (value : Option String) :
    Except Stop Progress :=
  match p.resolve with
  | .error e => .error (.refused e)
  | .ok p =>
      match value with
      | none => .ok { p with pending := .waiting setting }
      | some value =>
          match p.collected.set setting value with
          | .error e => .error (.refused e)
          | .ok collected => .ok { p with collected }

/-- A word that starts with two dashes, without these. -/
def takeLong (p : Progress) (word : List Char) : Except Stop Progress :=
  let name := String.ofList (word.takeWhile (· ≠ '='))
  let value :=
    match word.dropWhile (· ≠ '=') with
    | [] => none
    | _ :: value => some (String.ofList value)
  match g.flags.find? (·.name = name), g.settings.find? (·.name = name) with
  | some flag, _ =>
      match value with
      | none => g.takeFlag p flag
      | some value => .error (.refused (.unneededValue value flag.shown))
  | none, some setting => takeSetting p setting value
  | none, none => .error (.refused (.unexpected ("--" ++ name)))

/-- A word that starts with one dash, without it. -/
def takeLetters (p : Progress) : List Char → Except Stop Progress
  | [] => .ok p
  | c :: rest =>
      match g.flags.find? (·.letter = c), g.settings.find? (·.letter? = some c) with
      | some flag, _ =>
          match g.takeFlag p flag with
          | .error stop => .error stop
          | .ok p => takeLetters p rest
      | none, some setting =>
          let value :=
            match rest with
            | [] => none
            | '=' :: value => some (String.ofList value)
            | value => some (String.ofList value)
          takeSetting p setting value
      | none, none => .error (.refused (.unexpected (String.ofList ['-', c])))

/-- A word that is neither an option nor the value of one. -/
def takeInput (p : Progress) (word : String) : Except Stop Progress :=
  if g.takesInput && !p.hasInput then
    match p.resolve with
    | .error e => .error (.refused e)
    | .ok p => .ok { p with pending := .input word, hasInput := true }
  else .error (.refused (.unexpected word))

/-- A word in front of any `--`. -/
def takeWord (p : Progress) (word : String) : Except Stop Progress :=
  match word.toList, p.pending with
  | '-' :: '-' :: name, _ => g.takeLong p name
  | '-' :: c :: letters, _ => g.takeLetters p (c :: letters)
  | _, .waiting setting => .ok { p with pending := .value setting word }
  | _, _ => g.takeInput p word

/-- All words of a command; `trailing` after a `--`. -/
def takeAll (trailing : Bool) (p : Progress) : List String → Except Stop Progress
  | [] => .ok p
  | word :: words =>
      if trailing then
        match g.takeInput p word with
        | .error stop => .error stop
        | .ok p => takeAll trailing p words
      else if word = "--" then takeAll true p words
      else
        match g.takeWord p word with
        | .error stop => .error stop
        | .ok p => takeAll trailing p words

def collect (words : List String) : Except Stop Collected :=
  match g.takeAll false {} words with
  | .error stop => .error stop
  | .ok p =>
      match p.resolve with
      | .error e => .error (.refused e)
      | .ok p => .ok p.collected

end Grammar

inductive CommandName where
  | normalize
  | listPasses
  | help
deriving DecidableEq, Repr

namespace CommandName

def name : CommandName → String
  | normalize => "rewrite"
  | listPasses => "passes"
  | help => "help"

def ofName? (name : String) : Option CommandName :=
  [normalize, listPasses, help].find? (·.name = name)

def page : CommandName → Page
  | normalize => .normalize
  | listPasses => .listPasses
  | help => .help

end CommandName

/-- The page that `help` and the words after it ask for. Commands have no commands of their own. -/
def helpPage : List String → Except UsageError Page
  | [] => .ok .program
  | [name] =>
      match CommandName.ofName? name with
      | some command => .ok command.page
      | none => .error (.unknownCommand name)
  | name :: other :: _ =>
      match CommandName.ofName? name with
      | some _ => .error (.unknownCommand other)
      | none => .error (.unknownCommand name)

/-- A command and the words after it. -/
def readCommand (verbose : Bool) (command : CommandName) (words : List String) :
    Except Stop Request :=
  match command with
  | .help =>
      match helpPage words with
      | .ok page => .ok (.help page)
      | .error e => .error (.refused e)
  | .listPasses =>
      match Grammar.listPasses.collect words with
      | .error stop => .error stop
      | .ok c => .ok (.run (verbose || c.verbose) .listPasses)
  | .normalize =>
      match Grammar.normalize.collect words with
      | .error stop => .error stop
      | .ok c =>
          match c.input with
          | none => .error (.refused .missingInput)
          | some input =>
              let layout := c.layout.getD .pretty
              .ok (.run (verbose || c.verbose) (.normalize
                { input, output := c.output, report := c.report, config := c.config,
                  passes := c.passes, zeroName := c.zeroName, digitPrefix := c.digitPrefix,
                  layout }))

/-- The words up to the command, and what the command makes of the rest. -/
def readProgram (trailing : Bool) (p : Progress) : List String → Except Stop Request
  | [] =>
      .error (.refused (if p.collected.verbose then .missingCommand else .noArguments))
  | word :: words =>
      if !trailing && word = "--" then readProgram true p words
      else if !trailing && word.startsWith "-" && word ≠ "-" then
        match Grammar.program.takeWord p word with
        | .error stop => .error stop
        | .ok p => readProgram trailing p words
      else
        match CommandName.ofName? word with
        | none => .error (.refused (.unknownCommand word))
        | some command =>
            if trailing then .error (.refused (.unexpected word))
            else readCommand p.collected.verbose command words

def Request.ofWords (words : List String) : Except UsageError Request :=
  match readProgram false {} words with
  | .ok request => .ok request
  | .error (.answered request) => .ok request
  | .error (.refused e) => .error e

end SchemaNormal.Cli
