import SchemaNormal.Cli.Command

/-!
# The program

Carries the plan of the command line out on the files of the machine.
-/

namespace SchemaNormal.Cli

/-- What an error of the machine means for a file. Codes of the wrong kind of entry come with either
sign. -/
def FileError.ofError : IO.Error → FileError
  | .noFileOrDirectory .. => .missing
  | .inappropriateType _ code details =>
      if code = 21 ∨ code = -21 then .isFolder
      else if code = 20 ∨ code = -20 then .notFolder
      else .other details
  | .invalidArgument _ code details =>
      if code = 36 ∨ code = -36 then .nameTooLong else .other details
  | e => .other (toString e)

/-- Carries a plan out and answers with its exit code. -/
def Plan.perform : Plan → IO UInt32
  | finish code => return code
  | read path next => do
      let outcome ← try Except.ok <$> IO.FS.readBinFile path catch e => pure (.error (.ofError e))
      (next outcome).perform
  | write path content next => do
      let outcome ← try Except.ok <$> IO.FS.writeFile path content
        catch e => pure (.error (.ofError e))
      (next outcome).perform
  | print text next => do
      IO.print text
      next.perform
  | complain text next => do
      IO.eprint text
      next.perform
  | tell event next => do
      IO.eprintln event.line
      next.perform

end SchemaNormal.Cli

/-- Does what the command line asks for. -/
def main (words : List String) : IO UInt32 :=
  (SchemaNormal.Cli.planOfWords words).perform
