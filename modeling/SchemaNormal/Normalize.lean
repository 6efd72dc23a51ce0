import SchemaNormal.Pass.DigitPrefix
import SchemaNormal.Pass.Lifting
import SchemaNormal.Pass.ZeroValue

/-!
# Normalising a file

A run checks its options and then hands the file from pass to pass. Its report joins the changes of
the passes; its events are those of the passes, each pass followed by its count.
-/

namespace SchemaNormal

/-- Runs one pass. The options need not be valid. -/
def Pass.run (pass : Pass) (options : Options) (file : File) : PassResult :=
  match pass with
  | .liftMessages => file.liftMessages
  | .completeZero => file.completeZero options.zeroName
  | .prefixDigits => file.prefixDigits options.digitPrefix

structure Outcome where
  file : File
  report : Report := {}
  events : List Event := []
deriving DecidableEq, Repr

/-- One pass of a run: its changes and events come after those of the run so far. -/
def Outcome.next (options : Options) (sofar : Outcome) (pass : Pass) : Outcome :=
  let result := pass.run options sofar.file
  { file := result.file
    report := ⟨sofar.report.changes ++ result.changes⟩
    events := sofar.events ++ result.events ++ [.passFinished pass result.changes.length] }

/-- Runs the passes of the options, in order. Fails only if the options are not valid. -/
def normalize (file : File) (options : Options) : Except Failure Outcome := do
  options.validate
  return options.passes.foldl (Outcome.next options) { file }

end SchemaNormal
