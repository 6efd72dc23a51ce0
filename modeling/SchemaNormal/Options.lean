import SchemaNormal.Failure
import SchemaNormal.Schema.Name

/-!
# Passes and options

Options name the passes to run, in order, and the two names that passes put into a file. Options are
accepted when no pass can undo its own guarantee: the digit prefix must turn every name into one
that does not start with a digit, and the name of inserted values must not be empty.
-/

namespace SchemaNormal

/-- A normalisation of a schema file. -/
inductive Pass where
  /-- Moves nested messages to the file when all their definitions agree. -/
  | liftMessages
  /-- Gives every enum a value with index 0. -/
  | completeZero
  /-- Renames enum values whose names start with a digit. -/
  | prefixDigits
deriving DecidableEq, Repr, Inhabited

namespace Pass

/-- Every pass, in the order in which they run by default. -/
def all : List Pass :=
  [.liftMessages, .completeZero, .prefixDigits]

def name : Pass → String
  | .liftMessages => "lift-messages"
  | .completeZero => "complete-zero"
  | .prefixDigits => "prefix-digits"

/-- The pass of a name; the name must be spelled exactly. -/
def ofName (name : String) : Except Failure Pass :=
  match all.find? (·.name = name) with
  | some pass => .ok pass
  | none => .error (.unknownPass name)

end Pass

/-- What to run and which names to insert. -/
structure Options where
  passes : List Pass := Pass.all
  zeroName : String := "DEFAULT"
  digitPrefix : String := "NUM_"
deriving DecidableEq, Repr, Inhabited

/-- Accepts options under which every pass keeps its guarantee. The digit prefix is checked before
the name of inserted values. -/
def Options.validate (options : Options) : Except Failure Unit :=
  if options.digitPrefix.isEmpty then
    .error (.invalidOption "digit-prefix" "must not be empty")
  else if startsWithDigit options.digitPrefix then
    .error (.invalidOption "digit-prefix"
      ("'" ++ options.digitPrefix ++ "' must not start with a digit"))
  else if options.zeroName.isEmpty then
    .error (.invalidOption "zero-value-name" "must not be empty")
  else
    .ok ()

end SchemaNormal
