import SchemaNormal.Format.Schema
import SchemaNormal.Options

/-!
# Options as JSON

Options are written in full. A reader takes a missing member for its default.
-/

namespace SchemaNormal

open Json

def Pass.toJson (pass : Pass) : Json :=
  .string pass.name

def Pass.names : List (String × Pass) :=
  Pass.all.map fun pass => (pass.name, pass)

def Pass.read (levels : Nat) : Reader Pass :=
  readName levels Pass.names

def FailureCode.toJson (code : FailureCode) : Json :=
  .string code.name

def FailureCode.names : List (String × FailureCode) :=
  FailureCode.all.map fun code => (code.name, code)

def FailureCode.read (levels : Nat) : Reader FailureCode :=
  readName levels FailureCode.names

/-- A failure as JSON: its code and its message. -/
def Failure.toJson (failure : Failure) : Json :=
  .object [("code", failure.code.toJson), ("message", .string failure.message)]

def Options.toJson (options : Options) : Json :=
  .object [("passes", .ofList Pass.toJson options.passes),
    ("zero-value-name", .string options.zeroName), ("digit-prefix", .string options.digitPrefix)]

/-- The fields of options, inside their brackets. -/
def Options.shape (levels : Nat) : List Field :=
  let defaults : Options := {}
  [{ listField levels "passes" (Pass.read (levels - 1)) with absent := some defaults.passes },
   { stringField "zero-value-name" with absent := some defaults.zeroName },
   { stringField "digit-prefix" with absent := some defaults.digitPrefix }]

def Options.read (levels : Nat) : Reader Options := fun node =>
  (readRecord levels "struct RewriteOptions" (shape (levels - 1)) node).map
    fun (passes, zeroName, digitPrefix, _) => { passes, zeroName, digitPrefix }

end SchemaNormal
