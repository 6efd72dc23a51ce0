import SchemaNormal.Pass.Result
import SchemaNormal.Schema.Visit

/-!
# Zero values

Every enum needs a value with index 0. An enum that has none gets one in front of its values.
-/

namespace SchemaNormal

/-- The enum with a value of index 0 in front, unless it has one already. -/
def Enum.completeZero (name : String) (e : Enum) : Enum :=
  if e.hasZero then e else { e with values := ⟨name, 0⟩ :: e.values }

/-- Completes one enum and writes down whether it changed. -/
def completeZeroAt (name : String) : EnumVisitor Trail := fun trail e path =>
  if e.hasZero then (trail, e)
  else (trail.record (.zeroInserted path name) (.insertedZero path), e.completeZero name)

def File.completeZero (file : File) (zeroName : String) : PassResult :=
  let (trail, file) := file.visitEnums (completeZeroAt zeroName) {}
  { file
    changes := trail.changes
    events := trail.events ++ [.completionDone trail.changes.length] }

end SchemaNormal
