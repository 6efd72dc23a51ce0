import SchemaNormal.Pass.Result
import SchemaNormal.Schema.Name
import SchemaNormal.Schema.Visit

/-!
# Digit prefixes

An enum value whose name starts with a digit gets a prefix in front of its name.
-/

namespace SchemaNormal

/-- The name with the prefix in front, if it starts with a digit. -/
def prefixDigits (digitPrefix name : String) : String :=
  if startsWithDigit name then digitPrefix ++ name else name

/-- Renames the values of the enum at `path`, in order, and writes down each new name. -/
def EnumValue.prefixAll (digitPrefix path : String) :
    List EnumValue → Trail → Trail × List EnumValue
  | [], trail => (trail, [])
  | v :: vs, trail =>
      let new := prefixDigits digitPrefix v.name
      let trail :=
        if startsWithDigit v.name then
          trail.record (.valueRenamed path v.name new) (.renaming path v.name new)
        else trail
      let (trail, vs') := prefixAll digitPrefix path vs trail
      (trail, { v with name := new } :: vs')

def prefixDigitsAt (digitPrefix : String) : EnumVisitor Trail := fun trail e path =>
  let (trail, values) := EnumValue.prefixAll digitPrefix path e.values trail
  (trail, { e with values })

def File.prefixDigits (file : File) (digitPrefix : String) : PassResult :=
  let (trail, file) := file.visitEnums (prefixDigitsAt digitPrefix) {}
  { file
    changes := trail.changes
    events := trail.events ++ [.renamingDone trail.changes.length] }

end SchemaNormal
