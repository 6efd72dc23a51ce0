import SchemaNormal.Json.Reader

/-!
# Reading a value of any kind

Where the type of a value is not known yet, the value is read as a whole, with every fault that a
typed reader would report and with its brackets counted, and only its kind is kept; a scalar keeps
its value.
-/

namespace SchemaNormal.Json

/-- Reads a scalar; refuses brackets as too deep. -/
def readScalar : Reader Found
  | .null _ => .ok .null
  | .bool _ _ b => .ok (.bool b)
  | .number _ stop n => (n.read stop).map .number
  | .string _ _ content => content.map .string
  | .list start _ | .object start _ => .error (tooDeepAt start)
  | .broken _ _ fault => .error fault.read

def readAny : Nat → Reader Found
  | 0, node => readScalar node
  | levels + 1, .list _ items =>
      (items.read (readAny levels) true).map fun _ => .list
  | levels + 1, .object _ members =>
      (members.visit (fun _ _ => .read fun node => (readAny levels node).map fun _ => ()) true
        ()).map fun _ => .object
  | _ + 1, node => readScalar node

end SchemaNormal.Json
