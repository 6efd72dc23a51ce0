/-!
# Changes and reports

Each pass tells what it did as a list of changes, in the order in which it met the places. A report
is such a list for a whole run. Paths are dotted scope paths in the file that the pass was given.
-/

namespace SchemaNormal

inductive Change where
  /-- A nested message became a message of the file. -/
  | messageLifted (path name : String)
  /-- A nested copy of a message of the file was removed. -/
  | duplicateDropped (path name : String)
  /-- The enum at `path` got a value with index 0 in front. -/
  | zeroInserted (path name : String)
  /-- A value of the enum at `path` got a new name. -/
  | valueRenamed (path old new : String)
deriving DecidableEq, Repr

/-- The changes of a run, in order. -/
structure Report where
  changes : List Change := []
deriving DecidableEq, Repr

end SchemaNormal
