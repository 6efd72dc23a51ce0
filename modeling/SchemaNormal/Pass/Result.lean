import SchemaNormal.Change
import SchemaNormal.Event
import SchemaNormal.Schema.Basic

/-!
# What a pass answers

A pass takes a file and answers with a file, the changes it made and the events it told.
-/

namespace SchemaNormal

structure PassResult where
  file : File
  changes : List Change := []
  events : List Event := []
deriving DecidableEq, Repr

/-- The changes that a pass has made so far, and the events it has told. -/
structure Trail where
  changes : List Change := []
  events : List Event := []
deriving DecidableEq, Repr

/-- Writes down one change together with its event. -/
def Trail.record (trail : Trail) (change : Change) (event : Event) : Trail :=
  ⟨trail.changes ++ [change], trail.events ++ [event]⟩

end SchemaNormal
