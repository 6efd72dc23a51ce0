import SchemaNormal.Pass.Result
import SchemaNormal.Schema.Grouping
import SchemaNormal.Schema.Scope

/-!
# Lifting nested messages

A nested message whose name is liftable leaves its place. The first one met under each name becomes
a message of the file, after those already there; later ones are duplicates and are dropped. A name
that a message of the file already has counts as lifted from the start.

Below each message of the file the walk goes from the inside out: the messages inside a child are
dealt with before the child itself. A message that is not liftable stays where it is, so one that
stands inside a dropped duplicate goes with it.
-/

namespace SchemaNormal

/-- How far lifting has come. -/
structure Lifting where
  /-- The liftable names that have a message of the file. -/
  placed : List String
  /-- The messages that will be appended to the file. -/
  lifted : List Message := []
  trail : Trail := {}

/-- Takes a liftable message out of its place. -/
def Lifting.take (state : Lifting) (path : String) (m : Message) : Lifting :=
  if state.placed.contains m.name then
    { state with
      trail := state.trail.record (.duplicateDropped path m.name) (.droppingDuplicate path) }
  else
    { placed := m.name :: state.placed
      lifted := state.lifted ++ [m]
      trail := state.trail.record (.messageLifted path m.name) (.lifting path) }

namespace Message

mutual

/-- Lifts out of the messages inside a message, which itself stands in `scope`. -/
def lift (liftable : List String) (scope : String) : Message → Lifting → Message × Lifting
  | ⟨name, fields, messages, enums⟩, state =>
      let (kept, state) := liftAll liftable (qualify scope name) messages state
      (⟨name, fields, kept, enums⟩, state)

/-- Lifts out of messages that stand in one scope and then takes the liftable ones among them. The
rest stays, in order. -/
def liftAll (liftable : List String) (scope : String) :
    List Message → Lifting → List Message × Lifting
  | [], state => ([], state)
  | m :: ms, state =>
      let (m', state) := lift liftable scope m state
      if liftable.contains m'.name then
        liftAll liftable scope ms (state.take (qualify scope m'.name) m')
      else
        let (kept, state) := liftAll liftable scope ms state
        (m' :: kept, state)

/-- Lifts out of the messages of a file, which all stay. -/
def liftBelow (liftable : List String) : List Message → Lifting → List Message × Lifting
  | [], state => ([], state)
  | m :: ms, state =>
      let (m', state) := lift liftable "" m state
      let (ms', state) := liftBelow liftable ms state
      (m' :: ms', state)

end

end Message

/-- Lifts every nested message whose name is liftable. -/
def File.liftMessages (file : File) : PassResult :=
  match file.messages with
  | [] => { file }
  | messages =>
      let liftable := file.groups.liftable
      let placed := (messages.filter fun m => liftable.contains m.name).map (·.name)
      let (kept, state) := Message.liftBelow liftable messages { placed }
      { file := { file with messages := kept ++ state.lifted }
        changes := state.trail.changes
        events := state.trail.events ++ [.liftingDone liftable.length state.lifted.length] }

end SchemaNormal
