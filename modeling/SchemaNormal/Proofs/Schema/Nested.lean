import SchemaNormal.Proofs.Schema.Members
import SchemaNormal.Proofs.Schema.Path

/-!
# Nested messages

The messages of a file that stand inside another one, each with the names around it.  They come
from the inside out: those inside a message before the message itself, siblings in order.
-/

namespace SchemaNormal

/-- A message inside other messages, with their names from the outside in. -/
structure Nested where
  scopes : List String
  message : Message
deriving DecidableEq, Repr

namespace Nested

def name (x : Nested) : String :=
  x.message.name

/-- The names around the message and its own, joined by dots. -/
def path (x : Nested) : String :=
  dotted (x.scopes ++ [x.name])

end Nested

namespace Message

mutual

/-- The messages inside a message that itself stands in `scopes`. -/
def inside (scopes : List String) : Message → List Nested
  | ⟨name, _, messages, _⟩ => insideAll (scopes ++ [name]) messages

/-- The messages that stand in `scopes`, each after the messages inside it. -/
def insideAll (scopes : List String) : List Message → List Nested
  | [] => []
  | m :: ms => inside scopes m ++ ⟨scopes, m⟩ :: insideAll scopes ms

end

mutual

theorem inside_perm (scopes : List String) :
    ∀ m : Message, ((inside scopes m).map (·.message)).Perm m.inner
  | ⟨name, _, messages, _⟩ => insideAll_perm (scopes ++ [name]) messages

theorem insideAll_perm (scopes : List String) :
    ∀ ms : List Message, ((insideAll scopes ms).map (·.message)).Perm (preorderAll ms)
  | [] => List.Perm.nil
  | m :: ms => by
    -- `m` moves from behind the messages inside it to their front
    have hm : ((inside scopes m).map (·.message)).Perm m.inner := inside_perm scopes m
    have hms := insideAll_perm scopes ms
    rw [insideAll, preorderAll, List.map_append, List.map_cons, preorder_eq, List.cons_append]
    apply List.perm_middle.trans
    exact (hm.append hms).cons m

end

end Message

namespace File

def nested (f : File) : List Nested :=
  f.messages.flatMap (Message.inside [])

theorem nested_perm (f : File) :
    (f.nested.map (·.message)).Perm (f.messages.flatMap Message.inner) := by
  unfold nested
  rw [List.map_flatMap]
  apply List.Perm.flatMap_left
  intro m _
  exact Message.inside_perm [] m

theorem mem_allMessages {f : File} {m : Message} :
    m ∈ f.allMessages ↔ m ∈ f.messages ∨ ∃ x ∈ f.nested, x.message = m := by
  have hnested : (∃ x ∈ f.nested, x.message = m) ↔ ∃ a ∈ f.messages, m ∈ a.inner := by
    rw [← List.mem_map, f.nested_perm.mem_iff, List.mem_flatMap]
  unfold allMessages
  rw [hnested, Message.mem_preorderAll]
  simp only [Message.preorder_eq, List.mem_cons, and_or_left, exists_or, exists_eq_right']

theorem message_mem_of_mem_nested {f : File} {x : Nested} (h : x ∈ f.nested) :
    x.message ∈ f.allMessages := by
  apply mem_allMessages.mpr
  exact Or.inr ⟨x, h, rfl⟩

end File

end SchemaNormal
