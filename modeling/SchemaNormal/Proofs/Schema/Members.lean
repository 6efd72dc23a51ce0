import Mathlib.Data.List.Perm.Basic
import SchemaNormal.Schema.Basic

/-!
# What a file holds

The messages and the enums of a file, at every depth, as lists.  A message stands before the
messages inside it, and those before its next sibling.
-/

namespace SchemaNormal

namespace Message

/-- Induction on nesting: a property passes from the messages directly inside a message to the
message. -/
@[elab_as_elim, induction_eliminator]
theorem nesting {motive : Message → Prop}
    (mk : ∀ name fields messages enums, (∀ m ∈ messages, motive m) →
      motive ⟨name, fields, messages, enums⟩) (m : Message) : motive m := by
  -- the recursor of the nested type, with the list of messages as its second motive
  refine @Message.rec motive (fun ms => ∀ m ∈ ms, motive m) mk ?_ ?_ m
  · intro m hm
    cases hm
  · intro m ms hm hms m' hm'
    cases hm' with
    | head => exact hm
    | tail _ hmem => exact hms m' hmem

mutual

/-- The message and all messages inside it. -/
def preorder : Message → List Message
  | ⟨name, fields, messages, enums⟩ =>
      ⟨name, fields, messages, enums⟩ :: preorderAll messages

def preorderAll : List Message → List Message
  | [] => []
  | m :: ms => preorder m ++ preorderAll ms

end

/-- The messages inside a message, at every depth. -/
def inner (m : Message) : List Message :=
  preorderAll m.messages

theorem preorder_eq (m : Message) : preorder m = m :: inner m := by
  cases m
  rfl

theorem preorderAll_eq_flatMap (ms : List Message) : preorderAll ms = ms.flatMap preorder := by
  induction ms with
  | nil => rfl
  | cons m ms ih => rw [preorderAll, ih, List.flatMap_cons]

@[simp] theorem preorderAll_append (as bs : List Message) :
    preorderAll (as ++ bs) = preorderAll as ++ preorderAll bs := by
  simp only [preorderAll_eq_flatMap, List.flatMap_append]

theorem mem_preorder_self (m : Message) : m ∈ preorder m := by
  rw [preorder_eq]
  exact List.mem_cons_self

theorem mem_preorderAll {a : Message} {ms : List Message} :
    a ∈ preorderAll ms ↔ ∃ m ∈ ms, a ∈ preorder m := by
  rw [preorderAll_eq_flatMap, List.mem_flatMap]

theorem mem_preorderAll_of_mem {m : Message} {ms : List Message} (h : m ∈ ms) :
    m ∈ preorderAll ms := by
  apply mem_preorderAll.mpr
  exact ⟨m, h, mem_preorder_self m⟩

/-- What is inside a message inside a message is inside the outer one. -/
theorem inner_subset_of_mem_preorder {a m : Message} (h : a ∈ preorder m) :
    a.inner ⊆ m.inner := by
  induction m with
  | mk name fields messages enums ih =>
    rw [preorder_eq, List.mem_cons] at h
    obtain rfl | h := h
    · exact List.Subset.refl _
    · -- `a` is in the tree of a child `c`, so what is inside `a` is inside `c`
      obtain ⟨c, hc, ha⟩ := mem_preorderAll.mp h
      intro b hb
      have hbc : b ∈ c.inner := ih c hc ha hb
      apply mem_preorderAll.mpr
      refine ⟨c, hc, ?_⟩
      rw [preorder_eq]
      exact List.mem_cons_of_mem c hbc

end Message

namespace File

def allMessages (f : File) : List Message :=
  Message.preorderAll f.messages

/-- The enums of a file, at every depth. -/
def allEnums (f : File) : List Enum :=
  f.enums ++ f.allMessages.flatMap (·.enums)

theorem mem_allMessages_of_mem {f : File} {m : Message} (h : m ∈ f.messages) :
    m ∈ f.allMessages :=
  Message.mem_preorderAll_of_mem h

theorem mem_allMessages_of_mem_inner {f : File} {m a : Message} (hm : m ∈ f.allMessages)
    (ha : a ∈ m.inner) : a ∈ f.allMessages := by
  obtain ⟨top, htop, hmem⟩ := Message.mem_preorderAll.mp hm
  have hinner : a ∈ top.inner := Message.inner_subset_of_mem_preorder hmem ha
  apply Message.mem_preorderAll.mpr
  refine ⟨top, htop, ?_⟩
  rw [Message.preorder_eq]
  exact List.mem_cons_of_mem top hinner

theorem mem_allMessages_of_mem_preorder {f : File} {m a : Message} (hm : m ∈ f.allMessages)
    (ha : a ∈ m.preorder) : a ∈ f.allMessages := by
  rw [Message.preorder_eq] at ha
  obtain rfl | ha := List.mem_cons.mp ha
  · exact hm
  · exact mem_allMessages_of_mem_inner hm ha

theorem mem_allEnums {f : File} {e : Enum} :
    e ∈ f.allEnums ↔ e ∈ f.enums ∨ ∃ m ∈ f.allMessages, e ∈ m.enums := by
  unfold allEnums
  rw [List.mem_append, List.mem_flatMap]

end File

end SchemaNormal
