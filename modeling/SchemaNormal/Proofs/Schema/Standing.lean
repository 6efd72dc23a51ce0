import SchemaNormal.Proofs.Schema.Members

/-!
# How far inside a message stands

A message of a file stands inside as many messages as there are around it; those at the top stand
inside none.  From the other side, a message is as high as messages stand in one another inside it.
-/

namespace SchemaNormal

namespace File

/-- The message stands inside so many messages of the file. -/
inductive Stands (f : File) : Nat → Message → Prop where
  | top {m : Message} : m ∈ f.messages → Stands f 0 m
  | inner {k : Nat} {a m : Message} : Stands f k a → m ∈ a.messages → Stands f (k + 1) m

theorem exists_stands_of_mem_preorder {f : File} {m a : Message} {k : Nat} (hm : f.Stands k m)
    (ha : a ∈ m.preorder) : ∃ k', f.Stands k' a := by
  induction m generalizing k with
  | mk name fields messages enums ih =>
    rw [Message.preorder_eq, List.mem_cons] at ha
    -- `a` is the message itself, or it is inside one of the messages in it
    obtain rfl | ha := ha
    · exact ⟨k, hm⟩
    · obtain ⟨c, hc, ha⟩ := Message.mem_preorderAll.mp ha
      exact ih c hc (.inner hm hc) ha

theorem exists_stands_of_mem {f : File} {m : Message} (h : m ∈ f.allMessages) :
    ∃ k, f.Stands k m := by
  obtain ⟨top, htop, hm⟩ := Message.mem_preorderAll.mp h
  exact exists_stands_of_mem_preorder (.top htop) hm

theorem Stands.mem_allMessages {f : File} {k : Nat} {m : Message} (h : f.Stands k m) :
    m ∈ f.allMessages := by
  induction h with
  | top hm => exact mem_allMessages_of_mem hm
  | inner _ hm ih => exact mem_allMessages_of_mem_inner ih (Message.mem_preorderAll_of_mem hm)

end File

/-! ## Height -/

namespace Message

mutual

/-- How many messages stand in one another, from this one inwards. -/
def height : Message → Nat
  | ⟨_, _, messages, _⟩ => heightAll messages + 1

def heightAll : List Message → Nat
  | [] => 0
  | m :: ms => max (height m) (heightAll ms)

end

theorem heightAll_le_iff {ms : List Message} {n : Nat} :
    heightAll ms ≤ n ↔ ∀ m ∈ ms, m.height ≤ n := by
  induction ms with
  | nil => simp [heightAll]
  | cons m ms ih => rw [heightAll, Nat.max_le, ih, List.forall_mem_cons]

theorem height_le_heightAll {m : Message} {ms : List Message} (h : m ∈ ms) :
    m.height ≤ heightAll ms :=
  heightAll_le_iff.mp (Nat.le_refl _) m h

theorem height_le_of_mem_preorder {a m : Message} (h : a ∈ m.preorder) : a.height ≤ m.height := by
  induction m with
  | mk name fields messages enums ih =>
    rw [preorder_eq, List.mem_cons] at h
    obtain rfl | h := h
    · exact Nat.le_refl _
    · obtain ⟨c, hc, ha⟩ := mem_preorderAll.mp h
      have hac : a.height ≤ c.height := ih c hc ha
      have hcm : c.height ≤ heightAll messages := height_le_heightAll hc
      rw [height]
      omega

end Message

namespace File

/-- The most messages of the file that stand in one another. -/
def height (f : File) : Nat :=
  Message.heightAll f.messages

theorem height_le_of_mem {f : File} {m : Message} (h : m ∈ f.allMessages) :
    m.height ≤ f.height := by
  obtain ⟨top, htop, hm⟩ := Message.mem_preorderAll.mp h
  exact Nat.le_trans (Message.height_le_of_mem_preorder hm) (Message.height_le_heightAll htop)

end File

end SchemaNormal
