import SchemaNormal.Proofs.Lifting.Survival

/-!
# The order of the messages at the top

Lifting moves the first copy of a name that it meets, so the order of the messages at the top
decides which copy moves and which are dropped.  It does not decide what the file holds in the end:
all copies of a name that is lifted are the same message, and they are stripped in the same way.
-/

namespace SchemaNormal

namespace Change

/-- The name of a message that became a message of the file. -/
def liftedName? : Change → Option String
  | .messageLifted _ name => some name
  | _ => none

/-- The name of a copy that was removed. -/
def droppedName? : Change → Option String
  | .duplicateDropped _ name => some name
  | _ => none

end Change

namespace Nested

/-! ## Names in the changes -/

theorem liftedNames_changes (names : List String) (xs : List Nested) :
    ((withEarlier xs).map fun p => change names p.1 p.2).filterMap Change.liftedName? =
      (firsts names xs).map name := by
  induction xs generalizing names with
  | nil => rfl
  | cons x xs ih =>
    rw [changes_cons, firsts_cons]
    by_cases h : x.name ∈ names
    · rw [if_pos h, if_pos h, List.filterMap_cons_none rfl, ih]
    · have hlifted : Change.liftedName? (.messageLifted x.path x.name) = some x.name := rfl
      rw [if_neg h, if_neg h, List.filterMap_cons_some hlifted, ih, List.map_cons]

/-- Each message taken out is written down once, as lifted or as dropped. -/
theorem names_changes_perm (names : List String) (xs : List Nested) :
    (((withEarlier xs).map fun p => change names p.1 p.2).filterMap Change.liftedName? ++
      ((withEarlier xs).map fun p => change names p.1 p.2).filterMap Change.droppedName?).Perm
        (xs.map name) := by
  induction xs generalizing names with
  | nil => exact List.Perm.nil
  | cons x xs ih =>
    have hxs := (ih (x.name :: names)).cons x.name
    rw [changes_cons, List.map_cons]
    by_cases h : x.name ∈ names
    · have hdropped : Change.droppedName? (.duplicateDropped x.path x.name) = some x.name := rfl
      rw [if_pos h, List.filterMap_cons_none rfl, List.filterMap_cons_some hdropped]
      exact List.perm_middle.trans hxs
    · have hlifted : Change.liftedName? (.messageLifted x.path x.name) = some x.name := rfl
      rw [if_neg h, List.filterMap_cons_some hlifted, List.filterMap_cons_none rfl]
      exact hxs

end Nested

namespace File

/-- The messages that lifting puts after those of the file. -/
def appended (f : File) : List Message :=
  f.liftMessages.file.messages.drop f.messages.length

theorem appended_eq (f : File) : f.appended = f.lifted.map (f.stripped ·.message) := by
  unfold appended
  rw [liftMessages_messages]
  exact List.drop_left' (List.length_map f.stripped)

theorem liftedNames_liftMessages (f : File) :
    f.liftMessages.changes.filterMap Change.liftedName? = f.lifted.map Nested.name := by
  rw [liftMessages_changes, Nested.liftedNames_changes, lifted]

theorem names_liftMessages_perm (f : File) :
    (f.liftMessages.changes.filterMap Change.liftedName? ++
      f.liftMessages.changes.filterMap Change.droppedName?).Perm (f.taken.map Nested.name) := by
  rw [liftMessages_changes]
  exact Nested.names_changes_perm f.topNames f.taken

/-! ## What is lifted, whatever the order -/

theorem mem_messages_lifted_iff (f : File) (m : Message) :
    m ∈ f.lifted.map (·.message) ↔ m.name ∉ f.topNames ∧ m ∈ f.taken.map (·.message) := by
  rw [List.mem_map, List.mem_map]
  constructor
  · rintro ⟨x, hx, rfl⟩
    exact ⟨Nested.name_notMem_of_mem_firsts hx, x, mem_taken_of_mem_lifted hx, rfl⟩
  · rintro ⟨htop, x, hx, rfl⟩
    have hnot : x.message ∉ f.messages := fun hmem => htop (List.mem_map_of_mem hmem)
    exact (exists_copy_of_mem_taken hx).resolve_left hnot

theorem nodup_messages_lifted (f : File) : (f.lifted.map (·.message)).Nodup := by
  have hnames : (f.lifted.map Nested.name).Nodup :=
    Nested.nodup_names_firsts f.topNames f.taken
  apply List.Nodup.of_map (·.name)
  rw [List.map_map]
  exact hnames

section Reordered

variable {f g : File} (h : g.messages.Perm f.messages)

include h

theorem allMessages_perm : g.allMessages.Perm f.allMessages := by
  unfold allMessages
  rw [Message.preorderAll_eq_flatMap, Message.preorderAll_eq_flatMap]
  exact h.flatMap_right Message.preorder

theorem agrees_iff_of_perm (name : String) : g.Agrees name ↔ f.Agrees name :=
  agrees_congr (fun _ => (allMessages_perm h).mem_iff) name

theorem stripped_eq_of_perm : g.stripped = f.stripped := by
  funext m
  apply Message.strip_congr
  intro a _
  exact decide_eq_decide.mpr (agrees_iff_of_perm h a.name)

theorem taken_perm : g.taken.Perm f.taken := by
  have hnested : g.nested.Perm f.nested := h.flatMap_right (Message.inside [])
  have hsame : ∀ x ∈ g.nested, decide (g.Agrees x.name) = decide (f.Agrees x.name) := by
    intro x _
    exact decide_eq_decide.mpr (agrees_iff_of_perm h x.name)
  unfold taken
  rw [List.filter_congr hsame]
  exact hnested.filter _

/-- The lifted messages have names of their own, so it is enough that the same ones are lifted. -/
theorem messages_lifted_perm : (g.lifted.map (·.message)).Perm (f.lifted.map (·.message)) := by
  rw [List.perm_ext_iff_of_nodup g.nodup_messages_lifted f.nodup_messages_lifted]
  intro m
  have htop : m.name ∈ g.topNames ↔ m.name ∈ f.topNames := (h.map (·.name)).mem_iff
  have htaken : m ∈ g.taken.map (·.message) ↔ m ∈ f.taken.map (·.message) :=
    ((taken_perm h).map (·.message)).mem_iff
  rw [mem_messages_lifted_iff, mem_messages_lifted_iff, htop, htaken]

theorem appended_perm : g.appended.Perm f.appended := by
  have hstripped := (messages_lifted_perm h).map f.stripped
  rw [List.map_map, List.map_map] at hstripped
  rw [appended_eq, appended_eq, stripped_eq_of_perm h]
  exact hstripped

theorem liftedNames_perm :
    (g.liftMessages.changes.filterMap Change.liftedName?).Perm
      (f.liftMessages.changes.filterMap Change.liftedName?) := by
  have hnames := (messages_lifted_perm h).map (·.name)
  rw [List.map_map, List.map_map] at hnames
  rw [liftedNames_liftMessages, liftedNames_liftMessages]
  exact hnames

/-- What is taken and not lifted is dropped. -/
theorem droppedNames_perm :
    (g.liftMessages.changes.filterMap Change.droppedName?).Perm
      (f.liftMessages.changes.filterMap Change.droppedName?) := by
  have htaken := (taken_perm h).map Nested.name
  have hboth := (g.names_liftMessages_perm.trans htaken).trans f.names_liftMessages_perm.symm
  -- the lifted names are a part of both sides
  have hcancel := ((liftedNames_perm h).symm.append_right _).trans hboth
  exact (List.perm_append_left_iff _).mp hcancel

/-- The order of the messages at the top changes neither what the file holds after lifting, nor
which names are lifted and how often copies of each name are dropped. -/
theorem liftMessages_of_perm :
    g.liftMessages.file.messages.Perm f.liftMessages.file.messages ∧
      g.appended.Perm f.appended ∧
      (g.liftMessages.changes.filterMap Change.liftedName?).Perm
        (f.liftMessages.changes.filterMap Change.liftedName?) ∧
      (g.liftMessages.changes.filterMap Change.droppedName?).Perm
        (f.liftMessages.changes.filterMap Change.droppedName?) := by
  have happended := appended_perm h
  refine ⟨?_, happended, liftedNames_perm h, droppedNames_perm h⟩
  rw [appended_eq, appended_eq] at happended
  rw [liftMessages_messages, liftMessages_messages]
  refine List.Perm.append ?_ happended
  rw [stripped_eq_of_perm h]
  exact h.map f.stripped

end Reordered

/-- Of the two copies of `D` the one met first is lifted, each time another one, and the lifted
messages come in another order. -/
theorem swapped_liftMessages :
    let a : Message := { name := "A", messages := [{ name := "B" }, { name := "D" }] }
    let c : Message := { name := "C", messages := [{ name := "D" }, { name := "E" }] }
    let f : File := { messages := [a, c] }
    let g : File := { messages := [c, a] }
    g.messages.Perm f.messages ∧
      .messageLifted "A.D" "D" ∈ f.liftMessages.changes ∧
      .duplicateDropped "A.D" "D" ∈ g.liftMessages.changes ∧
      f.appended = [{ name := "B" }, { name := "D" }, { name := "E" }] ∧
      g.appended = [{ name := "D" }, { name := "E" }, { name := "B" }] ∧
      g.liftMessages.file.messages.Perm f.liftMessages.file.messages ∧
      g.appended.Perm f.appended ∧
      (g.liftMessages.changes.filterMap Change.liftedName?).Perm
        (f.liftMessages.changes.filterMap Change.liftedName?) ∧
      (g.liftMessages.changes.filterMap Change.droppedName?).Perm
        (f.liftMessages.changes.filterMap Change.droppedName?) := by
  intro a c f g
  have hswap : g.messages.Perm f.messages := List.Perm.swap a c []
  exact ⟨hswap, by decide +kernel, by decide +kernel, by decide +kernel, by decide +kernel,
    liftMessages_of_perm hswap⟩

end File

end SchemaNormal
