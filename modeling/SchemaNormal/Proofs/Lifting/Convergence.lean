import SchemaNormal.Proofs.Lifting.Survival
import SchemaNormal.Proofs.Schema.Standing

/-!
# Lifting again and again

A run of lifting leaves fewer messages nested, by at least one for each change it writes down.  A
run that writes down nothing leaves the file as it was, and that is so exactly when no nested
message has a name whose messages agree.  So lifting again and again comes to rest, and no later
than after as many runs as messages were nested at first.
-/

namespace SchemaNormal

namespace Message

theorem length_preorderAll (ms : List Message) :
    (preorderAll ms).length = ms.length + (ms.flatMap inner).length := by
  induction ms with
  | nil => rfl
  | cons m ms ih =>
    rw [preorderAll, preorder_eq, List.flatMap_cons, List.length_append, List.length_append,
      List.length_cons, List.length_cons, ih]
    omega

variable {gone : String → Bool}

theorem height_strip_le (m : Message) : (strip gone m).height ≤ m.height := by
  induction m with
  | mk name fields messages enums ih =>
    have hstays : heightAll (stripAll gone messages) ≤ heightAll messages := by
      rw [heightAll_le_iff]
      intro s hs
      obtain ⟨a, ha, rfl⟩ := mem_of_mem_stripAll hs
      exact Nat.le_trans (ih a ha) (height_le_heightAll ha)
    rw [strip, height, height]
    omega

end Message

namespace File

/-! ## One run -/

/-- No nested message has a name whose messages all agree. -/
def Settled (f : File) : Prop :=
  ∀ x ∈ f.nested, ¬ f.Agrees x.name

theorem settled_iff_taken_eq_nil (f : File) : f.Settled ↔ f.taken = [] := by
  unfold Settled taken
  rw [List.filter_eq_nil_iff]
  simp only [decide_eq_true_iff]

theorem not_agrees_iff {f : File} {name : String} :
    ¬ f.Agrees name ↔
      ∃ a ∈ f.allMessages, ∃ b ∈ f.allMessages, a.name = name ∧ b.name = name ∧ a ≠ b := by
  simp only [Agrees, not_forall, exists_prop]

theorem length_changes_liftMessages (f : File) :
    f.liftMessages.changes.length = f.taken.length := by
  have hpairs := congrArg List.length (map_snd_withEarlier f.taken)
  rw [List.length_map] at hpairs
  rw [liftMessages_changes, List.length_map, hpairs]

theorem length_nested (f : File) : f.nested.length = (f.messages.flatMap Message.inner).length := by
  rw [← f.nested_perm.length_eq, List.length_map]

/-- Every change takes a nested message away, and what is inside a dropped one goes with it. -/
theorem length_nested_liftMessages_add_le (f : File) :
    f.liftMessages.file.nested.length + f.liftMessages.changes.length ≤ f.nested.length := by
  -- before: what stays inside the messages at the top, the messages taken, what they keep inside
  have hbefore := f.map_stripped_inner_perm.length_eq
  rw [List.length_map, List.length_append, Message.length_preorderAll, List.length_map,
    ← length_nested] at hbefore
  -- afterwards: only the lifted ones among those taken are still there
  have hafter := f.liftMessages.file.length_nested
  rw [liftMessages_messages, List.flatMap_append, List.length_append] at hafter
  have hinner := f.inner_lifted_sublist.length_le
  rw [length_changes_liftMessages]
  omega

theorem height_liftMessages_le (f : File) : f.liftMessages.file.height ≤ f.height := by
  unfold height
  rw [Message.heightAll_le_iff]
  intro m hm
  obtain ⟨a, ha, rfl⟩ := exists_of_mem_liftMessages_messages hm
  exact Nat.le_trans (Message.height_strip_le a) (height_le_of_mem ha)

theorem changes_liftMessages_eq_nil_iff (f : File) : f.liftMessages.changes = [] ↔ f.Settled := by
  rw [settled_iff_taken_eq_nil, ← List.length_eq_zero_iff, ← List.length_eq_zero_iff,
    length_changes_liftMessages]

theorem Settled.liftMessages_file {f : File} (h : f.Settled) : f.liftMessages.file = f := by
  have htaken := f.settled_iff_taken_eq_nil.mp h
  have hlifted : f.lifted = [] := by
    unfold lifted
    rw [htaken]
    rfl
  -- what is inside a message of the file is nested, so nothing in it has to go
  have hstripped : ∀ m ∈ f.messages, f.stripped m = m := by
    intro m hm
    apply Message.strip_of_not_gone
    intro a ha
    have hnested : a ∈ f.nested.map (·.message) :=
      f.nested_perm.mem_iff.mpr (List.mem_flatMap.mpr ⟨m, hm, ha⟩)
    obtain ⟨x, hx, rfl⟩ := List.mem_map.mp hnested
    exact decide_eq_false (h x hx)
  have hmessages : f.messages.map f.stripped = f.messages := by
    rw [List.map_congr_left hstripped, List.map_id']
  rw [File.liftMessages_file, hmessages, hlifted, List.map_nil, List.append_nil]

theorem liftMessages_file_eq_self_iff (f : File) : f.liftMessages.file = f ↔ f.Settled := by
  constructor
  · intro h
    -- as many messages are nested as before, so no change was written down
    have hle := f.length_nested_liftMessages_add_le
    rw [h] at hle
    rw [← changes_liftMessages_eq_nil_iff, ← List.length_eq_zero_iff]
    omega
  · exact Settled.liftMessages_file

/-! ## Many runs -/

/-- The file after lifting so many times. -/
def afterRuns (f : File) : Nat → File
  | 0 => f
  | n + 1 => (f.afterRuns n).liftMessages.file

theorem settled_or_length_nested_le (f : File) (n : Nat) :
    (f.afterRuns n).Settled ∨ (f.afterRuns n).nested.length + n ≤ f.nested.length := by
  induction n with
  | zero => exact Or.inr (Nat.le_refl _)
  | succ n ih =>
    rw [afterRuns]
    by_cases hsettled : (f.afterRuns n).Settled
    · rw [hsettled.liftMessages_file]
      exact Or.inl hsettled
    · -- the run wrote down a change, so at least one message less is nested
      have hle := ih.resolve_left hsettled
      have hstep := (f.afterRuns n).length_nested_liftMessages_add_le
      have hpos : 0 < (f.afterRuns n).liftMessages.changes.length := by
        rw [List.length_pos_iff, ne_eq, changes_liftMessages_eq_nil_iff]
        exact hsettled
      right
      omega

theorem settled_afterRuns (f : File) : (f.afterRuns f.nested.length).Settled := by
  obtain hsettled | hle := f.settled_or_length_nested_le f.nested.length
  · exact hsettled
  · -- nothing is nested any more
    have hnil : (f.afterRuns f.nested.length).nested = [] := by
      rw [← List.length_eq_zero_iff]
      omega
    intro x hx
    rw [hnil] at hx
    cases hx

/-- Lifting takes nested messages away, one at least for each change, and nests none deeper.  It
changes nothing exactly when it writes down nothing, and that is when no nested message has a name
whose messages agree.  After as many runs as messages are nested it has come to that: each name
still nested has two different definitions. -/
theorem liftMessages_converges (f : File) :
    (f.liftMessages.file.nested.length + f.liftMessages.changes.length ≤ f.nested.length ∧
      f.liftMessages.file.height ≤ f.height ∧
      (f.liftMessages.changes = [] ↔ f.liftMessages.file = f) ∧
      (f.liftMessages.changes = [] ↔ ∀ x ∈ f.nested, ¬ f.Agrees x.name)) ∧
    let g := f.afterRuns f.nested.length
    g.liftMessages.file = g ∧ g.liftMessages.changes = [] ∧
      ∀ x ∈ g.nested, ∃ a ∈ g.allMessages, ∃ b ∈ g.allMessages,
        a.name = x.name ∧ b.name = x.name ∧ a ≠ b := by
  have hsettled := f.settled_afterRuns
  refine ⟨⟨f.length_nested_liftMessages_add_le, f.height_liftMessages_le, ?_,
    f.changes_liftMessages_eq_nil_iff⟩, hsettled.liftMessages_file,
    (changes_liftMessages_eq_nil_iff _).mpr hsettled, fun x hx => ?_⟩
  · rw [changes_liftMessages_eq_nil_iff, liftMessages_file_eq_self_iff]
  · exact not_agrees_iff.mp (hsettled x hx)

end File

end SchemaNormal
