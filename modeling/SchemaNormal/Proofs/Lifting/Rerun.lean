import SchemaNormal.Proofs.Lifting.Convergence
import SchemaNormal.Proofs.Lifting.Counts

/-!
# A second run

Lifting judges the messages as they are before the run.  When it strips them, two messages of one
name that differed only in what was taken out of them become the same.  Their name agrees from then
on, and a second run lifts it.  In no other way does a second run find anything to do.
-/

namespace SchemaNormal

namespace File

/-- What is still nested after a run was so before, under a name whose messages differ. -/
theorem mem_nestedNames_liftMessages_iff (f : File) (name : String) :
    name ∈ f.liftMessages.file.nestedNames ↔ name ∈ f.nestedNames ∧ ¬ f.Agrees name := by
  rw [← List.count_pos_iff, ← List.count_pos_iff]
  by_cases h : f.Agrees name
  · have hnone := count_nestedNames_of_agrees h
    constructor
    · intro hpos
      omega
    · rintro ⟨-, hdiffer⟩
      exact absurd h hdiffer
  · have hle := count_nestedNames_le h
    constructor
    · intro hpos
      exact ⟨by omega, h⟩
    · rintro ⟨hpos, -⟩
      exact count_nestedNames_pos h hpos

/-- After a run the messages of a name are those from before, stripped. -/
theorem agrees_liftMessages_iff (f : File) (name : String) :
    f.liftMessages.file.Agrees name ↔
      ∀ a ∈ f.allMessages, ∀ b ∈ f.allMessages, a.name = name → b.name = name →
        f.stripped a = f.stripped b := by
  constructor
  · intro h a ha b hb haname hbname
    exact h _ (stripped_mem_liftMessages ha) _ (stripped_mem_liftMessages hb)
      ((Message.strip_name a).trans haname) ((Message.strip_name b).trans hbname)
  · intro h m hm m' hm' hname hname'
    obtain ⟨a, ha, rfl⟩ := exists_of_mem_liftMessages hm
    obtain ⟨b, hb, rfl⟩ := exists_of_mem_liftMessages hm'
    exact h a ha b hb ((Message.strip_name a).symm.trans hname)
      ((Message.strip_name b).symm.trans hname')

theorem settled_iff_nestedNames (f : File) :
    f.Settled ↔ ∀ name ∈ f.nestedNames, ¬ f.Agrees name := by
  unfold nestedNames
  rw [List.forall_mem_map]
  rfl

/-- A second run leaves the file alone and writes down nothing exactly if the messages of each
nested name that differ before the first run also differ after it has stripped them. -/
theorem liftMessages_liftMessages_iff (f : File) :
    (f.liftMessages.file.liftMessages.file = f.liftMessages.file ∧
        f.liftMessages.file.liftMessages.changes = []) ↔
      ∀ x ∈ f.nested, ¬ f.Agrees x.name →
        ∃ a ∈ f.allMessages, ∃ b ∈ f.allMessages,
          a.name = x.name ∧ b.name = x.name ∧ f.stripped a ≠ f.stripped b := by
  -- the names still nested are those that were nested and did not agree
  have hnames : f.liftMessages.file.Settled ↔
      ∀ name ∈ f.nestedNames, ¬ f.Agrees name → ¬ f.liftMessages.file.Agrees name := by
    rw [settled_iff_nestedNames]
    simp only [mem_nestedNames_liftMessages_iff, and_imp]
  rw [liftMessages_file_eq_self_iff, changes_liftMessages_eq_nil_iff, and_self, hnames,
    nestedNames, List.forall_mem_map]
  simp only [agrees_liftMessages_iff, not_forall, exists_prop, Nested.name, ne_eq]

/-- The two `K` differ in the `U` inside one of them.  When it has left, the second run lifts them
too. -/
theorem secondRun_lifts :
    let f : File :=
      { messages :=
          [ { name := "A", messages := [{ name := "K", messages := [{ name := "U" }] }] },
            { name := "B", messages := [{ name := "K" }] } ] }
    let g := f.liftMessages.file
    g.messages =
        [ { name := "A", messages := [{ name := "K" }] },
          { name := "B", messages := [{ name := "K" }] }, { name := "U" } ] ∧
      g.liftMessages.file.messages =
        [{ name := "A" }, { name := "B" }, { name := "U" }, { name := "K" }] ∧
      g.liftMessages.changes = [.messageLifted "A.K" "K", .duplicateDropped "B.K" "K"] ∧
      ¬ (g.liftMessages.file = g ∧ g.liftMessages.changes = []) := by
  decide +kernel

end File

end SchemaNormal
