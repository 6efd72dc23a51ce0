import SchemaNormal.Proofs.Normalize.EnumPasses

/-!
# Files on which the enum passes are idle

An enum pass changes nothing and tells nothing on a file whose enums are complete and free of
leading digits.  A run of all passes in their default order leaves such a file, so no enum pass has
anything to do after it, in whatever order and however often.
-/

namespace SchemaNormal

variable {options : Options}

/-! ## One pass -/

theorem Pass.OnEnums.idleOn {pass : Pass} (h : pass.OnEnums) (options : Options) {f : File}
    (hcomplete : f.Complete) (hfree : f.DigitFree) : pass.IdleOn options f := by
  obtain rfl | rfl := h
  · exact completeZero_idleOn_iff.mpr hcomplete
  · exact prefixDigits_idleOn_iff.mpr hfree

/-! ## A whole run -/

theorem foldl_idle (passes : List Pass) (hpasses : ∀ pass ∈ passes, pass.OnEnums)
    {sofar : Outcome} (hcomplete : sofar.file.Complete) (hfree : sofar.file.DigitFree) :
    (passes.foldl (Outcome.next options) sofar).file = sofar.file ∧
      (passes.foldl (Outcome.next options) sofar).report = sofar.report := by
  induction passes generalizing sofar with
  | nil => exact ⟨rfl, rfl⟩
  | cons pass passes ih =>
    obtain ⟨hpass, hrest⟩ := List.forall_mem_cons.mp hpasses
    obtain ⟨hfile, hchanges⟩ := hpass.idleOn options hcomplete hfree
    have hnextFile : (Outcome.next options sofar pass).file = sofar.file := hfile
    have hnextReport : (Outcome.next options sofar pass).report = sofar.report := by
      show Report.mk (sofar.report.changes ++ (pass.run options sofar.file).changes) = _
      rw [hchanges, List.append_nil]
    rw [List.foldl_cons, ← hnextFile, ← hnextReport]
    apply ih hrest
    · rw [hnextFile]
      exact hcomplete
    · rw [hnextFile]
      exact hfree

/-- In the default order the renaming comes last, so it sees every inserted name. -/
theorem complete_and_digitFree_of_all (hvalid : options.validate = .ok ()) (f : File) :
    (Pass.all.foldl (Outcome.next options) { file := f }).file.Complete ∧
      (Pass.all.foldl (Outcome.next options) { file := f }).file.DigitFree := by
  have hlate : .prefixDigits ∈ Pass.all.dropWhile (· ≠ .completeZero) := by decide
  constructor
  · rw [complete_foldl_iff]
    exact Or.inl (by decide)
  · rw [digitFree_foldl_iff hvalid]
    exact ⟨Or.inl (by decide), Or.inr (Or.inr (Or.inr hlate))⟩

/-- After a run of all passes in their default order, any list of enum passes under the same names
gives the same file and reports nothing. -/
theorem normalize_stable (hvalid : options.validate = .ok ()) (hall : options.passes = Pass.all)
    (f : File) :
    ∃ outcome, normalize f options = .ok outcome ∧
      ∀ passes : List Pass, (∀ pass ∈ passes, pass = .completeZero ∨ pass = .prefixDigits) →
        ∃ again, normalize outcome.file { options with passes } = .ok again ∧
          again.file = outcome.file ∧ again.report.changes = [] := by
  refine ⟨_, normalize_of_valid hvalid f, fun passes hpasses => ?_⟩
  rw [hall]
  obtain ⟨hcomplete, hfree⟩ := complete_and_digitFree_of_all hvalid f
  obtain ⟨hfile, hreport⟩ := @foldl_idle options passes hpasses
    { file := (Pass.all.foldl (Outcome.next options) { file := f }).file } hcomplete hfree
  refine ⟨_, normalize_with_passes hvalid passes _, hfile, ?_⟩
  rw [hreport]

/-- An inserted name with a digit in front is renamed in the same run, inside a message that is
lifted; the passes find nothing to do after it, whatever their order. -/
theorem liftedEnum_stable :
    let options : Options := { zeroName := "0Z" }
    let passes : List Pass := [.prefixDigits, .completeZero, .prefixDigits]
    let f : File :=
      { messages :=
          [{ name := "A", messages := [{ name := "B", enums := [{ name := "E" }] }] }] }
    options.validate = .ok () ∧ options.passes = Pass.all ∧
      (∀ pass ∈ passes, pass = .completeZero ∨ pass = .prefixDigits) ∧
      ∃ outcome, normalize f options = .ok outcome ∧
        outcome.file.allEnums = [{ name := "E", values := [⟨"NUM_0Z", 0⟩] }] ∧
        ∃ again, normalize outcome.file { options with passes } = .ok again ∧
          again.file = outcome.file ∧ again.report.changes = [] := by
  intro options passes f
  have hvalid : options.validate = .ok () := by decide +kernel
  have hpasses : ∀ pass ∈ passes, pass = .completeZero ∨ pass = .prefixDigits := by decide
  obtain ⟨outcome, hrun, hstable⟩ := normalize_stable hvalid rfl f
  have henums : outcome.file.allEnums = [{ name := "E", values := [⟨"NUM_0Z", 0⟩] }] := by
    rw [← Except.ok.inj ((normalize_of_valid hvalid f).symm.trans hrun)]
    decide +kernel
  exact ⟨hvalid, rfl, hpasses, outcome, hrun, henums, hstable passes hpasses⟩

end SchemaNormal
