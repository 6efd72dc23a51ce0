import SchemaNormal.Normalize
import SchemaNormal.Proofs.Enums.Passes
import SchemaNormal.Proofs.Lifting.Survival

/-!
# Guarantees of a run

What a run guarantees about enums depends on its passes and their order only in one place: the
value that completes an enum is inserted under its own name, and only a later renaming sees it.
-/

namespace SchemaNormal

variable {options : Options}

/-! ## One pass -/

theorem complete_run_iff (pass : Pass) (f : File) :
    (pass.run options f).file.Complete ↔ pass = .completeZero ∨ f.Complete := by
  cases pass with
  | liftMessages =>
    -- the same enums, at other places
    rw [or_iff_right (by decide)]
    exact forall_congr' fun e => imp_congr_left File.mem_allEnums_liftMessages
  | completeZero =>
    rw [or_iff_left_of_imp fun _ => rfl]
    exact iff_of_true (f.complete_completeZero options.zeroName) rfl
  | prefixDigits =>
    rw [or_iff_right (by decide)]
    exact f.complete_prefixDigits_iff options.digitPrefix

theorem digitFree_run_iff (hvalid : options.validate = .ok ()) (pass : Pass) (f : File) :
    (pass.run options f).file.DigitFree ↔ (pass = .prefixDigits ∨ f.DigitFree) ∧
      (startsWithDigit options.zeroName = false ∨ f.Complete ∨ pass ≠ .completeZero) := by
  obtain ⟨hne, hdigit, -⟩ := options.validate_eq_ok_iff.mp hvalid
  cases pass with
  | liftMessages =>
    have hinserts : Pass.liftMessages ≠ .completeZero := by decide
    rw [or_iff_right (by decide), and_iff_left (Or.inr (Or.inr hinserts))]
    exact forall_congr' fun e => imp_congr_left File.mem_allEnums_liftMessages
  | completeZero =>
    rw [or_iff_right (by decide), or_iff_left (not_not.mpr rfl)]
    exact f.digitFree_completeZero_iff options.zeroName
  | prefixDigits =>
    have hinserts : Pass.prefixDigits ≠ .completeZero := by decide
    rw [and_iff_left (Or.inr (Or.inr hinserts))]
    exact iff_of_true ((f.digitFree_prefixDigits_iff options.digitPrefix).mpr
      (Or.inr ⟨hne, hdigit⟩)) (Or.inl rfl)

/-! ## A whole run -/

theorem complete_foldl_iff (passes : List Pass) (sofar : Outcome) :
    (passes.foldl (Outcome.next options) sofar).file.Complete ↔
      .completeZero ∈ passes ∨ sofar.file.Complete := by
  induction passes generalizing sofar with
  | nil => simp
  | cons pass passes ih =>
    rw [List.foldl_cons, ih, List.mem_cons]
    show _ ∨ (pass.run options sofar.file).file.Complete ↔ _
    rw [complete_run_iff, eq_comm (a := pass)]
    tauto

theorem digitFree_foldl_iff (hvalid : options.validate = .ok ()) (passes : List Pass)
    (sofar : Outcome) :
    (passes.foldl (Outcome.next options) sofar).file.DigitFree ↔
      (.prefixDigits ∈ passes ∨ sofar.file.DigitFree) ∧
        (startsWithDigit options.zeroName = false ∨ sofar.file.Complete ∨
          .completeZero ∉ passes ∨ .prefixDigits ∈ passes.dropWhile (· ≠ .completeZero)) := by
  induction passes generalizing sofar with
  | nil => simp
  | cons pass passes ih =>
    rw [List.foldl_cons, ih]
    show (_ ∨ (pass.run options sofar.file).file.DigitFree) ∧
      (_ ∨ (pass.run options sofar.file).file.Complete ∨ _) ↔ _
    rw [complete_run_iff, digitFree_run_iff hvalid]
    cases pass with
    | liftMessages => simp
    | completeZero =>
      -- the file is complete from here on, and every pass that is left comes after this one
      simp only [reduceCtorEq, false_or, ne_eq, not_true_eq_false, or_false, true_or, or_true,
        and_true, List.mem_cons, decide_not, decide_true, Bool.not_true, Bool.false_eq_true,
        not_false_eq_true, List.dropWhile_cons_of_neg]
      tauto
    | prefixDigits => simp

theorem normalize_of_valid (hvalid : options.validate = .ok ()) (f : File) :
    normalize f options = .ok (options.passes.foldl (Outcome.next options) { file := f }) := by
  unfold normalize
  rw [hvalid]
  rfl

/-- With both enum passes among them, accepted options run and give every enum a value of index 0.
They leave no name with a leading digit unless one is inserted and never renamed: the inserted name
starts with a digit, some enum of the file needs it, and no renaming follows the first completing
pass. -/
theorem normalize_complete_and_digitFree_iff (hvalid : options.validate = .ok ())
    (hzero : .completeZero ∈ options.passes) (hdigits : .prefixDigits ∈ options.passes)
    (f : File) :
    ∃ outcome, normalize f options = .ok outcome ∧ outcome.file.Complete ∧
      (outcome.file.DigitFree ↔ startsWithDigit options.zeroName = false ∨ f.Complete ∨
        .prefixDigits ∈ options.passes.dropWhile (· ≠ .completeZero)) := by
  refine ⟨_, normalize_of_valid hvalid f, ?_, ?_⟩
  · rw [complete_foldl_iff]
    exact Or.inl hzero
  · -- what is left of the run's condition, since both passes are in the list
    rw [digitFree_foldl_iff hvalid, and_iff_right (Or.inl hdigits)]
    exact or_congr_right (or_congr_right (or_iff_right (not_not.mpr hzero)))

def needsZero : File :=
  { enums := [{ name := "E" }] }

/-- A renaming after the completing pass frees the inserted name of its leading digit. -/
theorem needsZero_completed_then_renamed :
    let options : Options :=
      { passes := [.completeZero, .liftMessages, .prefixDigits], zeroName := "0Z" }
    options.validate = .ok () ∧ .completeZero ∈ options.passes ∧ .prefixDigits ∈ options.passes ∧
      ∃ outcome, normalize needsZero options = .ok outcome ∧
        outcome.file.Complete ∧ outcome.file.DigitFree := by
  intro options
  have hvalid : options.validate = .ok () := by decide +kernel
  have hzero : .completeZero ∈ options.passes := by decide
  have hdigits : .prefixDigits ∈ options.passes := by decide
  have hrenamed : .prefixDigits ∈ options.passes.dropWhile (· ≠ .completeZero) := by decide
  obtain ⟨outcome, hrun, hcomplete, hdigitFree⟩ :=
    normalize_complete_and_digitFree_iff hvalid hzero hdigits needsZero
  exact ⟨hvalid, hzero, hdigits, outcome, hrun, hcomplete,
    hdigitFree.mpr (Or.inr (Or.inr hrenamed))⟩

/-- A renaming before it does not: the options are accepted, and the inserted name keeps its
leading digit. -/
theorem needsZero_renamed_then_completed :
    let options : Options := { passes := [.prefixDigits, .completeZero], zeroName := "0Z" }
    options.validate = .ok () ∧ .completeZero ∈ options.passes ∧ .prefixDigits ∈ options.passes ∧
      ∃ outcome, normalize needsZero options = .ok outcome ∧
        outcome.file = { enums := [{ name := "E", values := [⟨"0Z", 0⟩] }] } ∧
        ¬ outcome.file.DigitFree := by
  refine ⟨by decide +kernel, by decide, by decide, _, rfl, by decide +kernel, by decide +kernel⟩

end SchemaNormal
