import SchemaNormal.Normalize
import SchemaNormal.Proofs.Enums.Changes

/-!
# Files on which an enum pass is idle

Completing has nothing to do exactly on the files whose enums are complete, renaming exactly on
those without leading digits.  So a second run of a pass is idle when the first one has kept its
guarantee.  Completing always keeps it.  Renaming keeps it on every file only under the prefixes
that valid options have.
-/

namespace SchemaNormal

/-! ## One enum -/

theorem EnumValue.prefixed_eq_self_iff {digitPrefix : String} {v : EnumValue} :
    v.prefixed digitPrefix = v ↔ digitPrefix = "" ∨ startsWithDigit v.name = false := by
  rw [← prefixDigits_eq_self_iff]
  constructor
  · intro h
    exact congrArg EnumValue.name h
  · intro h
    unfold prefixed
    rw [h]

namespace Enum

theorem completeZero_eq_self_iff {zeroName : String} {e : Enum} :
    e.completeZero zeroName = e ↔ e.hasZero = true := by
  constructor
  · intro h
    rw [← h]
    exact hasZero_completeZero zeroName e
  · intro h
    exact completeZero_of_hasZero h zeroName

/-- An empty prefix renames values to the names that they have. -/
theorem prefixed_eq_self_iff {digitPrefix : String} {e : Enum} :
    e.prefixed digitPrefix = e ↔ digitPrefix = "" ∨ e.DigitFree := by
  have hvalues : e.prefixed digitPrefix = e ↔
      e.values.map (·.prefixed digitPrefix) = e.values.map id := by
    rw [List.map_id]
    constructor
    · intro h
      exact congrArg Enum.values h
    · intro h
      unfold prefixed
      rw [h]
  rw [hvalues, List.map_eq_map_iff]
  simp only [id_eq, EnumValue.prefixed_eq_self_iff, forall_or_left, DigitFree]

theorem prefixed_of_digitFree {e : Enum} (h : e.DigitFree) (digitPrefix : String) :
    e.prefixed digitPrefix = e :=
  prefixed_eq_self_iff.mpr (Or.inr h)

end Enum

/-! ## A whole file -/

namespace File

theorem completeZero_file_eq_self_iff {f : File} {zeroName : String} :
    (f.completeZero zeroName).file = f ↔ f.Complete := by
  rw [completeZero_file, mapEnums_eq_self_iff]
  simp only [Enum.completeZero_eq_self_iff, Complete]

theorem completeZero_changes_eq_nil_iff {f : File} {zeroName : String} :
    (f.completeZero zeroName).changes = [] ↔ f.Complete := by
  rw [completeZero_changes, List.flatMap_eq_nil_iff]
  simp only [PlacedEnum.insertions_eq_nil_iff]
  exact f.forall_placedEnums_iff (·.hasZero = true)

theorem prefixDigits_file_eq_self_iff {f : File} {digitPrefix : String} :
    (f.prefixDigits digitPrefix).file = f ↔ digitPrefix = "" ∨ f.DigitFree := by
  rw [prefixDigits_file, mapEnums_eq_self_iff]
  simp only [Enum.prefixed_eq_self_iff, forall_or_left, DigitFree]

/-- Under an empty prefix the renaming tells of values all the same. -/
theorem prefixDigits_changes_eq_nil_iff {f : File} {digitPrefix : String} :
    (f.prefixDigits digitPrefix).changes = [] ↔ f.DigitFree := by
  rw [prefixDigits_changes, List.flatMap_eq_nil_iff]
  simp only [PlacedEnum.renamings_eq_nil_iff]
  exact f.forall_placedEnums_iff Enum.DigitFree

end File

/-! ## Second runs -/

/-- The pass leaves the file as it is and tells of no change. -/
def Pass.IdleOn (options : Options) (pass : Pass) (f : File) : Prop :=
  (pass.run options f).file = f ∧ (pass.run options f).changes = []

instance (options : Options) (pass : Pass) : DecidablePred (pass.IdleOn options) := fun f =>
  inferInstanceAs (Decidable
    ((pass.run options f).file = f ∧ (pass.run options f).changes = []))

theorem Pass.completeZero_idleOn_iff {options : Options} {f : File} :
    Pass.completeZero.IdleOn options f ↔ f.Complete := by
  constructor
  · intro h
    exact File.completeZero_changes_eq_nil_iff.mp h.2
  · intro h
    exact ⟨File.completeZero_file_eq_self_iff.mpr h, File.completeZero_changes_eq_nil_iff.mpr h⟩

theorem Pass.prefixDigits_idleOn_iff {options : Options} {f : File} :
    Pass.prefixDigits.IdleOn options f ↔ f.DigitFree := by
  constructor
  · intro h
    exact File.prefixDigits_changes_eq_nil_iff.mp h.2
  · intro h
    exact ⟨File.prefixDigits_file_eq_self_iff.mpr (Or.inr h),
      File.prefixDigits_changes_eq_nil_iff.mpr h⟩

/-- What a first renaming leaves to a second one depends on the file only if the prefix is empty or
has a digit in front. -/
theorem Pass.prefixDigits_rerun_idleOn_iff (options : Options) (f : File) :
    Pass.prefixDigits.IdleOn options (Pass.prefixDigits.run options f).file ↔
      f.DigitFree ∨ options.digitPrefix ≠ "" ∧ startsWithDigit options.digitPrefix = false := by
  rw [prefixDigits_idleOn_iff]
  exact f.digitFree_prefixDigits_iff options.digitPrefix

/-- The check of the digit prefix accepts exactly the prefixes under which a second renaming is
idle after the first, on every file. -/
theorem Options.validate_eq_ok_iff_rerun_idle {options : Options} (hzero : options.zeroName ≠ "") :
    options.validate = .ok () ↔
      ∀ f, Pass.prefixDigits.IdleOn options (Pass.prefixDigits.run options f).file := by
  simp only [Pass.prefixDigits_rerun_idleOn_iff]
  rw [validate_eq_ok_iff]
  constructor
  · intro h f
    exact Or.inr ⟨h.1, h.2.1⟩
  · intro h
    -- one value with a digit in front tells every refused prefix apart
    let f : File := { enums := [{ name := "E", values := [⟨"0", 0⟩] }] }
    have hdigit : ¬ f.DigitFree := by decide +kernel
    obtain ⟨hne, hfree⟩ := (h f).resolve_left hdigit
    exact ⟨hne, hfree, hzero⟩

/-- An accepted prefix, an empty one and one with a digit in front. -/
theorem Options.threePrefixes_rerun_idle :
    let accepted : Options := {}
    let empty : Options := { digitPrefix := "" }
    let digit : Options := { digitPrefix := "9" }
    accepted.zeroName ≠ "" ∧ empty.zeroName ≠ "" ∧ digit.zeroName ≠ "" ∧
      (∀ f, Pass.prefixDigits.IdleOn accepted (Pass.prefixDigits.run accepted f).file) ∧
      (¬ ∀ f, Pass.prefixDigits.IdleOn empty (Pass.prefixDigits.run empty f).file) ∧
      ¬ ∀ f, Pass.prefixDigits.IdleOn digit (Pass.prefixDigits.run digit f).file := by
  intro accepted empty digit
  have haccepted : accepted.zeroName ≠ "" := by decide +kernel
  have hempty : empty.zeroName ≠ "" := by decide +kernel
  have hdigit : digit.zeroName ≠ "" := by decide +kernel
  refine ⟨haccepted, hempty, hdigit, ?_, ?_, ?_⟩
  · rw [← validate_eq_ok_iff_rerun_idle haccepted]
    decide +kernel
  · rw [← validate_eq_ok_iff_rerun_idle hempty]
    decide +kernel
  · rw [← validate_eq_ok_iff_rerun_idle hdigit]
    decide +kernel

/-- The second renaming tells of the value again under an empty prefix.  Under a prefix with a digit
in front it also changes the file again. -/
example :
    let f : File := { enums := [{ name := "E", values := [⟨"0", 0⟩] }] }
    let empty := (f.prefixDigits "").file
    let digit := (f.prefixDigits "9").file
    (empty.prefixDigits "").file = empty ∧ (empty.prefixDigits "").changes ≠ [] ∧
      (digit.prefixDigits "9").file ≠ digit := by
  decide +kernel

end SchemaNormal
