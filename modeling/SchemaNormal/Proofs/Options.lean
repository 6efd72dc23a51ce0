import SchemaNormal.Options
import SchemaNormal.Pass.DigitPrefix

/-!
# What valid options promise

The digit prefix of valid options does not start with a digit, so no name with the prefix in front
does.
-/

namespace SchemaNormal

/-- Names without characters and names that start with a digit of another script do not count. -/
theorem startsWithDigit_iff {name : String} :
    startsWithDigit name = true ↔ ∃ c rest, name.toList = c :: rest ∧ '0' ≤ c ∧ c ≤ '9' := by
  unfold startsWithDigit
  cases hchars : name.toList with
  | nil => simp
  | cons c cs =>
    have hdigit : c.isDigit = true ↔ '0' ≤ c ∧ c ≤ '9' := by
      unfold Char.isDigit
      rw [Bool.and_eq_true, decide_eq_true_eq, decide_eq_true_eq]
      rfl
    simp [hdigit]

/-- The first character of a joined text is that of its first part. -/
theorem startsWithDigit_append {first : String} (h : first ≠ "") (second : String) :
    startsWithDigit (first ++ second) = startsWithDigit first := by
  unfold startsWithDigit
  rw [String.toList_append]
  cases hchars : first.toList with
  | nil => exact absurd (String.toList_eq_nil_iff.mp hchars) h
  | cons c cs => rfl

/-- A renaming takes the leading digit away unless the prefix brings one itself or is empty. -/
theorem startsWithDigit_prefixDigits_iff {digitPrefix name : String} :
    startsWithDigit (prefixDigits digitPrefix name) = false ↔
      startsWithDigit name = false ∨ digitPrefix ≠ "" ∧ startsWithDigit digitPrefix = false := by
  unfold prefixDigits
  split
  · rename_i hname
    rw [or_iff_right (ne_false_of_eq_true hname)]
    by_cases hne : digitPrefix = ""
    · rw [hne, String.empty_append, hname]
      simp
    · rw [startsWithDigit_append hne, and_iff_right hne]
  · rename_i hname
    have hfree : startsWithDigit name = false := eq_false_of_ne_true hname
    exact iff_of_true hfree (Or.inl hfree)

theorem prefixDigits_eq_self_iff {digitPrefix name : String} :
    prefixDigits digitPrefix name = name ↔ digitPrefix = "" ∨ startsWithDigit name = false := by
  unfold prefixDigits
  split
  · rename_i hname
    rw [or_iff_left (ne_false_of_eq_true hname), String.append_eq_right_iff]
  · rename_i hname
    exact iff_of_true rfl (Or.inr (eq_false_of_ne_true hname))

theorem Options.validate_eq_ok_iff (options : Options) :
    options.validate = .ok () ↔ options.digitPrefix ≠ "" ∧
      startsWithDigit options.digitPrefix = false ∧ options.zeroName ≠ "" := by
  unfold validate
  -- one case for each check, in the order of the checks
  by_cases hempty : options.digitPrefix.isEmpty = true
  · rw [if_pos hempty]
    simp [String.isEmpty_iff.mp hempty]
  · have hne : options.digitPrefix ≠ "" := fun h => hempty (String.isEmpty_iff.mpr h)
    rw [if_neg hempty]
    by_cases hdigit : startsWithDigit options.digitPrefix = true
    · rw [if_pos hdigit]
      simp [hdigit]
    · rw [if_neg hdigit]
      by_cases hzero : options.zeroName.isEmpty = true
      · rw [if_pos hzero]
        simp [String.isEmpty_iff.mp hzero]
      · rw [if_neg hzero]
        have hzne : options.zeroName ≠ "" := fun h => hzero (String.isEmpty_iff.mpr h)
        simp [hne, hdigit, hzne]

end SchemaNormal
