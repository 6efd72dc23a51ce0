import Mathlib.Data.List.Nodup
import SchemaNormal.Proofs.Enums.Idle

/-!
# Names that collide

Both enum passes put names into an enum that may stand there already.  Renaming is not injective: a
name with a digit in front meets the name that it gets, if another value has it.  As long as no
renamed name has a digit in front itself, there is no other way for two names to meet.
-/

namespace SchemaNormal

/-- Renaming keeps the names of a list apart if and only if no new name is in the list before. -/
theorem prefixDigits_injOn_iff {digitPrefix : String} (hne : digitPrefix ≠ "")
    (hfree : startsWithDigit digitPrefix = false) {names : List String} :
    (∀ a ∈ names, ∀ b ∈ names, prefixDigits digitPrefix a = prefixDigits digitPrefix b → a = b) ↔
      ∀ d ∈ names, startsWithDigit d = true → digitPrefix ++ d ∉ names := by
  have hnew : ∀ d, startsWithDigit d = true → prefixDigits digitPrefix d = digitPrefix ++ d :=
    fun d hd => if_pos hd
  have hold : ∀ d, ¬ startsWithDigit d = true → prefixDigits digitPrefix d = d :=
    fun d hd => if_neg hd
  constructor
  · intro hinj d hd hdigit hmem
    -- the new name stays when it is met itself, so both names would be the same
    have hstays : prefixDigits digitPrefix (digitPrefix ++ d) = digitPrefix ++ d := by
      apply hold
      rw [startsWithDigit_append hne, hfree]
      exact Bool.false_ne_true
    have hsame : d = digitPrefix ++ d :=
      hinj d hd (digitPrefix ++ d) hmem ((hnew d hdigit).trans hstays.symm)
    exact hne (String.append_eq_right_iff.mp hsame.symm)
  · intro hapart a ha b hb hsame
    -- by which of the two names are renamed
    by_cases hdigita : startsWithDigit a = true <;> by_cases hdigitb : startsWithDigit b = true
    · rw [hnew a hdigita, hnew b hdigitb] at hsame
      exact (String.append_right_inj digitPrefix).mp hsame
    · rw [hnew a hdigita, hold b hdigitb] at hsame
      rw [← hsame] at hb
      exact absurd hb (hapart a ha hdigita)
    · rw [hold a hdigita, hnew b hdigitb] at hsame
      rw [hsame] at ha
      exact absurd ha (hapart b hb hdigitb)
    · rw [hold a hdigita, hold b hdigitb] at hsame
      exact hsame

/-! ## One enum -/

namespace Enum

/-- The names of the values, in order. -/
def valueNames (e : Enum) : List String :=
  e.values.map (·.name)

theorem valueNames_prefixed (digitPrefix : String) (e : Enum) :
    (e.prefixed digitPrefix).valueNames = e.valueNames.map (prefixDigits digitPrefix) := by
  unfold valueNames prefixed
  rw [List.map_map, List.map_map]
  rfl

theorem nodup_valueNames_prefixed_iff {digitPrefix : String} (hne : digitPrefix ≠ "")
    (hfree : startsWithDigit digitPrefix = false) {e : Enum} :
    (e.prefixed digitPrefix).valueNames.Nodup ↔ e.valueNames.Nodup ∧
      ∀ d ∈ e.valueNames, startsWithDigit d = true → digitPrefix ++ d ∉ e.valueNames := by
  rw [valueNames_prefixed, ← prefixDigits_injOn_iff hne hfree]
  constructor
  · intro h
    have hbefore : e.valueNames.Nodup := h.of_map
    exact ⟨hbefore, (List.nodup_map_iff_inj_on hbefore).mp h⟩
  · intro h
    exact (List.nodup_map_iff_inj_on h.1).mpr h.2

theorem nodup_valueNames_completeZero_iff {zeroName : String} {e : Enum} :
    (e.completeZero zeroName).valueNames.Nodup ↔
      e.valueNames.Nodup ∧ (e.hasZero = false → zeroName ∉ e.valueNames) := by
  unfold completeZero
  split
  · rename_i h
    exact (and_iff_left fun hzero => absurd h (ne_true_of_eq_false hzero)).symm
  · rename_i h
    have hzero : e.hasZero = false := eq_false_of_ne_true h
    show (zeroName :: e.valueNames).Nodup ↔ _
    rw [List.nodup_cons, and_comm, forall_prop_of_true hzero]

end Enum

/-! ## A whole file -/

/-- In every enum of the file, at every depth, the names of the values are pairwise distinct. -/
def File.DistinctValueNames (f : File) : Prop :=
  ∀ e ∈ f.allEnums, e.valueNames.Nodup

instance : DecidablePred File.DistinctValueNames := fun f =>
  inferInstanceAs (Decidable (∀ e ∈ f.allEnums, e.valueNames.Nodup))

theorem File.distinctValueNames_prefixDigits_iff {digitPrefix : String} (hne : digitPrefix ≠ "")
    (hfree : startsWithDigit digitPrefix = false) {f : File} :
    (f.prefixDigits digitPrefix).file.DistinctValueNames ↔ f.DistinctValueNames ∧
      ∀ e ∈ f.allEnums, ∀ d ∈ e.valueNames, startsWithDigit d = true →
        digitPrefix ++ d ∉ e.valueNames := by
  unfold DistinctValueNames
  rw [prefixDigits_file, forall_allEnums_mapEnums_iff]
  simp only [Enum.nodup_valueNames_prefixed_iff hne hfree, forall_and]

theorem File.distinctValueNames_completeZero_iff {zeroName : String} {f : File} :
    (f.completeZero zeroName).file.DistinctValueNames ↔ f.DistinctValueNames ∧
      ∀ e ∈ f.allEnums, e.hasZero = false → zeroName ∉ e.valueNames := by
  unfold DistinctValueNames
  rw [completeZero_file, forall_allEnums_mapEnums_iff]
  simp only [Enum.nodup_valueNames_completeZero_iff, forall_and]

/-- A renaming makes two names of an enum the same exactly when the enum has a name with a digit in
front and also the name that it gets; a completion, exactly when an enum without a value of index 0
has the name that is inserted. -/
theorem File.distinctValueNames_run_iff {options : Options} (hvalid : options.validate = .ok ())
    {f : File} (hdistinct : f.DistinctValueNames) :
    ((Pass.prefixDigits.run options f).file.DistinctValueNames ↔
        ¬ ∃ e ∈ f.allEnums, ∃ d ∈ e.valueNames, startsWithDigit d = true ∧
          options.digitPrefix ++ d ∈ e.valueNames) ∧
      ((Pass.completeZero.run options f).file.DistinctValueNames ↔
        ∀ e ∈ f.allEnums, e.hasZero = false → options.zeroName ∉ e.valueNames) := by
  obtain ⟨hne, hfree, -⟩ := options.validate_eq_ok_iff.mp hvalid
  constructor
  · show (f.prefixDigits options.digitPrefix).file.DistinctValueNames ↔ _
    rw [distinctValueNames_prefixDigits_iff hne hfree, and_iff_right hdistinct]
    simp only [not_exists, not_and]
  · show (f.completeZero options.zeroName).file.DistinctValueNames ↔ _
    rw [distinctValueNames_completeZero_iff, and_iff_right hdistinct]

/-- In `D`, nested in a message, `NUM_1` is there already when `1` gets this name, and also when it
is the name to insert.  In `E` the name to insert is there, but nothing is inserted. -/
theorem File.newNameTaken_distinctValueNames :
    let options : Options := {}
    let others : Options := { zeroName := "NUM_1", digitPrefix := "V" }
    let d : Enum := { name := "D", values := [⟨"1", 1⟩, ⟨"NUM_1", 2⟩] }
    let e : Enum := { name := "E", values := [⟨"A", 0⟩, ⟨"DEFAULT", 1⟩] }
    let f : File := { messages := [{ name := "M", enums := [d] }], enums := [e] }
    options.validate = .ok () ∧ others.validate = .ok () ∧ f.DistinctValueNames ∧
      ¬ (Pass.prefixDigits.run options f).file.DistinctValueNames ∧
      (Pass.completeZero.run options f).file.DistinctValueNames ∧
      (Pass.prefixDigits.run others f).file.DistinctValueNames ∧
      ¬ (Pass.completeZero.run others f).file.DistinctValueNames := by
  intro options others d e f
  have hvalid : options.validate = .ok () := by decide +kernel
  have hothers : others.validate = .ok () := by decide +kernel
  have hdistinct : f.DistinctValueNames := by decide +kernel
  obtain ⟨hrename, hzero⟩ := distinctValueNames_run_iff hvalid hdistinct
  obtain ⟨hrename', hzero'⟩ := distinctValueNames_run_iff hothers hdistinct
  refine ⟨hvalid, hothers, hdistinct, ?_, ?_, ?_, ?_⟩
  · rw [hrename]
    decide +kernel
  · rw [hzero]
    decide +kernel
  · rw [hrename']
    decide +kernel
  · rw [hzero']
    decide +kernel

end SchemaNormal
