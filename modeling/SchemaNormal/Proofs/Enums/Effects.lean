import SchemaNormal.Proofs.Enums.Idle

/-!
# The effect of one enum pass

What a run of an enum pass makes of a file and what it tells, said without the visit.  The file is
the given one with every enum edited in its place.  The changes follow the enums in the order of a
visit: those of the file first, then message by message its own before those of the messages inside
it.
-/

namespace SchemaNormal

theorem Enum.hasZero_iff {e : Enum} : e.hasZero = true ↔ ∃ v ∈ e.values, v.index = 0 := by
  unfold hasZero
  rw [List.any_eq_true]
  simp only [decide_eq_true_eq]

/-- One insertion for each enum without a value of index 0. -/
theorem PlacedEnum.flatMap_insertions (zeroName : String) (xs : List PlacedEnum) :
    xs.flatMap (insertions zeroName) =
      (xs.filter fun x => ∀ v ∈ x.enum.values, v.index ≠ 0).map
        fun x => .zeroInserted x.path zeroName := by
  induction xs with
  | nil => rfl
  | cons x xs ih =>
    rw [List.flatMap_cons, ih, insertions]
    by_cases h : ∃ v ∈ x.enum.values, v.index = 0
    · have hall : ¬ ∀ v ∈ x.enum.values, v.index ≠ 0 := by
        simpa only [ne_eq, not_forall, not_not, exists_prop] using h
      rw [if_pos (Enum.hasZero_iff.mpr h), List.filter_cons_of_neg (by simpa using hall)]
      rfl
    · have hall : ∀ v ∈ x.enum.values, v.index ≠ 0 := fun v hv hzero => h ⟨v, hv, hzero⟩
      rw [if_neg (mt Enum.hasZero_iff.mp h), List.filter_cons_of_pos (by simpa using hall)]
      rfl

/-- Completing puts one value in front of the values of each enum that has none of index 0, at every
depth, and tells of these enums.  All else stays as it is.  A second run finds nothing to do. -/
theorem Pass.run_completeZero (options : Options) (f : File) :
    let result := Pass.completeZero.run options f
    (result.file = f.mapEnums fun e =>
        if ∃ v ∈ e.values, v.index = 0 then e
        else { e with values := ⟨options.zeroName, 0⟩ :: e.values }) ∧
      (result.changes =
        (f.placedEnums.filter fun x => ∀ v ∈ x.enum.values, v.index ≠ 0).map
          fun x => .zeroInserted x.path options.zeroName) ∧
      Pass.completeZero.IdleOn options result.file := by
  intro result
  have hedit : Enum.completeZero options.zeroName = fun e =>
      if ∃ v ∈ e.values, v.index = 0 then e
      else { e with values := ⟨options.zeroName, 0⟩ :: e.values } := by
    funext e
    exact if_congr Enum.hasZero_iff rfl rfl
  have hcomplete : result.file.Complete := f.complete_completeZero options.zeroName
  rw [← hedit, ← PlacedEnum.flatMap_insertions]
  exact ⟨f.completeZero_file options.zeroName, f.completeZero_changes options.zeroName,
    completeZero_idleOn_iff.mpr hcomplete⟩

/-- Renaming puts the prefix in front of each name of an enum value, at every depth, whose first
character is one of the ten ASCII digits, and tells of these values.  All else stays as it is. -/
theorem Pass.run_prefixDigits (options : Options) (f : File) :
    let result := Pass.prefixDigits.run options f
    (result.file = f.mapEnums fun e =>
        { e with
          values := e.values.map fun v =>
            if startsWithDigit v.name then { v with name := options.digitPrefix ++ v.name }
            else v }) ∧
      (result.changes = f.placedEnums.flatMap fun x =>
        (x.enum.values.filter (startsWithDigit ·.name)).map fun v =>
          .valueRenamed x.path v.name (options.digitPrefix ++ v.name)) ∧
      ∀ name, startsWithDigit name = true ↔
        ∃ c rest, name.toList = c :: rest ∧ '0' ≤ c ∧ c ≤ '9' := by
  intro result
  have hedit : EnumValue.prefixed options.digitPrefix = fun v =>
      if startsWithDigit v.name then { v with name := options.digitPrefix ++ v.name } else v := by
    funext v
    unfold EnumValue.prefixed SchemaNormal.prefixDigits
    split <;> rfl
  rw [← hedit]
  exact ⟨f.prefixDigits_file options.digitPrefix, f.prefixDigits_changes options.digitPrefix,
    fun _ => startsWithDigit_iff⟩

/-- A name without characters and one that starts with an Arabic-Indic digit stay. -/
example :
    let f : File := { enums := [{ name := "E", values := [⟨"", 1⟩, ⟨"١", 2⟩, ⟨"1", 3⟩] }] }
    (f.prefixDigits "NUM_").file.enums =
        [{ name := "E", values := [⟨"", 1⟩, ⟨"١", 2⟩, ⟨"NUM_1", 3⟩] }] ∧
      (f.prefixDigits "NUM_").changes = [.valueRenamed "E" "1" "NUM_1"] := by
  decide +kernel

end SchemaNormal
