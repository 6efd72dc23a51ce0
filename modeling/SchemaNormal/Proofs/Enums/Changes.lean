import SchemaNormal.Proofs.Enums.Passes
import SchemaNormal.Proofs.Enums.Placed

/-!
# What the enum passes tell

The changes of an enum pass are those at each enum, in the order of the enums.  A pass tells nothing
of an enum exactly if the enum has what the pass is for, and what it tells does not depend on
whether the other one has run, as long as no inserted name starts with a digit.
-/

namespace SchemaNormal

theorem Enum.completeZero_name (zeroName : String) (e : Enum) :
    (e.completeZero zeroName).name = e.name := by
  unfold completeZero
  split <;> rfl

theorem Enum.prefixed_name (digitPrefix : String) (e : Enum) :
    (e.prefixed digitPrefix).name = e.name :=
  rfl

/-! ## Changes at one enum -/

namespace PlacedEnum

/-- What completing tells of an enum. -/
def insertions (zeroName : String) (x : PlacedEnum) : List Change :=
  if x.enum.hasZero then [] else [.zeroInserted x.path zeroName]

/-- What renaming tells of an enum. -/
def renamings (digitPrefix : String) (x : PlacedEnum) : List Change :=
  (x.enum.values.filter (startsWithDigit ·.name)).map fun v =>
    .valueRenamed x.path v.name (digitPrefix ++ v.name)

theorem insertions_eq_nil_iff {x : PlacedEnum} {zeroName : String} :
    x.insertions zeroName = [] ↔ x.enum.hasZero = true := by
  unfold insertions
  split
  · rename_i h
    exact iff_of_true rfl h
  · rename_i h
    exact iff_of_false (List.cons_ne_nil _ _) h

theorem insertions_map_prefixed (digitPrefix zeroName : String) (x : PlacedEnum) :
    (x.map (Enum.prefixed digitPrefix)).insertions zeroName = x.insertions zeroName := by
  unfold insertions
  rw [path_map (Enum.prefixed_name digitPrefix)]
  show (if (x.enum.prefixed digitPrefix).hasZero then _ else _) = _
  rw [Enum.hasZero_prefixed]

theorem renamings_eq_nil_iff {x : PlacedEnum} {digitPrefix : String} :
    x.renamings digitPrefix = [] ↔ x.enum.DigitFree := by
  unfold renamings Enum.DigitFree
  rw [List.map_eq_nil_iff, List.filter_eq_nil_iff]
  simp only [Bool.not_eq_true]

theorem renamings_map_completeZero {zeroName : String} (h : startsWithDigit zeroName = false)
    (digitPrefix : String) (x : PlacedEnum) :
    (x.map (Enum.completeZero zeroName)).renamings digitPrefix = x.renamings digitPrefix := by
  -- the inserted value is passed over
  have hvalues : ((x.enum.completeZero zeroName).values.filter (startsWithDigit ·.name)) =
      x.enum.values.filter (startsWithDigit ·.name) := by
    unfold Enum.completeZero
    split
    · rfl
    · exact List.filter_cons_of_neg (by rw [h]; exact Bool.false_ne_true)
  unfold renamings
  rw [path_map (Enum.completeZero_name zeroName), ← hvalues]
  rfl

end PlacedEnum

/-! ## Changes of a pass -/

/-- A visitor that tells a list at each enum tells these lists one after the other. -/
theorem changes_foldl_step {visit : EnumVisitor Trail} {told : PlacedEnum → List Change}
    (h : ∀ trail x, (PlacedEnum.step visit trail x).changes = trail.changes ++ told x)
    (xs : List PlacedEnum) (trail : Trail) :
    (xs.foldl (PlacedEnum.step visit) trail).changes = trail.changes ++ xs.flatMap told := by
  induction xs generalizing trail with
  | nil => rw [List.foldl_nil, List.flatMap_nil, List.append_nil]
  | cons x xs ih => rw [List.foldl_cons, ih, h, List.flatMap_cons, List.append_assoc]

theorem EnumValue.changes_prefixAll (digitPrefix path : String) (vs : List EnumValue)
    (trail : Trail) :
    (EnumValue.prefixAll digitPrefix path vs trail).1.changes = trail.changes ++
      (vs.filter (startsWithDigit ·.name)).map fun v =>
        .valueRenamed path v.name (digitPrefix ++ v.name) := by
  induction vs generalizing trail with
  | nil => exact (List.append_nil _).symm
  | cons v vs ih =>
    rw [EnumValue.prefixAll]
    show (EnumValue.prefixAll digitPrefix path vs _).1.changes = _
    rw [ih, List.filter_cons, prefixDigits]
    split
    · simp only [Trail.record, List.append_assoc, List.singleton_append, List.map_cons]
    · rfl

namespace File

theorem completeZero_changes (f : File) (zeroName : String) :
    (f.completeZero zeroName).changes =
      f.placedEnums.flatMap (PlacedEnum.insertions zeroName) := by
  have hstep : ∀ trail x, (PlacedEnum.step (completeZeroAt zeroName) trail x).changes =
      trail.changes ++ x.insertions zeroName := by
    intro trail x
    unfold PlacedEnum.step completeZeroAt PlacedEnum.insertions
    split
    · exact (List.append_nil _).symm
    · rfl
  show (f.visitEnums (completeZeroAt zeroName) {}).1.changes = _
  rw [visitEnums_fst, changes_foldl_step hstep, List.nil_append]

theorem prefixDigits_changes (f : File) (digitPrefix : String) :
    (f.prefixDigits digitPrefix).changes =
      f.placedEnums.flatMap (PlacedEnum.renamings digitPrefix) := by
  have hstep : ∀ trail x, (PlacedEnum.step (prefixDigitsAt digitPrefix) trail x).changes =
      trail.changes ++ x.renamings digitPrefix := fun trail x =>
    EnumValue.changes_prefixAll digitPrefix x.path x.enum.values trail
  show (f.visitEnums (prefixDigitsAt digitPrefix) {}).1.changes = _
  rw [visitEnums_fst, changes_foldl_step hstep, List.nil_append]

/-! ## Which changes there are -/

theorem mem_completeZero_changes {f : File} {zeroName : String} {c : Change} :
    c ∈ (f.completeZero zeroName).changes ↔
      ∃ x ∈ f.placedEnums, x.enum.hasZero = false ∧ c = .zeroInserted x.path zeroName := by
  rw [completeZero_changes, List.mem_flatMap]
  apply exists_congr
  intro x
  apply and_congr_right
  intro _
  unfold PlacedEnum.insertions
  split
  · rename_i h
    simp [h]
  · rename_i h
    simp [h]

theorem mem_prefixDigits_changes {f : File} {digitPrefix : String} {c : Change} :
    c ∈ (f.prefixDigits digitPrefix).changes ↔
      ∃ x ∈ f.placedEnums, ∃ v ∈ x.enum.values, startsWithDigit v.name = true ∧
        c = .valueRenamed x.path v.name (digitPrefix ++ v.name) := by
  rw [prefixDigits_changes, List.mem_flatMap]
  simp only [PlacedEnum.renamings, List.mem_map, List.mem_filter, and_assoc, eq_comm (a := c)]

end File

end SchemaNormal
