import Mathlib.Data.List.Perm.Basic
import SchemaNormal.Proofs.Enums.Idle
import SchemaNormal.Proofs.Normalize.Guarantees

/-!
# Runs of enum passes

A run of enum passes edits every enum in its place.  What it makes of an enum depends only on which
passes are in its list, as long as no inserted name starts with a digit: the two edits then commute,
and each makes its own repetition idle.
-/

namespace SchemaNormal

variable {options : Options}

namespace Enum

theorem prefixed_completeZero {zeroName : String} (h : startsWithDigit zeroName = false)
    (digitPrefix : String) (e : Enum) :
    (e.completeZero zeroName).prefixed digitPrefix =
      (e.prefixed digitPrefix).completeZero zeroName := by
  have hinserted : EnumValue.prefixed digitPrefix ⟨zeroName, 0⟩ = ⟨zeroName, 0⟩ := by
    unfold EnumValue.prefixed prefixDigits
    rw [if_neg (ne_true_of_eq_false h)]
  unfold completeZero
  rw [hasZero_prefixed]
  split
  · rfl
  · unfold prefixed
    rw [List.map_cons, hinserted]

end Enum

/-! ## One pass -/

namespace Pass

/-- What a pass makes of each enum in its place. -/
def edit (options : Options) : Pass → Enum → Enum
  | .liftMessages => id
  | .completeZero => Enum.completeZero options.zeroName
  | .prefixDigits => Enum.prefixed options.digitPrefix

/-- What a pass tells of each enum. -/
def tells (options : Options) (pass : Pass) (x : PlacedEnum) : List Change :=
  match pass with
  | .liftMessages => []
  | .completeZero => x.insertions options.zeroName
  | .prefixDigits => x.renamings options.digitPrefix

/-- The passes that work on enums alone. -/
def OnEnums (pass : Pass) : Prop :=
  pass = .completeZero ∨ pass = .prefixDigits

theorem OnEnums.run_file {pass : Pass} (h : pass.OnEnums) (options : Options) (f : File) :
    (pass.run options f).file = f.mapEnums (pass.edit options) := by
  obtain rfl | rfl := h
  · exact f.completeZero_file options.zeroName
  · exact f.prefixDigits_file options.digitPrefix

theorem OnEnums.run_changes {pass : Pass} (h : pass.OnEnums) (options : Options) (f : File) :
    (pass.run options f).changes = f.placedEnums.flatMap (pass.tells options) := by
  obtain rfl | rfl := h
  · exact f.completeZero_changes options.zeroName
  · exact f.prefixDigits_changes options.digitPrefix

end Pass

/-! ## A whole run -/

/-- What the enum passes among `passes` make of an enum, in whatever order. -/
def Options.editAll (options : Options) (passes : List Pass) (e : Enum) : Enum :=
  let completed := if .completeZero ∈ passes then e.completeZero options.zeroName else e
  if .prefixDigits ∈ passes then completed.prefixed options.digitPrefix else completed

/-- What the enum passes among `passes` tell of an enum, up to order. -/
def Options.tellAll (options : Options) (passes : List Pass) (x : PlacedEnum) : List Change :=
  (if .completeZero ∈ passes then x.insertions options.zeroName else []) ++
    (if .prefixDigits ∈ passes then x.renamings options.digitPrefix else [])

section Commuting

variable (hvalid : options.validate = .ok ()) (hzero : startsWithDigit options.zeroName = false)

include hvalid hzero

theorem Options.editAll_cons (pass : Pass) (passes : List Pass) (e : Enum) :
    options.editAll (pass :: passes) e = options.editAll passes (pass.edit options e) := by
  unfold editAll
  cases pass with
  | liftMessages => simp [Pass.edit]
  | completeZero =>
    have hagain := Enum.completeZero_of_hasZero (e.hasZero_completeZero options.zeroName)
      options.zeroName
    simp [Pass.edit, hagain]
  | prefixDigits =>
    -- the renaming in front goes behind the completion, where another one is idle after it
    have hagain := Enum.prefixed_of_digitFree
      (Enum.digitFree_prefixed hvalid (e.completeZero options.zeroName)) options.digitPrefix
    have hagain' := Enum.prefixed_of_digitFree (Enum.digitFree_prefixed hvalid e)
      options.digitPrefix
    by_cases hcomplete : .completeZero ∈ passes <;> by_cases hprefixed : .prefixDigits ∈ passes <;>
      simp [Pass.edit, hcomplete, hprefixed, ← Enum.prefixed_completeZero hzero, hagain, hagain']

theorem Options.tellAll_cons (pass : Pass) (passes : List Pass) (x : PlacedEnum) :
    (pass.tells options x ++ options.tellAll passes (x.map (pass.edit options))).Perm
      (options.tellAll (pass :: passes) x) := by
  unfold tellAll
  cases pass with
  | liftMessages => simp [Pass.tells, Pass.edit, PlacedEnum.map]
  | completeZero =>
    have hidle : (x.map (Enum.completeZero options.zeroName)).insertions options.zeroName = [] :=
      PlacedEnum.insertions_eq_nil_iff.mpr (x.enum.hasZero_completeZero _)
    simp [Pass.tells, Pass.edit, hidle, PlacedEnum.renamings_map_completeZero hzero]
  | prefixDigits =>
    have hidle : (x.map (Enum.prefixed options.digitPrefix)).renamings options.digitPrefix = [] :=
      PlacedEnum.renamings_eq_nil_iff.mpr (Enum.digitFree_prefixed hvalid x.enum)
    simp [Pass.tells, Pass.edit, hidle, PlacedEnum.insertions_map_prefixed, List.perm_append_comm]

theorem foldl_onEnums_file (passes : List Pass) (hpasses : ∀ pass ∈ passes, pass.OnEnums)
    (sofar : Outcome) :
    (passes.foldl (Outcome.next options) sofar).file =
      sofar.file.mapEnums (options.editAll passes) := by
  induction passes generalizing sofar with
  | nil => exact sofar.file.mapEnums_id.symm
  | cons pass passes ih =>
    obtain ⟨hpass, hrest⟩ := List.forall_mem_cons.mp hpasses
    have hedit : options.editAll passes ∘ pass.edit options = options.editAll (pass :: passes) :=
      funext fun e => (Options.editAll_cons hvalid hzero pass passes e).symm
    rw [List.foldl_cons, ih hrest]
    show (pass.run options sofar.file).file.mapEnums _ = _
    rw [hpass.run_file, File.mapEnums_mapEnums, hedit]

theorem foldl_onEnums_changes (passes : List Pass) (hpasses : ∀ pass ∈ passes, pass.OnEnums)
    (sofar : Outcome) :
    (passes.foldl (Outcome.next options) sofar).report.changes.Perm
      (sofar.report.changes ++ sofar.file.placedEnums.flatMap (options.tellAll passes)) := by
  induction passes generalizing sofar with
  | nil =>
    have hnone : sofar.file.placedEnums.flatMap (options.tellAll []) = [] :=
      List.flatMap_eq_nil_iff.mpr fun _ _ => rfl
    rw [hnone, List.append_nil]
    exact .refl _
  | cons pass passes ih =>
    obtain ⟨hpass, hrest⟩ := List.forall_mem_cons.mp hpasses
    rw [List.foldl_cons]
    apply (ih hrest _).trans
    show (sofar.report.changes ++ (pass.run options sofar.file).changes ++
      (pass.run options sofar.file).file.placedEnums.flatMap _).Perm _
    rw [hpass.run_changes, hpass.run_file, File.placedEnums_mapEnums, List.flatMap_map,
      List.append_assoc]
    apply List.Perm.append_left
    -- the two lists are joined enum by enum
    apply (List.flatMap_append_perm _ _ _).trans
    exact List.Perm.flatMap_left _ fun x _ => Options.tellAll_cons hvalid hzero pass passes x

end Commuting

theorem Options.editAll_congr {passes passes' : List Pass}
    (h : ∀ pass, pass ∈ passes ↔ pass ∈ passes') :
    options.editAll passes = options.editAll passes' := by
  funext e
  simp only [editAll, h]

theorem Options.tellAll_congr {passes passes' : List Pass}
    (h : ∀ pass, pass ∈ passes ↔ pass ∈ passes') :
    options.tellAll passes = options.tellAll passes' := by
  funext x
  simp only [tellAll, h]

/-! ## Runs with other lists of passes -/

/-- The list of passes says what runs.  What a pass does and whether options are accepted does not
hang on it. -/
theorem normalize_with_passes (hvalid : options.validate = .ok ()) (passes : List Pass) (f : File) :
    normalize f { options with passes } =
      .ok (passes.foldl (Outcome.next options) { file := f }) :=
  @normalize_of_valid { options with passes } hvalid f

/-- As long as no inserted name starts with a digit, two lists of enum passes with the same passes
in them give the same file and tell the same changes, up to order.  With any other accepted name
there is a file on which it matters which of the two passes comes first. -/
theorem normalize_onEnums (hvalid : options.validate = .ok ()) :
    (startsWithDigit options.zeroName = false → ∀ passes passes' : List Pass,
      (∀ pass ∈ passes, pass = .completeZero ∨ pass = .prefixDigits) →
      (∀ pass, pass ∈ passes ↔ pass ∈ passes') → ∀ f, ∃ outcome outcome',
        normalize f { options with passes } = .ok outcome ∧
        normalize f { options with passes := passes' } = .ok outcome' ∧
        outcome.file = outcome'.file ∧
        outcome.report.changes.Perm outcome'.report.changes) ∧
    (startsWithDigit options.zeroName = true → ∃ f outcome outcome',
      normalize f { options with passes := [.completeZero, .prefixDigits] } = .ok outcome ∧
      normalize f { options with passes := [.prefixDigits, .completeZero] } = .ok outcome' ∧
      outcome.file ≠ outcome'.file) := by
  constructor
  · intro hzero passes passes' hpasses hsame f
    have hpasses' : ∀ pass ∈ passes', pass.OnEnums := fun pass h =>
      hpasses pass ((hsame pass).mpr h)
    refine ⟨_, _, normalize_with_passes hvalid passes f, normalize_with_passes hvalid passes' f,
      ?_, ?_⟩
    · rw [foldl_onEnums_file hvalid hzero passes hpasses,
        foldl_onEnums_file hvalid hzero passes' hpasses', Options.editAll_congr hsame]
    · have hchanges := foldl_onEnums_changes hvalid hzero passes hpasses { file := f }
      rw [Options.tellAll_congr hsame] at hchanges
      exact hchanges.trans (foldl_onEnums_changes hvalid hzero passes' hpasses' _).symm
  · intro hzero
    refine ⟨needsZero, _, _, normalize_with_passes hvalid _ needsZero,
      normalize_with_passes hvalid _ needsZero, fun heq => ?_⟩
    -- the inserted name keeps its digit only if the renaming has come too early
    have hfree := (digitFree_foldl_iff hvalid [.completeZero, .prefixDigits]
      { file := needsZero }).mpr ⟨Or.inl (by decide), Or.inr (Or.inr (Or.inr (by decide)))⟩
    rw [heq, digitFree_foldl_iff hvalid, hzero] at hfree
    revert hfree
    decide

/-- A repeated pass and another order: the same file, and two reports of the same two changes.
Under a name with a digit in front the order matters to some file. -/
theorem needsBoth_onEnums :
    let options : Options := {}
    let digits : Options := { zeroName := "0Z" }
    let f : File := { enums := [{ name := "E", values := [⟨"1", 1⟩] }] }
    let passes : List Pass := [.completeZero, .prefixDigits]
    let passes' : List Pass := [.prefixDigits, .completeZero, .prefixDigits]
    options.validate = .ok () ∧ startsWithDigit options.zeroName = false ∧
      (∀ pass ∈ passes, pass = .completeZero ∨ pass = .prefixDigits) ∧
      (∀ pass, pass ∈ passes ↔ pass ∈ passes') ∧
      (∃ outcome outcome', normalize f { options with passes } = .ok outcome ∧
        normalize f { options with passes := passes' } = .ok outcome' ∧
        outcome.file = outcome'.file ∧ outcome.report.changes.Perm outcome'.report.changes) ∧
      normalize f { options with passes } ≠ normalize f { options with passes := passes' } ∧
      digits.validate = .ok () ∧ startsWithDigit digits.zeroName = true ∧
      ∃ f outcome outcome', normalize f { digits with passes } = .ok outcome ∧
        normalize f { digits with passes := passes.reverse } = .ok outcome' ∧
        outcome.file ≠ outcome'.file := by
  intro options digits f passes passes'
  have hvalid : options.validate = .ok () := by decide +kernel
  have hzero : startsWithDigit options.zeroName = false := by decide +kernel
  have hpasses : ∀ pass ∈ passes, pass = .completeZero ∨ pass = .prefixDigits := by decide
  have hsame : ∀ pass, pass ∈ passes ↔ pass ∈ passes' := by
    intro pass
    cases pass <;> decide
  have hvalid' : digits.validate = .ok () := by decide +kernel
  have hzero' : startsWithDigit digits.zeroName = true := by decide +kernel
  exact ⟨hvalid, hzero, hpasses, hsame,
    (normalize_onEnums hvalid).1 hzero passes passes' hpasses hsame f, by decide +kernel,
    hvalid', hzero', (normalize_onEnums hvalid').2 hzero'⟩

end SchemaNormal
