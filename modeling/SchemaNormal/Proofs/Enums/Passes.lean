import SchemaNormal.Pass.ZeroValue
import SchemaNormal.Proofs.Enums.Edit
import SchemaNormal.Proofs.Options

/-!
# The enum passes

Both enum passes edit every enum of the file in its place.  One makes each enum have a value of
index 0, the other makes the names of its values free of leading digits.
-/

namespace SchemaNormal

/-- The value with the prefix in front of its name, if the name starts with a digit. -/
def EnumValue.prefixed (digitPrefix : String) (v : EnumValue) : EnumValue :=
  { v with name := prefixDigits digitPrefix v.name }

namespace Enum

def prefixed (digitPrefix : String) (e : Enum) : Enum :=
  { e with values := e.values.map (·.prefixed digitPrefix) }

/-- No value of the enum has a name that starts with a digit. -/
def DigitFree (e : Enum) : Prop :=
  ∀ v ∈ e.values, startsWithDigit v.name = false

instance : DecidablePred DigitFree := fun e =>
  inferInstanceAs (Decidable (∀ v ∈ e.values, startsWithDigit v.name = false))

theorem completeZero_of_hasZero {e : Enum} (h : e.hasZero = true) (name : String) :
    e.completeZero name = e := by
  unfold completeZero
  rw [if_pos h]

theorem hasZero_completeZero (name : String) (e : Enum) : (e.completeZero name).hasZero = true := by
  unfold completeZero
  split
  · assumption
  · unfold hasZero
    rw [List.any_cons]
    rfl

theorem hasZero_prefixed (digitPrefix : String) (e : Enum) :
    (e.prefixed digitPrefix).hasZero = e.hasZero := by
  unfold hasZero prefixed
  rw [List.any_map]
  rfl

/-- The inserted value is the only one that can bring a leading digit. -/
theorem digitFree_completeZero_iff (name : String) (e : Enum) :
    (e.completeZero name).DigitFree ↔
      e.DigitFree ∧ (startsWithDigit name = false ∨ e.hasZero = true) := by
  unfold completeZero
  split
  · rename_i h
    exact (and_iff_left (Or.inr h)).symm
  · rename_i h
    rw [or_iff_left h, and_comm]
    exact List.forall_mem_cons

theorem digitFree_prefixed_iff {digitPrefix : String} {e : Enum} :
    (e.prefixed digitPrefix).DigitFree ↔
      e.DigitFree ∨ digitPrefix ≠ "" ∧ startsWithDigit digitPrefix = false := by
  unfold DigitFree prefixed
  rw [List.forall_mem_map]
  simp only [EnumValue.prefixed, startsWithDigit_prefixDigits_iff, forall_or_right]

theorem digitFree_prefixed {options : Options} (hvalid : options.validate = .ok ()) (e : Enum) :
    (e.prefixed options.digitPrefix).DigitFree := by
  obtain ⟨hne, hdigit, -⟩ := options.validate_eq_ok_iff.mp hvalid
  exact digitFree_prefixed_iff.mpr (Or.inr ⟨hne, hdigit⟩)

end Enum

theorem EnumValue.prefixAll_snd (digitPrefix path : String) (vs : List EnumValue) (trail : Trail) :
    (EnumValue.prefixAll digitPrefix path vs trail).2 = vs.map (·.prefixed digitPrefix) := by
  induction vs generalizing trail with
  | nil => rfl
  | cons v vs ih =>
    rw [EnumValue.prefixAll, List.map_cons]
    exact congrArg (v.prefixed digitPrefix :: ·) (ih _)

theorem completeZeroAt_snd (zeroName : String) (trail : Trail) (e : Enum) (path : String) :
    (completeZeroAt zeroName trail e path).2 = e.completeZero zeroName := by
  unfold completeZeroAt
  split
  · rename_i h
    exact (Enum.completeZero_of_hasZero h zeroName).symm
  · rfl

theorem prefixDigitsAt_snd (digitPrefix : String) (trail : Trail) (e : Enum) (path : String) :
    (prefixDigitsAt digitPrefix trail e path).2 = e.prefixed digitPrefix := by
  unfold prefixDigitsAt Enum.prefixed
  rw [← EnumValue.prefixAll_snd digitPrefix path e.values trail]

namespace File

theorem completeZero_file (f : File) (zeroName : String) :
    (f.completeZero zeroName).file = f.mapEnums (Enum.completeZero zeroName) :=
  visitEnums_snd (completeZeroAt_snd zeroName) f _

theorem prefixDigits_file (f : File) (digitPrefix : String) :
    (f.prefixDigits digitPrefix).file = f.mapEnums (Enum.prefixed digitPrefix) :=
  visitEnums_snd (prefixDigitsAt_snd digitPrefix) f _

/-! ## What the passes guarantee -/

/-- Every enum of the file, at every depth, has a value of index 0. -/
def Complete (f : File) : Prop :=
  ∀ e ∈ f.allEnums, e.hasZero = true

/-- No enum of the file, at any depth, has a value whose name starts with a digit. -/
def DigitFree (f : File) : Prop :=
  ∀ e ∈ f.allEnums, e.DigitFree

instance : DecidablePred Complete := fun f =>
  inferInstanceAs (Decidable (∀ e ∈ f.allEnums, e.hasZero = true))

instance : DecidablePred DigitFree := fun f =>
  inferInstanceAs (Decidable (∀ e ∈ f.allEnums, e.DigitFree))

theorem complete_completeZero (f : File) (zeroName : String) :
    (f.completeZero zeroName).file.Complete := by
  unfold Complete
  rw [completeZero_file, forall_allEnums_mapEnums_iff]
  intro e _
  exact Enum.hasZero_completeZero zeroName e

theorem complete_prefixDigits_iff (f : File) (digitPrefix : String) :
    (f.prefixDigits digitPrefix).file.Complete ↔ f.Complete := by
  unfold Complete
  rw [prefixDigits_file, forall_allEnums_mapEnums_iff]
  simp only [Enum.hasZero_prefixed]

theorem digitFree_completeZero_iff (f : File) (zeroName : String) :
    (f.completeZero zeroName).file.DigitFree ↔
      f.DigitFree ∧ (startsWithDigit zeroName = false ∨ f.Complete) := by
  unfold DigitFree Complete
  rw [completeZero_file, forall_allEnums_mapEnums_iff]
  simp only [Enum.digitFree_completeZero_iff, forall_and, forall_or_left]

theorem digitFree_prefixDigits_iff (f : File) (digitPrefix : String) :
    (f.prefixDigits digitPrefix).file.DigitFree ↔
      f.DigitFree ∨ digitPrefix ≠ "" ∧ startsWithDigit digitPrefix = false := by
  unfold DigitFree
  rw [prefixDigits_file, forall_allEnums_mapEnums_iff]
  simp only [Enum.digitFree_prefixed_iff, forall_or_right]

end File

end SchemaNormal
