import SchemaNormal.Format.Options
import SchemaNormal.Proofs.Format.Reading
import SchemaNormal.Proofs.Format.Texts
import SchemaNormal.Proofs.Format.Written

/-!
# Options in texts

Options are a record in which every key may be absent and then has its default.  The reader of
options decides this format, and every text of options is read as the options themselves, accepted
or not.
-/

namespace SchemaNormal

open Json

/-! ## The format -/

def Pass.Described (pass : Pass) : Json → Prop :=
  IsName pass.name

namespace Options

def entries (options : Options) : List (Entry Json) :=
  let defaults : Options := {}
  [defaultEntry "passes" defaults.passes (IsListOf Pass.Described) options.passes,
    defaultEntry "zero-value-name" defaults.zeroName (fun s v => v = .string s) options.zeroName,
    defaultEntry "digit-prefix" defaults.digitPrefix (fun s v => v = .string s)
      options.digitPrefix]

def Described (options : Options) : Json → Prop :=
  IsRecord options.entries

end Options

/-! ## Reading -/

theorem Pass.name_injective : Function.Injective Pass.name := by
  intro pass pass' h
  cases pass <;> cases pass' <;> revert h <;> decide

theorem Pass.read_decides (levels : Nat) : Decides levels (Pass.read levels) Pass.Described := by
  have hall : ∀ pass, pass ∈ Pass.all := by
    intro pass
    cases pass <;> decide
  exact readName_map_decides levels hall name_injective

namespace Options

theorem nodup_names (levels : Nat) : ((shape levels).map (·.name)).Nodup := by
  show ["passes", "zero-value-name", "digit-prefix"].Nodup
  decide

/-- Options are read exactly from the values that describe them. -/
theorem read_decides (levels : Nat) : Decides levels (Options.read levels) Described := by
  have hshape : Decided (levels - 1) (shape (levels - 1)) _ :=
    .cons (defaultField_decides "passes" _ (readList_decides (Pass.read_decides _)))
      (.cons (defaultField_decides "zero-value-name" _ (readString_decides _ _))
        (.cons (defaultField_decides "digit-prefix" _ (readString_decides _ _)) .nil))
  refine Decides.map (readRecord_decides (nodup_names _) hshape) fun options => ?_
  exact ⟨(options.passes, options.zeroName, options.digitPrefix, ()), rfl⟩

/-! ## Writing -/

theorem described_toJson (options : Options) : options.Described options.toJson := by
  have hpasses : IsListOf Pass.Described options.passes (.ofList Pass.toJson options.passes) := by
    refine ⟨_, rfl, ?_⟩
    rw [List.forall₂_map_right_iff, List.forall₂_same]
    exact fun pass _ => Or.inl rfl
  simp only [Described, entries, IsRecord, toJson, InMembers, List.forall_mem_cons]
  exact ⟨hpasses, rfl, rfl, List.forall_mem_nil _⟩

theorem proper_toJson (options : Options) : options.toJson.Proper :=
  ⟨properItems_map fun _ _ => trivial, trivial, trivial, trivial⟩

/-- The brackets are that of the record and that of the list of passes. -/
theorem depth_toJson (options : Options) : options.toJson.depth = 2 := by
  have hpasses : depthItems (options.passes.map Pass.toJson) = 0 := by
    apply Nat.le_zero.mp
    rw [depthItems_map_le_iff]
    exact fun _ _ => Nat.le_refl 0
  show 1 + max (1 + depthItems (options.passes.map Pass.toJson)) _ = 2
  rw [hpasses]
  rfl

theorem depth_toJson_le (options : Options) : options.toJson.depth ≤ levels := by
  rw [depth_toJson]
  decide

/-- Options come back from their text in either layout, whether or not they are accepted. -/
theorem ofText_render_toJson (options : Options) (layout : Layout) :
    Options.ofText (options.toJson.render layout) = .ok options :=
  ofText_of_described (read_decides levels)
    (spelledBy_render layout options.proper_toJson) options.depth_toJson_le
    options.described_toJson

end Options

end SchemaNormal
