import SchemaNormal.Proofs.Format.Reading
import SchemaNormal.Proofs.Format.Texts
import SchemaNormal.Proofs.Format.Written

/-!
# One text for one definition

A text spells one value at most, and a value describes one definition at most.  So definitions are
told apart by their texts, however deep they nest: one that is too deep for a reader with 127
brackets is not too deep for every reader.
-/

namespace SchemaNormal

open Json

/-- Different values are written differently. -/
theorem Json.render_eq_iff {v w : Json} (layout : Layout) (hv : v.Proper) (hw : w.Proper) :
    render layout v = render layout w ↔ v = w := by
  constructor
  · intro h
    have hspelled : w.SpelledBy (render layout v) := by
      rw [h]
      exact spelledBy_render layout hw
    exact (spelledBy_render layout hv).unique hspelled
  · exact congrArg (render layout)

/-- A form that describes what it was made of belongs to nothing else, if readers with enough
brackets decide what is described. -/
theorem Json.injective_of_decides {α : Type} {toJson : α → Json} {read : Nat → Reader α}
    {Describes : α → Json → Prop} (h : ∀ levels, Decides levels (read levels) Describes)
    (hproper : ∀ x, (toJson x).Proper) (hdescribed : ∀ x, Describes x (toJson x)) :
    Function.Injective toJson := by
  intro x y hxy
  have hspelled : (toJson x).SpelledBy (toJson x).compact := spelledBy_render .compact (hproper x)
  have hy : Describes y (toJson x) := by
    rw [hxy]
    exact hdescribed y
  exact eq_of_described h hspelled (hdescribed x) hy

theorem Message.toJson_injective : Function.Injective Message.toJson :=
  injective_of_decides Message.read_decides Message.proper_toJson Message.described_toJson

theorem File.toJson_injective : Function.Injective File.toJson :=
  injective_of_decides File.read_decides File.proper_toJson File.described_toJson

/-- Two messages are the same definition exactly if their compact texts are equal, and so it is for
files.  This holds at every depth, also where neither text can be read again. -/
theorem compact_eq_iff_same :
    (∀ a b : Message, a.same b = true ↔ a.toJson.compact = b.toJson.compact) ∧
      ∀ f g : File, f = g ↔ f.toText = g.toText := by
  constructor
  · intro a b
    have hvalues := render_eq_iff .compact a.proper_toJson b.proper_toJson
    rw [Message.same_iff, ← Message.toJson_injective.eq_iff]
    exact hvalues.symm
  · intro f g
    have hvalues := render_eq_iff .compact f.proper_toJson g.proper_toJson
    rw [← File.toJson_injective.eq_iff]
    exact hvalues.symm

end SchemaNormal
