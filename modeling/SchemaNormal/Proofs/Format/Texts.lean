import SchemaNormal.Format.Text
import SchemaNormal.Proofs.Json.Reading
import SchemaNormal.Proofs.Json.Scan.Values

/-!
# From readers to texts

A reader works on the root of a text.  When it decides what its values describe, a text that spells
a value is read as what the value describes.
-/

namespace SchemaNormal

open Json

variable {α : Type} {read : Nat → Reader α} {Describes : α → Json → Prop} {text : String}
  {v : Json} {x y : α}

/-- A text is read if its root is and nothing stands after the root. -/
theorem ofText_eq_ok_iff : ofText read text = .ok x ↔
    read levels (Document.ofText text).root = .ok x ∧ (Document.ofText text).extra = none := by
  unfold ofText readText
  dsimp only
  cases read levels (Document.ofText text).root with
  | error fault => exact ⟨nofun, fun h => nomatch h.1⟩
  | ok y =>
    cases (Document.ofText text).extra with
    | none =>
      show Except.ok y = Except.ok x ↔ _
      rw [and_iff_left rfl, Except.ok.injEq, Except.ok.injEq]
    | some offset => exact ⟨nofun, fun h => nomatch h.2⟩

/-- A text that cannot be read has a message that says why. -/
theorem unreadable_of_ofText_ne_ok (h : ∀ x, ofText read text ≠ .ok x) :
    ∃ message, ofText read text = .error (.unreadable message) := by
  unfold ofText at h ⊢
  cases hread : readText (read levels) text with
  | error fault => exact ⟨fault.message text, rfl⟩
  | ok x =>
    rw [hread] at h
    exact absurd rfl (h x)

/-- What is read from a spelling of a value is what the value describes. -/
theorem described_of_ofText (h : Decides levels (read levels) Describes)
    (hspelled : v.SpelledBy text) (hx : ofText read text = .ok x) : Describes x v := by
  obtain ⟨node, hnode, hdocument⟩ := Document.ofText_of_spelledBy hspelled
  obtain ⟨hread, -⟩ := ofText_eq_ok_iff.mp hx
  rw [hdocument] at hread
  exact h.sound hnode hread

theorem ofText_of_described (h : Decides levels (read levels) Describes)
    (hspelled : v.SpelledBy text) (hdepth : v.depth ≤ levels) (hx : Describes x v) :
    ofText read text = .ok x := by
  obtain ⟨node, hnode, hdocument⟩ := Document.ofText_of_spelledBy hspelled
  rw [ofText_eq_ok_iff, hdocument]
  exact ⟨h.complete hnode hdepth hx, rfl⟩

/-- A value that has a spelling describes one thing at most. -/
theorem eq_of_described (h : ∀ levels, Decides levels (read levels) Describes)
    (hspelled : v.SpelledBy text) (hx : Describes x v) (hy : Describes y v) : x = y := by
  obtain ⟨node, hnode, -⟩ := Document.ofText_of_spelledBy hspelled
  -- a reader with as many levels as the value is deep reads both from one node
  have hreadx := (h v.depth).complete hnode (Nat.le_refl _) hx
  have hready := (h v.depth).complete hnode (Nat.le_refl _) hy
  exact Except.ok.inj (hreadx.symm.trans hready)

end SchemaNormal
