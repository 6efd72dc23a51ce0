/-!
# When a chain of steps succeeds

A chain of steps that may fail answers exactly if each step does.
-/

namespace SchemaNormal

variable {ε α β : Type}

theorem ok_bind (x : α) (next : α → Except ε β) : (.ok x >>= next) = next x :=
  rfl

theorem bind_eq_ok_iff {r : Except ε α} {next : α → Except ε β} {y : β} :
    (r >>= next) = .ok y ↔ ∃ x, r = .ok x ∧ next x = .ok y := by
  cases r with
  | error failure => exact ⟨nofun, nofun⟩
  | ok x => exact ⟨fun h => ⟨x, rfl, h⟩, fun ⟨x', hx, h⟩ => by cases hx; exact h⟩

theorem map_eq_ok_iff {r : Except ε α} {f : α → β} {y : β} :
    r.map f = .ok y ↔ ∃ x, r = .ok x ∧ f x = y := by
  cases r with
  | error failure => simp [Except.map]
  | ok x => simp [Except.map]

theorem mapError_eq_ok_iff {ε' : Type} {r : Except ε α} {f : ε → ε'} {x : α} :
    r.mapError f = .ok x ↔ r = .ok x := by
  cases r with
  | error failure => exact ⟨nofun, nofun⟩
  | ok y =>
    show Except.ok y = Except.ok x ↔ _
    rw [Except.ok.injEq, Except.ok.injEq]

end SchemaNormal
