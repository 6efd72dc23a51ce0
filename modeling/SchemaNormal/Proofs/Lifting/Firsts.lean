import Mathlib.Data.List.Infix
import SchemaNormal.Change
import SchemaNormal.Proofs.Schema.Nested

/-!
# The first of each name

Of a list of nested messages, those whose name is new: neither given nor the name of an earlier
message of the list.
-/

namespace SchemaNormal

/-- The elements of a list, each with those before it. -/
def withEarlier {α : Type} (xs : List α) : List (List α × α) :=
  xs.inits.zip xs

theorem withEarlier_cons {α : Type} (x : α) (xs : List α) :
    withEarlier (x :: xs) = ([], x) :: (withEarlier xs).map fun p => (x :: p.1, p.2) := by
  unfold withEarlier
  rw [List.inits_cons, List.zip_cons_cons, List.zip_map_left]
  rfl

theorem map_snd_withEarlier {α : Type} (xs : List α) : (withEarlier xs).map (·.2) = xs := by
  have hlength : xs.length ≤ xs.inits.length := by
    rw [List.length_inits]
    omega
  unfold withEarlier
  exact List.map_snd_zip hlength

theorem snd_mem_of_mem_withEarlier {α : Type} {xs : List α} {p : List α × α}
    (h : p ∈ withEarlier xs) : p.2 ∈ xs := by
  rw [← map_snd_withEarlier xs]
  exact List.mem_map_of_mem h

namespace Nested

/-- The name of a message is new: not one of the given names, nor that of an earlier message. -/
def Fresh (names : List String) (earlier : List Nested) (x : Nested) : Prop :=
  x.name ∉ names ∧ x.name ∉ earlier.map name

instance (names : List String) (earlier : List Nested) (x : Nested) :
    Decidable (Fresh names earlier x) :=
  inferInstanceAs (Decidable (_ ∧ _))

/-- The messages whose names are new. -/
def firsts (names : List String) (xs : List Nested) : List Nested :=
  ((withEarlier xs).filter fun p => Fresh names p.1 p.2).map (·.2)

/-- What is written down about a message taken out of its place. -/
def change (names : List String) (earlier : List Nested) (x : Nested) : Change :=
  if Fresh names earlier x then .messageLifted x.path x.name else .duplicateDropped x.path x.name

theorem fresh_nil (names : List String) (x : Nested) : Fresh names [] x ↔ x.name ∉ names := by
  unfold Fresh
  rw [List.map_nil]
  exact and_iff_left List.not_mem_nil

/-- The name of the earliest message counts as given to those after it. -/
theorem fresh_cons (names : List String) (earlier : List Nested) (x y : Nested) :
    Fresh names (x :: earlier) y ↔ Fresh (x.name :: names) earlier y := by
  simp only [Fresh, List.map_cons, List.mem_cons]
  tauto

theorem fresh_congr {names names' : List String} {x : Nested} (h : x.name ∈ names ↔ x.name ∈ names')
    (earlier : List Nested) : Fresh names earlier x ↔ Fresh names' earlier x :=
  and_congr_left' (not_congr h)

theorem firsts_cons (names : List String) (x : Nested) (xs : List Nested) :
    firsts names (x :: xs) =
      if x.name ∈ names then firsts (x.name :: names) xs
      else x :: firsts (x.name :: names) xs := by
  simp only [firsts, withEarlier_cons, List.filter_cons, List.filter_map, Function.comp_def,
    fresh_cons, fresh_nil]
  -- new or not, the name of `x` counts as given to those after it
  by_cases h : x.name ∈ names
  · rw [if_pos h, if_neg (by simpa using h), List.map_map]
    rfl
  · rw [if_neg h, if_pos (by simpa using h), List.map_cons, List.map_map]
    rfl

theorem changes_cons (names : List String) (x : Nested) (xs : List Nested) :
    ((withEarlier (x :: xs)).map fun p => change names p.1 p.2) =
      (if x.name ∈ names then .duplicateDropped x.path x.name
        else .messageLifted x.path x.name) ::
      (withEarlier xs).map fun p => change (x.name :: names) p.1 p.2 := by
  simp only [withEarlier_cons, List.map_cons, List.map_map, Function.comp_def, change, fresh_cons,
    fresh_nil]
  by_cases h : x.name ∈ names
  · rw [if_pos h, if_neg (not_not.mpr h)]
  · rw [if_neg h, if_pos h]

theorem firsts_congr {names names' : List String} {xs : List Nested}
    (h : ∀ x ∈ xs, x.name ∈ names ↔ x.name ∈ names') : firsts names xs = firsts names' xs := by
  have hfresh : ∀ p ∈ withEarlier xs,
      decide (Fresh names p.1 p.2) = decide (Fresh names' p.1 p.2) := by
    intro p hp
    have hmem : p.2 ∈ xs := snd_mem_of_mem_withEarlier hp
    exact decide_eq_decide.mpr (fresh_congr (h p.2 hmem) p.1)
  unfold firsts
  rw [List.filter_congr hfresh]

theorem changes_congr {names names' : List String} {xs : List Nested}
    (h : ∀ x ∈ xs, x.name ∈ names ↔ x.name ∈ names') :
    ((withEarlier xs).map fun p => change names p.1 p.2) =
      (withEarlier xs).map fun p => change names' p.1 p.2 := by
  apply List.map_congr_left
  intro p hp
  have hmem : p.2 ∈ xs := snd_mem_of_mem_withEarlier hp
  unfold change
  simp only [fresh_congr (h p.2 hmem) p.1]

section Map

variable {φ : Nested → Nested} (hname : ∀ x, (φ x).name = x.name)

include hname

/-- What keeps the names of messages keeps which of them are the first. -/
theorem firsts_map (names : List String) (xs : List Nested) :
    firsts names (xs.map φ) = (firsts names xs).map φ := by
  induction xs generalizing names with
  | nil => rfl
  | cons x xs ih =>
    rw [List.map_cons, firsts_cons, firsts_cons, hname, ih]
    split
    · rfl
    · rw [List.map_cons]

theorem changes_map (hpath : ∀ x, (φ x).path = x.path) (names : List String) (xs : List Nested) :
    ((withEarlier (xs.map φ)).map fun p => change names p.1 p.2) =
      (withEarlier xs).map fun p => change names p.1 p.2 := by
  induction xs generalizing names with
  | nil => rfl
  | cons x xs ih => rw [List.map_cons, changes_cons, changes_cons, hname, hpath, ih]

end Map

theorem firsts_sublist (names : List String) (xs : List Nested) :
    (firsts names xs).Sublist xs := by
  have h := (List.filter_sublist (l := withEarlier xs)
    (p := fun p => decide (Fresh names p.1 p.2))).map (·.2)
  rwa [map_snd_withEarlier] at h

theorem name_notMem_of_mem_firsts {names : List String} {xs : List Nested} {x : Nested}
    (h : x ∈ firsts names xs) : x.name ∉ names := by
  obtain ⟨p, hp, rfl⟩ := List.mem_map.mp h
  obtain ⟨-, hfresh⟩ := List.mem_filter.mp hp
  exact (of_decide_eq_true hfresh).1

theorem nodup_names_firsts (names : List String) (xs : List Nested) :
    ((firsts names xs).map name).Nodup := by
  induction xs generalizing names with
  | nil => exact List.nodup_nil
  | cons x xs ih =>
    rw [firsts_cons]
    split
    · exact ih (x.name :: names)
    · -- the name of `x` is given to those after it, so none of them has it
      have hx : x.name ∉ (firsts (x.name :: names) xs).map name := by
        intro hmem
        obtain ⟨y, hy, hname⟩ := List.mem_map.mp hmem
        have hgiven : y.name ∈ x.name :: names := hname ▸ List.mem_cons_self
        exact name_notMem_of_mem_firsts hy hgiven
      rw [List.map_cons, List.nodup_cons]
      exact ⟨hx, ih (x.name :: names)⟩

/-- Each name of the list is given or has its first message. -/
theorem exists_first {names : List String} {xs : List Nested} {x : Nested} (hx : x ∈ xs)
    (hname : x.name ∉ names) : ∃ y ∈ firsts names xs, y.name = x.name := by
  induction xs generalizing names with
  | nil => exact absurd hx List.not_mem_nil
  | cons y xs ih =>
    rw [firsts_cons]
    by_cases hy : x.name = y.name
    · -- no message before `y` can have the name
      rw [if_neg (hy ▸ hname)]
      exact ⟨y, List.mem_cons_self, hy.symm⟩
    · have hmem : x ∈ xs := (List.mem_cons.mp hx).resolve_left fun h => hy (h ▸ rfl)
      have hnew : x.name ∉ y.name :: names := by
        rw [List.mem_cons, not_or]
        exact ⟨hy, hname⟩
      obtain ⟨z, hz, hzname⟩ := ih hmem hnew
      refine ⟨z, ?_, hzname⟩
      split
      · exact hz
      · exact List.mem_cons_of_mem y hz

end Nested

end SchemaNormal
