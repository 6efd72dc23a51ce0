import SchemaNormal.Json.Kind
import SchemaNormal.Proofs.Json.Slots

/-!
# Values of any kind

Where a value is read whatever it is, only its kind is found, and the value of a scalar.  What keeps
a whole value from being read is then its depth, or a number that is out of range.
-/

namespace SchemaNormal.Json

/-- This is what is found of the value.  Every number in it has to have a value. -/
inductive IsFound : Found → Json → Prop where
  | null : IsFound .null .null
  | bool (b : Bool) : IsFound (.bool b) (.bool b)
  | number {n : Numeral} {z : NumberValue} : n.value = .ok z → IsFound (.number z) (.number n)
  | string (s : String) : IsFound (.string s) (.string s)
  | list {founds : List Found} {vs : List Json} : List.Forall₂ IsFound founds vs →
      IsFound .list (.list vs)
  | object {founds : List Found} {ms : List (String × Json)} :
      List.Forall₂ IsFound founds (ms.map (·.2)) → IsFound .object (.object ms)

theorem exists_forall₂_iff {α β : Type} {R : α → β → Prop} {ys : List β} :
    (∃ xs, List.Forall₂ R xs ys) ↔ ∀ y ∈ ys, ∃ x, R x y := by
  induction ys with
  | nil => exact ⟨fun _ => List.forall_mem_nil _, fun _ => ⟨[], .nil⟩⟩
  | cons y ys ih =>
    rw [List.forall_mem_cons, ← ih]
    constructor
    · rintro ⟨_, h⟩
      cases h with
      | cons hy hys => exact ⟨⟨_, hy⟩, _, hys⟩
    · rintro ⟨⟨x, hy⟩, xs, hys⟩
      exact ⟨x :: xs, .cons hy hys⟩

/-- An object is read as a whole if each of its members is. -/
theorem isFound_object_iff {ms : List (String × Json)} :
    IsFound .object (.object ms) ↔ ∀ m ∈ ms, ∃ found, IsFound found m.2 := by
  rw [← List.forall_mem_map (P := fun v => ∃ found, IsFound found v), ← exists_forall₂_iff]
  constructor
  · intro h
    cases h with
    | object hfounds => exact ⟨_, hfounds⟩
  · rintro ⟨founds, hfounds⟩
    exact .object hfounds

theorem isFound_string_iff {s : String} {v : Json} : IsFound (.string s) v ↔ v = .string s := by
  constructor
  · intro h
    cases h
    rfl
  · rintro rfl
    exact .string s

theorem isFound_string_right_iff {s : String} {found : Found} :
    IsFound found (.string s) ↔ found = .string s := by
  constructor
  · intro h
    cases h
    rfl
  · rintro rfl
    exact .string s

/-- Strings are found where strings stand. -/
theorem forall₂_isFound_strings_iff {ss : List String} {vs : List Json} :
    List.Forall₂ IsFound (ss.map .string) vs ↔ vs = ss.map .string := by
  induction ss generalizing vs with
  | nil => exact List.forall₂_nil_left_iff
  | cons s ss ih =>
    rw [List.map_cons, List.forall₂_cons_left_iff, List.map_cons]
    simp only [isFound_string_iff, ih, exists_and_left, exists_eq_left]

theorem readScalar_decides : Decides 0 readScalar IsFound where
  sound {node v found} hnode hread := by
    cases hnode with
    | null start =>
      cases hread
      exact .null
    | bool start stop b =>
      cases hread
      exact .bool b
    | number start stop n =>
      obtain ⟨z, hz, rfl⟩ := map_eq_ok_iff.mp hread
      exact .number ((n.read_eq_ok_iff stop z).mp hz)
    | string start stop s =>
      cases hread
      exact .string s
    | _ => cases hread
  complete {node v found} hnode hdepth hv := by
    cases hv with
    | null =>
      cases hnode
      rfl
    | bool b =>
      cases hnode
      rfl
    | @number n z hz =>
      cases hnode with
      | number start stop => exact map_eq_ok_iff.mpr ⟨z, (n.read_eq_ok_iff stop z).mpr hz, rfl⟩
    | string s =>
      cases hnode
      rfl
    -- a bracket has a depth
    | list _ | object _ =>
      rw [depth] at hdepth
      omega

/-! ## Brackets -/

section Members

variable {α : Type} {levels : Nat} {item : Reader α} {Describes : α → Json → Prop}

/-- A visitor that reads every member, whatever its key, and keeps nothing. -/
def everyMember (item : Reader α) : Unit → String → Visit Unit :=
  fun _ _ => .read fun node => (item node).map fun _ => ()

theorem visits_everyMember_sound (h : Decides levels item Describes)
    {nodes : List (String × Node)} {ms : List (String × Json)}
    (hnodes : List.Forall₂ (fun m n => m.1 = n.1 ∧ m.2.Denotes n.2) nodes ms)
    (hvisits : Visits (everyMember item) nodes () ()) :
    ∃ xs, List.Forall₂ Describes xs (ms.map (·.2)) := by
  induction hnodes with
  | nil => exact ⟨[], .nil⟩
  | cons hm _ ih =>
    obtain ⟨_, hgoes, hrest⟩ := hvisits
    obtain ⟨x, hx, -⟩ := map_eq_ok_iff.mp hgoes
    obtain ⟨xs, hxs⟩ := ih hrest
    exact ⟨x :: xs, .cons (h.sound hm.2 hx) hxs⟩

theorem visits_everyMember_complete (h : Decides levels item Describes)
    {nodes : List (String × Node)} {ms : List (String × Json)}
    (hnodes : List.Forall₂ (fun m n => m.1 = n.1 ∧ m.2.Denotes n.2) nodes ms)
    (hdepth : depthMembers ms ≤ levels) {xs : List α}
    (hxs : List.Forall₂ Describes xs (ms.map (·.2))) :
    Visits (everyMember item) nodes () () := by
  induction hnodes generalizing xs with
  | nil => rfl
  | cons hm _ ih =>
    rw [depthMembers] at hdepth
    cases hxs with
    | cons hx hxs =>
      exact ⟨(), map_eq_ok_iff.mpr ⟨_, h.complete hm.2 (by omega) hx, rfl⟩, ih (by omega) hxs⟩

end Members

theorem readAny_object_iff {levels start : Nat} {members : Members} {found : Found} :
    readAny (levels + 1) (.object start members) = .ok found ↔
      (∃ stop, members.visit (everyMember (readAny levels)) true () = .ok ((), stop)) ∧
        found = .object := by
  rw [readAny]
  refine map_eq_ok_iff.trans ?_
  constructor
  · rintro ⟨⟨⟨⟩, stop⟩, hvisit, rfl⟩
    exact ⟨⟨stop, hvisit⟩, rfl⟩
  · rintro ⟨⟨stop, hvisit⟩, rfl⟩
    exact ⟨((), stop), hvisit, rfl⟩

/-- With so many levels a value of any kind is read, and its kind is found. -/
theorem readAny_decides (levels : Nat) : Decides levels (readAny levels) IsFound := by
  induction levels with
  | zero => exact readScalar_decides
  | succ levels ih =>
    constructor
    · intro node v found hnode hread
      have hsame := hnode
      cases hnode with
      | emptyList start stop =>
        cases hread
        exact .list .nil
      | list start hitems =>
        obtain ⟨founds, hfounds, rfl⟩ := map_eq_ok_iff.mp hread
        exact .list (hitems.read_sound ih hfounds)
      | emptyObject start stop =>
        cases hread
        exact .object .nil
      | object start hmembers =>
        obtain ⟨⟨stop, hvisit⟩, rfl⟩ := readAny_object_iff.mp hread
        obtain ⟨founds, hfounds⟩ :=
          visits_everyMember_sound ih hmembers.nodes (Members.visits _ hvisit)
        exact .object hfounds
      -- a scalar is read without looking at the levels
      | _ => exact readScalar_decides.sound hsame hread
    · intro node v found hnode hdepth hv
      have hsame := hnode
      cases hnode with
      | emptyList start stop =>
        cases hv
        rfl
      | list start hitems =>
        cases hv with
        | list hfounds =>
          rw [depth] at hdepth
          exact map_eq_ok_iff.mpr ⟨_, hitems.read_complete ih (by omega) true hfounds, rfl⟩
      | emptyObject start stop =>
        cases hv
        rfl
      | object start hmembers =>
        cases hv with
        | object hfounds =>
          rw [depth] at hdepth
          have hvisits := visits_everyMember_complete ih hmembers.nodes (by omega) hfounds
          exact readAny_object_iff.mpr ⟨hmembers.visit_complete true hvisits, rfl⟩
      | _ => exact readScalar_decides.complete hsame (Nat.le_refl _) hv

end SchemaNormal.Json
