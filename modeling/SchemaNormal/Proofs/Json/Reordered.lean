import Mathlib.Data.List.Perm.Basic
import SchemaNormal.Proofs.Json.Kinds
import SchemaNormal.Proofs.Json.Layouts

/-!
# Members in any order

The members of an object may be permuted, and so may those of every object inside it.  A permuted
value is as deep as it was, and what a typed reader looks for in it has not changed.
-/

namespace SchemaNormal.Json

mutual

/-- The second value is the first one with the members of its objects permuted, at any depth. -/
inductive Reordered : Json → Json → Prop where
  | null : Reordered .null .null
  | bool (b : Bool) : Reordered (.bool b) (.bool b)
  | number (n : Numeral) : Reordered (.number n) (.number n)
  | string (s : String) : Reordered (.string s) (.string s)
  | list {vs ws : List Json} : ReorderedItems vs ws → Reordered (.list vs) (.list ws)
  | object {ms ms' ns : List (String × Json)} : ReorderedMembers ms ms' → ms'.Perm ns →
      Reordered (.object ms) (.object ns)

/-- Item by item, the members inside are permuted. -/
inductive ReorderedItems : List Json → List Json → Prop where
  | nil : ReorderedItems [] []
  | cons {v w : Json} {vs ws : List Json} : Reordered v w → ReorderedItems vs ws →
      ReorderedItems (v :: vs) (w :: ws)

/-- Member by member, the members inside are permuted. -/
inductive ReorderedMembers : List (String × Json) → List (String × Json) → Prop where
  | nil : ReorderedMembers [] []
  | cons {v w : Json} {ms ns : List (String × Json)} (key : String) : Reordered v w →
      ReorderedMembers ms ns → ReorderedMembers ((key, v) :: ms) ((key, w) :: ns)

end

mutual

theorem Reordered.refl : ∀ v : Json, Reordered v v
  | .null => .null
  | .bool b => .bool b
  | .number n => .number n
  | .string s => .string s
  | .list vs => .list (ReorderedItems.refl vs)
  | .object ms => .object (ReorderedMembers.refl ms) (.refl ms)

theorem ReorderedItems.refl : ∀ vs : List Json, ReorderedItems vs vs
  | [] => .nil
  | v :: vs => .cons (Reordered.refl v) (ReorderedItems.refl vs)

theorem ReorderedMembers.refl : ∀ ms : List (String × Json), ReorderedMembers ms ms
  | [] => .nil
  | (key, v) :: ms => .cons key (Reordered.refl v) (ReorderedMembers.refl ms)

end

theorem ReorderedItems.forall₂ {vs ws : List Json} (h : ReorderedItems vs ws) :
    List.Forall₂ Reordered vs ws := by
  induction vs generalizing ws with
  | nil =>
    cases h
    exact .nil
  | cons v vs ih =>
    cases h with
    | cons hv hvs => exact .cons hv (ih hvs)

theorem ReorderedMembers.forall₂ {ms ns : List (String × Json)} (h : ReorderedMembers ms ns) :
    List.Forall₂ (fun m n => m.1 = n.1 ∧ Reordered m.2 n.2) ms ns := by
  induction ms generalizing ns with
  | nil =>
    cases h
    exact .nil
  | cons m ms ih =>
    cases h with
    | cons key hv hms => exact .cons ⟨rfl, hv⟩ (ih hms)

/-! ## Depth and spelling -/

theorem depthMembers_perm {ms ns : List (String × Json)} (h : ms.Perm ns) :
    depthMembers ms = depthMembers ns := by
  induction h with
  | nil => rfl
  | cons m _ ih => rw [depthMembers, depthMembers, ih]
  | swap m n ms => simp only [depthMembers, Nat.max_left_comm]
  | trans _ _ ih₁ ih₂ => exact ih₁.trans ih₂

mutual

theorem Reordered.depth_eq {v w : Json} : Reordered v w → v.depth = w.depth
  | .null | .bool _ | .number _ | .string _ => rfl
  | .list h => congrArg (1 + ·) h.depth_eq
  | .object h hperm => congrArg (1 + ·) (h.depth_eq.trans (depthMembers_perm hperm))

theorem ReorderedItems.depth_eq {vs ws : List Json} :
    ReorderedItems vs ws → depthItems vs = depthItems ws
  | .nil => rfl
  | .cons h hrest => congrArg₂ max h.depth_eq hrest.depth_eq

theorem ReorderedMembers.depth_eq {ms ns : List (String × Json)} :
    ReorderedMembers ms ns → depthMembers ms = depthMembers ns
  | .nil => rfl
  | .cons _ h hrest => congrArg₂ max h.depth_eq hrest.depth_eq

end

theorem properMembers_perm {ms ns : List (String × Json)} (h : ms.Perm ns) :
    ProperMembers ms ↔ ProperMembers ns := by
  induction h with
  | nil => exact Iff.rfl
  | cons m _ ih => exact and_congr_right' ih
  | swap m n ms => exact and_left_comm
  | trans _ _ ih₁ ih₂ => exact ih₁.trans ih₂

mutual

theorem Reordered.proper {v w : Json} : Reordered v w → v.Proper → w.Proper
  | .null, h | .bool _, h | .number _, h | .string _, h => h
  | .list hitems, h => hitems.proper h
  | .object hmembers hperm, h => (properMembers_perm hperm).mp (hmembers.proper h)

theorem ReorderedItems.proper {vs ws : List Json} :
    ReorderedItems vs ws → ProperItems vs → ProperItems ws
  | .nil, h => h
  | .cons hv hrest, h => ⟨hv.proper h.1, hrest.proper h.2⟩

theorem ReorderedMembers.proper {ms ns : List (String × Json)} :
    ReorderedMembers ms ns → ProperMembers ms → ProperMembers ns
  | .nil, h => h
  | .cons _ hv hrest, h => ⟨hv.proper h.1, hrest.proper h.2⟩

end

/-! ## Descriptions -/

/-- The property of values does not hang on the order of members. -/
def Unordered (P : Json → Prop) : Prop :=
  ∀ {v w : Json}, Reordered v w → P v → P w

theorem unordered_string (s : String) : Unordered (· = .string s) := by
  rintro v w h rfl
  cases h
  rfl

theorem unordered_isName (name : String) : Unordered (IsName name) := by
  rintro v w h (rfl | rfl)
  · exact Or.inl (unordered_string name h rfl)
  · -- a single member has one order only
    cases h with
    | object hmembers hperm =>
      cases hmembers with
      | cons key hv hrest =>
        cases hv
        cases hrest
        exact Or.inr (congrArg _ (List.singleton_perm.mp hperm).symm)

section Items

variable {α : Type} {Describes : α → Json → Prop}

theorem ReorderedItems.describe (h : ∀ x, Unordered (Describes x)) {xs : List α}
    {vs ws : List Json} (hitems : ReorderedItems vs ws) (hxs : List.Forall₂ Describes xs vs) :
    List.Forall₂ Describes xs ws := by
  induction hxs generalizing ws with
  | nil =>
    cases hitems
    exact .nil
  | @cons x v xs vs hx _ ih =>
    cases hitems with
    | cons hv hrest => exact .cons (h x hv hx) (ih hrest)

theorem unordered_isListOf (h : ∀ x, Unordered (Describes x)) (xs : List α) :
    Unordered (IsListOf Describes xs) := by
  rintro v w hvw ⟨vs, rfl, hxs⟩
  cases hvw with
  | list hitems => exact ⟨_, rfl, hitems.describe h hxs⟩

end Items

theorem unordered_isRecord {entries : List (Entry Json)}
    (h : ∀ e ∈ entries, Unordered fun v => e.Admits (some v)) : Unordered (IsRecord entries) := by
  have hcarries : List.Forall₂ (Entry.Carries Reordered) entries entries := by
    rw [List.forall₂_same]
    intro e he
    refine ⟨rfl, ?_⟩
    intro v w hvw hadmits
    cases hvw with
    | none => exact hadmits
    | some hvw => exact h e he hvw hadmits
  intro v w hvw hrecord
  cases hvw with
  | list hitems => exact InOrder.carry hcarries hitems.forall₂ hrecord
  | object hmembers hperm =>
    have hcarried := InMembers.carry hcarries
      (fun e _ => forall₂_valuesUnder hmembers.forall₂ e.key) hrecord
    exact hcarried.perm hperm
  | _ => exact hrecord

/-! ## Kinds -/

theorem exists_found_perm {founds : List Found} {ms ns : List (String × Json)} (h : ms.Perm ns)
    (hfounds : List.Forall₂ IsFound founds (ms.map (·.2))) :
    ∃ founds', List.Forall₂ IsFound founds' (ns.map (·.2)) := by
  have hperm : (ns.map (·.2)).Perm (ms.map (·.2)) := h.symm.map _
  obtain ⟨founds', h', -⟩ := List.perm_comp_forall₂ hperm hfounds.flip
  exact ⟨founds', h'.flip⟩

mutual

theorem IsFound.reordered {v w : Json} : Reordered v w → ∀ {found}, IsFound found v →
    IsFound found w
  | .null, _, h | .bool _, _, h | .number _, _, h | .string _, _, h => h
  | .list hitems, _, .list h => .list (hitems.found h)
  | .object hmembers hperm, _, .object h =>
    let ⟨_, h'⟩ := exists_found_perm hperm (hmembers.found h)
    .object h'

theorem ReorderedItems.found {vs ws : List Json} : ReorderedItems vs ws →
    ∀ {founds}, List.Forall₂ IsFound founds vs → List.Forall₂ IsFound founds ws
  | .nil, _, h => h
  | .cons hv hrest, _, .cons h hfounds => .cons (h.reordered hv) (hrest.found hfounds)

theorem ReorderedMembers.found {ms ns : List (String × Json)} : ReorderedMembers ms ns →
    ∀ {founds}, List.Forall₂ IsFound founds (ms.map (·.2)) →
      List.Forall₂ IsFound founds (ns.map (·.2))
  | .nil, _, h => h
  | .cons _ hv hrest, _, .cons h hfounds => .cons (h.reordered hv) (hrest.found hfounds)

end

end SchemaNormal.Json
