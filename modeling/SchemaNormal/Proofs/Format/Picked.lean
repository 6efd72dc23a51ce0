import SchemaNormal.Format.Report
import SchemaNormal.Proofs.Json.Reading

/-!
# Changes from what has been found

Once its kind is known, a change is put together from values that have been found before: strings
under the names of its fields, each once, or the strings of a list in their order.
-/

namespace SchemaNormal

open Json

namespace Change

def kind : Change → ChangeKind
  | .messageLifted _ _ => .messageLifted
  | .duplicateDropped _ _ => .duplicateDropped
  | .zeroInserted _ _ => .zeroInserted
  | .valueRenamed _ _ _ => .valueRenamed

/-- The strings of a change, in the order of the fields of its kind. -/
def values : Change → List String
  | .messageLifted path name | .duplicateDropped path name | .zeroInserted path name =>
      [path, name]
  | .valueRenamed path old new => [path, old, new]

theorem length_values (c : Change) : c.values.length = c.kind.fields.length := by
  cases c <;> rfl

end Change

namespace ChangeKind

theorem change_eq_some_iff {kind : ChangeKind} {values : List String} {c : Change} :
    kind.change values = some c ↔ kind = c.kind ∧ values = c.values := by
  constructor
  · intro h
    unfold change at h
    split at h <;> cases h <;> exact ⟨rfl, rfl⟩
  · rintro ⟨rfl, rfl⟩
    cases c <;> rfl

theorem build_eq_ok_iff {kind : ChangeKind} {values : List String} {c : Change} :
    kind.build values = .ok c ↔ kind = c.kind ∧ values = c.values := by
  rw [← change_eq_some_iff]
  unfold build
  cases kind.change values <;> simp

end ChangeKind

/-! ## Slots for one string -/

theorem map_toList_inj {α β : Type} {f : α → β} (hf : Function.Injective f) {x y : Option α} :
    x.toList.map f = y.toList.map f ↔ x = y := by
  rw [List.map_inj_right hf]
  cases x <;> cases y <;> simp

theorem map_toList_eq_append_cons_iff {α β : Type} {f : α → β} {x y : Option α} {b : β}
    {bs : List β} : y.toList.map f = x.toList.map f ++ b :: bs ↔
      x = none ∧ bs = [] ∧ ∃ a, b = f a ∧ y = some a := by
  cases x with
  | some a => cases y <;> simp
  | none =>
    cases y with
    | none => simp
    | some a =>
      constructor
      · intro h
        obtain ⟨rfl, rfl⟩ := List.cons.inj h
        exact ⟨rfl, rfl, a, rfl, rfl⟩
      · rintro ⟨-, rfl, _, rfl, h⟩
        cases h
        rfl

theorem Found.string?_eq_ok_iff {found : Found} {s : String} :
    found.string? = .ok s ↔ found = .string s := by
  cases found <;> simp [Json.Found.string?]

/-- The members take a slot from one state to the next: what it holds, at most one string, is what
it held and what stands under its name. -/
def Picked (members : List (String × Found)) (slot slot' : String × Option String) : Prop :=
  slot'.1 = slot.1 ∧
    slot'.2.toList.map Found.string = slot.2.toList.map Found.string ++ valuesUnder slot.1 members

theorem picked_iff_eq {members : List (String × Found)} {slot slot' : String × Option String}
    (h : valuesUnder slot.1 members = []) : Picked members slot slot' ↔ slot' = slot := by
  unfold Picked
  rw [h, List.append_nil, map_toList_inj fun _ _ => Found.string.inj, Prod.ext_iff]

/-- A member with the name of the slot has to be a string and to come first. -/
theorem picked_self_iff {name : String} {value : Option String} {found : Found}
    {slot' : String × Option String} : Picked [(name, found)] (name, value) slot' ↔
      value = none ∧ ∃ s, found = .string s ∧ slot' = (name, some s) := by
  obtain ⟨name', value'⟩ := slot'
  unfold Picked
  rw [valuesUnder_singleton_self, map_toList_eq_append_cons_iff]
  constructor
  · rintro ⟨hname, hnone, -, s, rfl, hs⟩
    exact ⟨hnone, s, rfl, Prod.ext hname hs⟩
  · rintro ⟨rfl, s, rfl, h⟩
    cases h
    exact ⟨rfl, rfl, rfl, s, rfl, rfl⟩

theorem picked_cons_iff {m : String × Found} {members : List (String × Found)}
    {slot slot' : String × Option String} : Picked (m :: members) slot slot' ↔
      ∃ slot₁, Picked [m] slot slot₁ ∧ Picked members slot₁ slot' := by
  obtain ⟨name, value⟩ := slot
  obtain ⟨name', value'⟩ := slot'
  constructor
  · rintro ⟨rfl, h⟩
    simp only [valuesUnder_cons] at h
    by_cases hm : m.1 = name'
    · rw [if_pos hm] at h
      -- the slot was empty, and nothing can come after the member
      obtain ⟨-, hrest, -⟩ := map_toList_eq_append_cons_iff.mp h
      rw [hrest] at h
      refine ⟨(name', value'), ⟨rfl, ?_⟩, rfl, ?_⟩
      · rw [valuesUnder_cons, if_pos hm]
        exact h
      · rw [hrest, List.append_nil]
    · rw [if_neg hm] at h
      refine ⟨(name', value), ⟨rfl, ?_⟩, rfl, h⟩
      rw [valuesUnder_cons, if_neg hm]
      exact (List.append_nil _).symm
  · rintro ⟨⟨_, value₁⟩, ⟨rfl, h₁⟩, rfl, h⟩
    refine ⟨rfl, ?_⟩
    rw [h, h₁, List.append_assoc]
    congr 1
    exact (valuesUnder_append _ [m] members).symm

theorem forall₂_picked_iff_eq {members : List (String × Found)}
    {slots slots' : List (String × Option String)}
    (h : ∀ slot ∈ slots, valuesUnder slot.1 members = []) :
    List.Forall₂ (Picked members) slots slots' ↔ slots' = slots := by
  induction slots generalizing slots' with
  | nil => exact List.forall₂_nil_left_iff
  | cons slot slots ih =>
    obtain ⟨hslot, hslots⟩ := List.forall_mem_cons.mp h
    simp only [List.forall₂_cons_left_iff, picked_iff_eq hslot, ih hslots]
    simp

theorem forall₂_picked_cons_iff {m : String × Found} {members : List (String × Found)}
    {slots slots' : List (String × Option String)} :
    List.Forall₂ (Picked (m :: members)) slots slots' ↔
      ∃ slots₁, List.Forall₂ (Picked [m]) slots slots₁ ∧
        List.Forall₂ (Picked members) slots₁ slots' := by
  constructor
  · intro h
    induction h with
    | nil => exact ⟨[], .nil, .nil⟩
    | cons hslot _ ih =>
      obtain ⟨slot₁, hfirst, hlast⟩ := picked_cons_iff.mp hslot
      obtain ⟨slots₁, hfirsts, hlasts⟩ := ih
      exact ⟨slot₁ :: slots₁, .cons hfirst hfirsts, .cons hlast hlasts⟩
  · rintro ⟨slots₁, hfirsts, hlasts⟩
    induction hfirsts generalizing slots' with
    | nil =>
      cases hlasts
      exact .nil
    | cons hfirst _ ih =>
      cases hlasts with
      | cons hlast hlasts => exact .cons (picked_cons_iff.mpr ⟨_, hfirst, hlast⟩) (ih hlasts)

/-- One member goes into the slot of its name, if there is one. -/
theorem pickMember_eq_ok_iff {slots slots' : List (String × Option String)}
    (hnames : (slots.map (·.1)).Nodup) {key : String} {found : Found} :
    pickMember key found slots = .ok slots' ↔
      List.Forall₂ (Picked [(key, found)]) slots slots' := by
  induction slots generalizing slots' with
  | nil =>
    rw [List.forall₂_nil_left_iff]
    simp [pickMember, eq_comm]
  | cons slot slots ih =>
    obtain ⟨name, value⟩ := slot
    obtain ⟨hname, hnames⟩ := List.nodup_cons.mp hnames
    rw [List.forall₂_cons_left_iff]
    unfold pickMember
    by_cases hkey : name = key
    · -- the member belongs here, and no other slot has its name
      have hrest : ∀ slot ∈ slots, valuesUnder slot.1 [(key, found)] = [] := by
        intro slot hslot
        refine valuesUnder_singleton_of_ne (fun h => ?_) found
        exact hname (List.mem_map.mpr ⟨slot, hslot, (hkey.trans h).symm⟩)
      subst hkey
      rw [if_pos rfl]
      simp only [forall₂_picked_iff_eq hrest, picked_self_iff]
      cases value with
      | some s => simp
      | none =>
        refine map_eq_ok_iff.trans ?_
        simp only [Found.string?_eq_ok_iff]
        constructor
        · rintro ⟨s, rfl, rfl⟩
          exact ⟨_, _, ⟨trivial, s, rfl, rfl⟩, rfl, rfl⟩
        · rintro ⟨_, _, ⟨-, s, rfl, rfl⟩, rfl, rfl⟩
          exact ⟨s, rfl, rfl⟩
    · have hslot : valuesUnder name [(key, found)] = [] :=
        valuesUnder_singleton_of_ne (Ne.symm hkey) found
      rw [if_neg hkey, map_eq_ok_iff]
      simp only [ih hnames]
      constructor
      · rintro ⟨slots₁, hslots, rfl⟩
        exact ⟨_, _, (picked_iff_eq hslot).mpr rfl, hslots, rfl⟩
      · rintro ⟨slot₁, slots₁, hslot₁, hslots, rfl⟩
        rw [(picked_iff_eq hslot).mp hslot₁]
        exact ⟨slots₁, hslots, rfl⟩

theorem map_fst_of_picked {members : List (String × Found)}
    {slots slots' : List (String × Option String)}
    (h : List.Forall₂ (Picked members) slots slots') : slots'.map (·.1) = slots.map (·.1) := by
  induction h with
  | nil => rfl
  | cons hslot _ ih => rw [List.map_cons, List.map_cons, hslot.1, ih]

theorem foldlM_pickMember_iff {members : List (String × Found)}
    {slots slots' : List (String × Option String)} (hnames : (slots.map (·.1)).Nodup) :
    members.foldlM (fun slots (key, found) => pickMember key found slots) slots = .ok slots' ↔
      List.Forall₂ (Picked members) slots slots' := by
  induction members generalizing slots with
  | nil =>
    rw [forall₂_picked_iff_eq fun _ _ => rfl]
    exact ⟨fun h => by cases h; rfl, fun h => by rw [h]; rfl⟩
  | cons m members ih =>
    rw [List.foldlM_cons, bind_eq_ok_iff, forall₂_picked_cons_iff]
    apply exists_congr
    intro slots₁
    rw [pickMember_eq_ok_iff hnames]
    apply and_congr_right
    intro hfirst
    exact ih (map_fst_of_picked hfirst ▸ hnames)

theorem pickedValues_eq_ok_iff {slots : List (String × Option String)} {values : List String} :
    pickedValues slots = .ok values ↔ slots.map (·.2) = values.map some := by
  induction slots generalizing values with
  | nil => cases values <;> simp [pickedValues]
  | cons slot slots ih =>
    obtain ⟨name, value⟩ := slot
    cases value with
    | none => cases values <;> simp [pickedValues]
    | some s =>
      rw [pickedValues, map_eq_ok_iff]
      cases values with
      | nil => simp
      | cons s' values => simp [ih, and_comm]

namespace ChangeKind

theorem nodup_fields (kind : ChangeKind) : kind.fields.Nodup := by
  cases kind <;> decide

/-- Every name is picked once, with its string. -/
theorem forall₂_picked_iff {members : List (String × Found)} {names values : List String} :
    (∃ slots, List.Forall₂ (Picked members) (names.map fun name => (name, none)) slots ∧
      slots.map (·.2) = values.map some) ↔
      List.Forall₂ (fun name s => valuesUnder name members = [.string s]) names values := by
  induction names generalizing values with
  | nil =>
    rw [List.forall₂_nil_left_iff]
    constructor
    · rintro ⟨slots, hslots, hvalues⟩
      cases hslots
      exact List.map_eq_nil_iff.mp hvalues.symm
    · rintro rfl
      exact ⟨[], .nil, rfl⟩
  | cons name names ih =>
    rw [List.forall₂_cons_left_iff]
    constructor
    · rintro ⟨slots, hslots, hvalues⟩
      cases hslots with
      | @cons _ slot _ slots hslot hslots =>
        cases values with
        | nil => cases hvalues
        | cons s values =>
          obtain ⟨hs, hvalues⟩ := List.cons.inj hvalues
          -- the slot was empty at first, so all it holds has stood under its name
          have hs : slot.2 = some s := hs
          have hunder := hslot.2
          rw [hs] at hunder
          exact ⟨s, values, hunder.symm, ih.mp ⟨slots, hslots, hvalues⟩, rfl⟩
    · rintro ⟨s, values, hunder, hvalues, rfl⟩
      obtain ⟨slots, hslots, hstrings⟩ := ih.mpr hvalues
      refine ⟨(name, some s) :: slots, .cons ⟨rfl, hunder.symm⟩ hslots, ?_⟩
      rw [List.map_cons, hstrings, List.map_cons]

theorem ofMembers_eq_ok_iff {kind : ChangeKind} {members : List (String × Found)} {c : Change} :
    kind.ofMembers members = .ok c ↔ kind = c.kind ∧
      List.Forall₂ (fun name s => valuesUnder name members = [.string s]) kind.fields c.values := by
  have hnames : ((kind.fields.map fun name => (name, (none : Option String))).map (·.1)).Nodup := by
    rw [List.map_map]
    exact (List.map_id kind.fields).symm ▸ kind.nodup_fields
  unfold ofMembers
  rw [← forall₂_picked_iff]
  simp only [bind_eq_ok_iff, foldlM_pickMember_iff hnames, pickedValues_eq_ok_iff, build_eq_ok_iff]
  constructor
  · rintro ⟨slots, hslots, values, hvalues, rfl, rfl⟩
    exact ⟨rfl, slots, hslots, hvalues⟩
  · rintro ⟨rfl, slots, hslots, hvalues⟩
    exact ⟨slots, hslots, c.values, hvalues, rfl, rfl⟩

/-! ## Items in order -/

theorem takeStrings_eq_ok_iff {kind : ChangeKind} {position : Nat} {names values : List String}
    {items : List Found} : takeStrings kind position names items = .ok values ↔
      values.length = names.length ∧ ∃ rest, items = values.map .string ++ rest := by
  induction names generalizing position values items with
  | nil =>
    rw [takeStrings, Except.ok.injEq, List.length_nil, List.length_eq_zero_iff]
    exact ⟨fun h => ⟨h.symm, items, by rw [← h]; rfl⟩, fun h => h.1.symm⟩
  | cons name names ih =>
    cases items with
    | nil =>
      constructor
      · intro h
        cases h
      · rintro ⟨hlength, rest, h⟩
        cases values <;> cases h
        cases hlength
    | cons found items =>
      rw [takeStrings]
      simp only [bind_eq_ok_iff, Found.string?_eq_ok_iff, ih]
      constructor
      · rintro ⟨s, rfl, values, ⟨hlength, rest, rfl⟩, h⟩
        cases h
        exact ⟨congrArg (· + 1) hlength, rest, rfl⟩
      · rintro ⟨hlength, rest, h⟩
        cases values with
        | nil => cases hlength
        | cons s values =>
          obtain ⟨rfl, rfl⟩ := List.cons.inj h
          exact ⟨s, rfl, values, ⟨Nat.succ.inj hlength, rest, rfl⟩, rfl⟩

theorem ofItems_eq_ok_iff {kind : ChangeKind} {items : List Found} {c : Change} :
    kind.ofItems items = .ok c ↔ kind = c.kind ∧ items = c.values.map .string := by
  unfold ofItems
  rw [bind_eq_ok_iff]
  simp only [takeStrings_eq_ok_iff]
  constructor
  · rintro ⟨values, ⟨hlength, rest, rfl⟩, h⟩
    split at h
    · cases h
    · rename_i hfew
      obtain ⟨rfl, rfl⟩ := build_eq_ok_iff.mp h
      -- nothing may come after the strings
      rw [List.length_append, List.length_map] at hfew
      obtain rfl : rest = [] := List.length_eq_zero_iff.mp (by omega)
      exact ⟨rfl, List.append_nil _⟩
  · rintro ⟨rfl, rfl⟩
    refine ⟨c.values, ⟨c.length_values, [], (List.append_nil _).symm⟩, ?_⟩
    rw [List.length_map, c.length_values, if_neg (Nat.lt_irrefl _)]
    exact build_eq_ok_iff.mpr ⟨rfl, rfl⟩

end ChangeKind

end SchemaNormal
