import SchemaNormal.Json.Record
import SchemaNormal.Proofs.Json.Reading

/-!
# Slots

A record is first described by the nodes that stand for its fields: `Values.entries` says what each
of them has to be for the values read.  Reading a record by its members is then a walk over the
slots of its fields, and each slot sees only the members with its own name.
-/

namespace SchemaNormal.Json

/-- The node that stands for a field is read as `x`; without one, `x` is the field's default. -/
def Field.entry (field : Field) (x : field.Value) : Entry Node :=
  ⟨field.name, fun node => node.elim (field.absent = some x) (field.read · = .ok x)⟩

/-- What has to stand for the fields to give these values. -/
def Values.entries : (fields : List Field) → Values fields → List (Entry Node)
  | [], _ => []
  | field :: fields, (x, xs) => field.entry x :: entries fields xs

/-! ## Walks over members -/

section Visits

variable {σ : Type} {visitor : σ → String → Visit σ} {s s' : σ}

/-- A member takes one state to the next. -/
def Visit.Goes (visit : Visit σ) (value : Node) (s s' : σ) : Prop :=
  match visit with
  | .skip => s' = s
  | .repeated => False
  | .read take => take value = .ok s'

/-- The members take one state to the next, each in its turn. -/
def Visits (visitor : σ → String → Visit σ) : List (String × Node) → σ → σ → Prop
  | [], s, s' => s' = s
  | (key, value) :: rest, s, s' =>
      ∃ s₁, (visitor s key).Goes value s s₁ ∧ Visits visitor rest s₁ s'

theorem Members.visit_member_iff {key : String} {keyStop colon stop : Nat} {value : Node}
    {rest : AfterMember} {first : Bool} :
    (Members.member ⟨.ok key, keyStop⟩ colon value rest).visit visitor first s = .ok (s', stop) ↔
      (visitor s key = .skip → value.skipFault? = none) ∧
        ∃ s₁, (visitor s key).Goes value s s₁ ∧ rest.visit visitor s₁ = .ok (s', stop) := by
  simp only [Members.visit]
  -- one case for each answer of the visitor; only a member that is skipped has to be whole
  cases visitor s key with
  | repeated => exact ⟨nofun, fun ⟨_, _, h, _⟩ => h.elim⟩
  | skip =>
    cases value.skipFault? with
    | some fault => exact ⟨nofun, fun h => nomatch h.1 rfl⟩
    | none => exact ⟨fun h => ⟨fun _ => rfl, s, rfl, h⟩, fun ⟨_, s₁, hs₁, h⟩ => hs₁ ▸ h⟩
  | read take =>
    simp only [Visit.Goes, reduceCtorEq, false_implies, true_and]
    cases take value with
    | error fault => exact ⟨nofun, fun ⟨_, h, _⟩ => nomatch h⟩
    | ok s₁ => exact ⟨fun h => ⟨s₁, rfl, h⟩, fun ⟨_, h₁, h⟩ => by cases h₁; exact h⟩

mutual

/-- However a text goes on, the members that were visited are walked over in order. -/
theorem Members.visits {visitor : σ → String → Visit σ} {s' : σ} {stop : Nat} :
    ∀ (members : Members) {first : Bool} {s : σ},
      members.visit visitor first s = .ok (s', stop) → Visits visitor members.nodes s s'
  | .close offset, first, s, h => by
    rw [Members.visit] at h
    split at h <;> cases h
    rfl
  | .member ⟨.ok key, keyStop⟩ colon value rest, first, s, h => by
    obtain ⟨-, s₁, hgoes, hrest⟩ := Members.visit_member_iff.mp h
    exact ⟨s₁, hgoes, rest.visits hrest⟩
  | .member ⟨.error fault, _⟩ _ _ _, _, _, h
  | .ended _, _, _, h
  | .other _, _, _, h
  | .brokenKey _, _, _, h
  | .bareKey ⟨.error fault, _⟩ _ _, _, _, h => by
    rw [Members.visit] at h
    cases h
  | .bareKey ⟨.ok key, _⟩ _ _, _, _, h => by
    simp only [Members.visit] at h
    split at h <;> cases h

theorem AfterMember.visits {visitor : σ → String → Visit σ} {s' : σ} {stop : Nat} :
    ∀ (rest : AfterMember) {s : σ},
      rest.visit visitor s = .ok (s', stop) → Visits visitor rest.nodes s s'
  | .close _, _, h => by
    cases h
    rfl
  | .comma _ rest, _, h => rest.visits h
  | .other _, _, h
  | .ended _, _, h => by
    rw [AfterMember.visit] at h
    cases h

end

theorem Members.Denote.visit_complete {members : Members} {ms : List (String × Json)}
    (hmembers : members.Denote ms) (first : Bool) (h : Visits visitor members.nodes s s') :
    ∃ stop, members.visit visitor first s = .ok (s', stop) := by
  -- the nodes of the members follow them one by one, so the walk has a step for each
  induction ms generalizing members first s with
  | nil => cases hmembers
  | cons m ms ih =>
    cases hmembers with
    | last keyStop colon stop hv =>
      obtain ⟨s₁, hgoes, rfl⟩ := h
      exact ⟨stop + 1, Members.visit_member_iff.mpr ⟨fun _ => hv.skipFault?, s', hgoes, rfl⟩⟩
    | cons keyStop colon comma hv hrest =>
      obtain ⟨s₁, hgoes, hvisits⟩ := h
      obtain ⟨stop, hvisit⟩ := ih hrest false hvisits
      exact ⟨stop, Members.visit_member_iff.mpr ⟨fun _ => hv.skipFault?, s₁, hgoes, hvisit⟩⟩

end Visits

/-! ## Slots -/

/-- The nodes under a field's name take its slot from one state to the next: one node is read into
an empty slot, and a second one would find it filled. -/
def Field.Gets (field : Field) (slot : Option field.Value) (nodes : List Node)
    (slot' : Option field.Value) : Prop :=
  match nodes with
  | [] => slot' = slot
  | [node] => slot = none ∧ ∃ x, field.read node = .ok x ∧ slot' = some x
  | _ :: _ :: _ => False

/-- The members take all slots from one state to the next. -/
def Slots.Get (members : List (String × Node)) :
    (fields : List Field) → Slots fields → Slots fields → Prop
  | [], _, _ => True
  | field :: fields, (slot, slots), (slot', slots') =>
      field.Gets slot (valuesUnder field.name members) slot' ∧ Get members fields slots slots'

theorem Field.gets_cons_iff {field : Field} {slot slot' : Option field.Value} {node : Node}
    {nodes : List Node} : field.Gets slot (node :: nodes) slot' ↔
      ∃ slot₁, field.Gets slot [node] slot₁ ∧ field.Gets slot₁ nodes slot' := by
  cases nodes with
  | nil =>
    constructor
    · intro h
      exact ⟨slot', h, rfl⟩
    · rintro ⟨slot₁, h, rfl⟩
      exact h
  | cons node₂ nodes =>
    constructor
    · exact False.elim
    · -- the first node has filled the slot
      rintro ⟨slot₁, ⟨-, x, -, rfl⟩, h⟩
      cases nodes with
      | nil => exact nomatch h.1
      | cons _ _ => exact h

theorem Slots.get_cons_iff {fields : List Field} {slots slots' : Slots fields}
    {m : String × Node} {members : List (String × Node)} :
    Get (m :: members) fields slots slots' ↔
      ∃ slots₁, Get [m] fields slots slots₁ ∧ Get members fields slots₁ slots' := by
  induction fields with
  | nil => exact ⟨fun _ => ⟨(), trivial, trivial⟩, fun _ => trivial⟩
  | cons field fields ih =>
    obtain ⟨slot, slots⟩ := slots
    obtain ⟨slot', slots'⟩ := slots'
    -- the field's own slot takes the same step as the others
    have hfield : field.Gets slot (valuesUnder field.name (m :: members)) slot' ↔
        ∃ slot₁, field.Gets slot (valuesUnder field.name [m]) slot₁ ∧
          field.Gets slot₁ (valuesUnder field.name members) slot' := by
      rw [valuesUnder_cons, valuesUnder_cons]
      by_cases hm : m.1 = field.name
      · rw [if_pos hm, if_pos hm]
        exact Field.gets_cons_iff
      · rw [if_neg hm, if_neg hm]
        exact ⟨fun h => ⟨slot, rfl, h⟩, fun ⟨slot₁, hslot, h⟩ => hslot ▸ h⟩
    constructor
    · rintro ⟨h, hrest⟩
      obtain ⟨slot₁, h₁, h⟩ := hfield.mp h
      obtain ⟨slots₁, hrest₁, hrest⟩ := ih.mp hrest
      exact ⟨(slot₁, slots₁), ⟨h₁, hrest₁⟩, h, hrest⟩
    · rintro ⟨⟨slot₁, slots₁⟩, ⟨h₁, hrest₁⟩, h, hrest⟩
      exact ⟨hfield.mpr ⟨slot₁, h₁, h⟩, ih.mpr ⟨slots₁, hrest₁, hrest⟩⟩

/-- Members that have no field's name change nothing. -/
theorem Slots.get_iff_eq {fields : List Field} {slots slots' : Slots fields}
    {members : List (String × Node)}
    (h : ∀ field ∈ fields, valuesUnder field.name members = []) :
    Get members fields slots slots' ↔ slots' = slots := by
  induction fields with
  | nil => exact ⟨fun _ => rfl, fun _ => trivial⟩
  | cons field fields ih =>
    obtain ⟨slot, slots⟩ := slots
    obtain ⟨slot', slots'⟩ := slots'
    have hrest := @ih slots slots' fun field hfield => h field (List.mem_cons_of_mem _ hfield)
    show field.Gets slot (valuesUnder field.name members) slot' ∧ _ ↔ _
    rw [h field List.mem_cons_self, hrest]
    exact (iff_of_eq (Prod.mk.injEq slot' slots' slot slots)).symm

theorem Slots.goes_visit_iff {fields : List Field} (hnames : (fields.map (·.name)).Nodup)
    {slots slots' : Slots fields} {key : String} {node : Node} :
    (visit fields slots key).Goes node slots slots' ↔ Get [(key, node)] fields slots slots' := by
  induction fields with
  | nil => exact ⟨fun _ => trivial, fun _ => rfl⟩
  | cons field fields ih =>
    obtain ⟨slot, slots⟩ := slots
    obtain ⟨slot', slots'⟩ := slots'
    obtain ⟨hname, hnames⟩ := List.nodup_cons.mp hnames
    simp only [visit, Get, valuesUnder_cons]
    by_cases hkey : field.name = key
    · -- the member is this field's, and no other field has its name
      have hrest : Get [(key, node)] fields slots slots' ↔ slots' = slots := by
        apply get_iff_eq
        intro other hother
        refine valuesUnder_singleton_of_ne ?_ node
        rintro rfl
        exact hname (List.mem_map.mpr ⟨other, hother, hkey.symm⟩)
      rw [if_pos hkey, if_pos hkey.symm, hrest]
      cases slot with
      -- a filled slot makes the member a repetition
      | some x => exact ⟨False.elim, fun h => nomatch h.1.1⟩
      | none =>
        refine map_eq_ok_iff.trans ?_
        constructor
        · rintro ⟨x, hx, h⟩
          cases h
          exact ⟨⟨rfl, x, hx, rfl⟩, rfl⟩
        · rintro ⟨⟨-, x, hx, rfl⟩, rfl⟩
          exact ⟨x, hx, rfl⟩
    · -- the member is for the other fields to see
      rw [if_neg hkey, if_neg (Ne.symm hkey), ← ih hnames]
      cases visit fields slots key with
      | skip => exact iff_of_eq (Prod.mk.injEq slot' slots' slot slots)
      | repeated => exact ⟨False.elim, fun h => h.2⟩
      | read take =>
        refine map_eq_ok_iff.trans ?_
        constructor
        · rintro ⟨slots₁, hslots, h⟩
          cases h
          exact ⟨rfl, hslots⟩
        · rintro ⟨rfl, hslots⟩
          exact ⟨slots', hslots, rfl⟩

theorem Slots.visits_iff {fields : List Field} (hnames : (fields.map (·.name)).Nodup)
    {members : List (String × Node)} {slots slots' : Slots fields} :
    Visits (visit fields) members slots slots' ↔ Get members fields slots slots' := by
  induction members generalizing slots with
  | nil => exact (get_iff_eq fun _ _ => rfl).symm
  | cons m members ih =>
    rw [get_cons_iff]
    constructor
    · rintro ⟨slots₁, hgoes, hvisits⟩
      exact ⟨slots₁, (goes_visit_iff hnames).mp hgoes, ih.mp hvisits⟩
    · rintro ⟨slots₁, hgets, hget⟩
      exact ⟨slots₁, (goes_visit_iff hnames).mpr hgets, ih.mpr hget⟩

theorem Field.found_entry_iff {field : Field} {nodes : List Node} {x : field.Value} :
    (field.entry x).Found nodes ↔
      ∃ slot, field.Gets none nodes slot ∧ (slot <|> field.absent) = some x := by
  match nodes with
  | [] => exact ⟨fun h => ⟨none, rfl, h⟩, fun ⟨slot, hslot, h⟩ => by cases hslot; exact h⟩
  | [node] =>
    constructor
    · intro h
      exact ⟨some x, ⟨rfl, x, h, rfl⟩, rfl⟩
    · rintro ⟨slot, ⟨-, y, hy, rfl⟩, h⟩
      cases h
      exact hy
  | _ :: _ :: _ => exact ⟨False.elim, fun ⟨_, h, _⟩ => h⟩

theorem Slots.complete_cons_iff {field : Field} {fields : List Field}
    {slot : Option field.Value} {slots : Slots fields} {x : field.Value} {xs : Values fields} :
    complete (field :: fields) (slot, slots) = .ok (x, xs) ↔
      (slot <|> field.absent) = some x ∧ complete fields slots = .ok xs := by
  simp only [complete]
  cases (slot <|> field.absent) with
  | none => exact ⟨nofun, nofun⟩
  | some y =>
    refine map_eq_ok_iff.trans ?_
    constructor
    · rintro ⟨ys, hys, h⟩
      cases h
      exact ⟨rfl, hys⟩
    · rintro ⟨hy, hxs⟩
      cases hy
      exact ⟨xs, hxs, rfl⟩

/-- Each field has the value that the members under its name give it. -/
theorem Slots.complete_iff {fields : List Field} {members : List (String × Node)}
    {xs : Values fields} :
    (∃ slots, Get members fields (empty fields) slots ∧ complete fields slots = .ok xs) ↔
      InMembers (Values.entries fields xs) members := by
  induction fields with
  | nil => exact ⟨fun _ => nofun, fun _ => ⟨(), trivial, rfl⟩⟩
  | cons field fields ih =>
    obtain ⟨x, xs⟩ := xs
    show _ ↔ ∀ e ∈ field.entry x :: Values.entries fields xs, _
    rw [List.forall_mem_cons]
    show _ ↔ _ ∧ InMembers (Values.entries fields xs) members
    rw [← ih]
    show _ ↔ (field.entry x).Found (valuesUnder field.name members) ∧ _
    rw [Field.found_entry_iff]
    constructor
    · rintro ⟨⟨slot, slots⟩, ⟨hget, hgets⟩, hcomplete⟩
      obtain ⟨hx, hxs⟩ := complete_cons_iff.mp hcomplete
      exact ⟨⟨slot, hget, hx⟩, slots, hgets, hxs⟩
    · rintro ⟨⟨slot, hget, hx⟩, slots, hgets, hxs⟩
      exact ⟨(slot, slots), ⟨hget, hgets⟩, complete_cons_iff.mpr ⟨hx, hxs⟩⟩

end SchemaNormal.Json
