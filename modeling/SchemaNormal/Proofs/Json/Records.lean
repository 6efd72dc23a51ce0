import SchemaNormal.Proofs.Json.Slots

/-!
# Reading records

Fields in a list are read one after the other, so they stand in their order.  Either form of a
record is then read exactly if the entries of its values describe what stands in the bracket.
-/

namespace SchemaNormal.Json

/-! ## Lists -/

/-- The items that are still to come. -/
def ListPlace.nodes : ListPlace → List Node
  | .start items => items.nodes
  | .after rest => rest.nodes

/-- The list is whole from here on. -/
inductive ListPlace.Whole : ListPlace → Prop where
  | empty (stop : Nat) : Whole (.start (.close stop))
  | start {items : Items} {vs : List Json} : items.Denote vs → Whole (.start items)
  | closed (stop : Nat) : Whole (.after (.close stop))
  | after {items : Items} {vs : List Json} (comma : Nat) : items.Denote vs →
      Whole (.after (.comma comma items))

/-- What comes next is the first item that is still to come, and the last thing is a bracket. -/
theorem ListPlace.nodes_of_next {place : ListPlace} {next : NextItem}
    (h : place.next = .ok next) :
    match next with
    | .closed _ => place.nodes = []
    | .item value rest => place.nodes = value :: rest.nodes := by
  unfold ListPlace.next at h
  split at h <;> cases h <;> rfl

theorem ListPlace.nodes_of_finish {place : ListPlace} (h : place.finish = .ok ()) :
    place.nodes = [] := by
  unfold ListPlace.finish at h
  split at h <;> first | rfl | cases h

theorem Items.Denote.eq_item {items : Items} {vs : List Json} (h : items.Denote vs) :
    ∃ value rest, items = .item value rest ∧ (ListPlace.after rest).Whole := by
  cases h with
  | last stop hv => exact ⟨_, .close stop, rfl, .closed stop⟩
  | cons comma hv hrest => exact ⟨_, .comma comma _, rfl, .after comma hrest⟩

theorem ListPlace.Whole.next {place : ListPlace} (h : place.Whole) :
    ∃ next, place.next = .ok next ∧ ∀ {value : Node} {rest : AfterItem},
      next = .item value rest → (ListPlace.after rest).Whole := by
  -- an item can come at both places at which nothing is closed
  have hitem : ∀ {value : Node} {rest : AfterItem}, (ListPlace.after rest).Whole →
      ∀ {value' : Node} {rest' : AfterItem},
        NextItem.item value rest = .item value' rest' → (ListPlace.after rest').Whole := by
    intro value rest hrest value' rest' h
    cases h
    exact hrest
  cases h with
  | empty stop => exact ⟨.closed (stop + 1), rfl, nofun⟩
  | closed stop => exact ⟨.closed (stop + 1), rfl, nofun⟩
  | start hitems =>
    obtain ⟨value, rest, rfl, hrest⟩ := hitems.eq_item
    exact ⟨.item value rest, rfl, hitem hrest⟩
  | after comma hitems =>
    obtain ⟨value, rest, rfl, hrest⟩ := hitems.eq_item
    exact ⟨.item value rest, rfl, hitem hrest⟩

theorem ListPlace.Whole.finish {place : ListPlace} (h : place.Whole) (hnodes : place.nodes = []) :
    place.finish = .ok () := by
  cases h with
  | empty stop => rfl
  | closed stop => rfl
  | start hitems => cases hitems <;> cases hnodes
  | after comma hitems => cases hitems <;> cases hnodes

theorem Values.absent_iff {fields : List Field} {position : Nat} {xs : Values fields} :
    absent fields position = .ok xs ↔ InOrder (entries fields xs) [] := by
  induction fields generalizing position with
  | nil => exact ⟨fun _ => rfl, fun _ => rfl⟩
  | cons field fields ih =>
    obtain ⟨x, xs⟩ := xs
    show _ ↔ field.absent = some x ∧ InOrder (entries fields xs) []
    simp only [absent]
    cases field.absent with
    | none => exact ⟨nofun, nofun⟩
    | some y =>
      refine map_eq_ok_iff.trans ?_
      constructor
      · rintro ⟨ys, hys, h⟩
        cases h
        exact ⟨rfl, ih.mp hys⟩
      · rintro ⟨hy, hxs⟩
        cases hy
        exact ⟨xs, ih.mpr hxs, rfl⟩

/-- However a text goes on, the fields that were read from a list stand in their order. -/
theorem Values.inOrder_of_ofList {expected : String} {fields : List Field} {position : Nat}
    {place : ListPlace} {xs : Values fields}
    (h : ofList expected fields position place = .ok xs) :
    InOrder (entries fields xs) place.nodes := by
  induction fields generalizing position place with
  | nil => exact ListPlace.nodes_of_finish h
  | cons field fields ih =>
    obtain ⟨x, xs⟩ := xs
    simp only [ofList] at h
    cases hnext : place.next with
    | error fault =>
      rw [hnext] at h
      cases h
    | ok next =>
      have hnodes := ListPlace.nodes_of_next hnext
      rw [hnext] at h
      cases next with
      | closed stop =>
        -- the list has ended, so this field and all after it take their defaults
        rw [hnodes]
        dsimp only at h
        cases habsent : absent (field :: fields) position with
        | error missing =>
          rw [habsent] at h
          cases h
        | ok ys =>
          rw [habsent] at h
          cases h
          exact absent_iff.mp habsent
      | item value rest =>
        rw [hnodes]
        dsimp only at h
        cases hread : field.read value with
        | error fault =>
          rw [hread] at h
          cases h
        | ok y =>
          rw [hread] at h
          obtain ⟨ys, hys, hxs⟩ := map_eq_ok_iff.mp h
          cases hxs
          exact ⟨hread, ih hys⟩

theorem Values.ofList_complete {expected : String} {fields : List Field} {position : Nat}
    {place : ListPlace} {xs : Values fields} (hplace : place.Whole)
    (h : InOrder (entries fields xs) place.nodes) :
    ofList expected fields position place = .ok xs := by
  induction fields generalizing position place with
  | nil => exact hplace.finish h
  | cons field fields ih =>
    obtain ⟨x, xs⟩ := xs
    obtain ⟨next, hnext, hrest⟩ := hplace.next
    have hnodes := ListPlace.nodes_of_next hnext
    simp only [ofList, hnext]
    cases next with
    | closed stop =>
      rw [hnodes] at h
      have habsent : absent (field :: fields) position = .ok (x, xs) := absent_iff.mpr h
      simp only [habsent]
    | item value rest =>
      rw [hnodes] at h
      obtain ⟨hread, h⟩ := h
      have hread : field.read value = .ok x := hread
      simp only [hread]
      exact map_eq_ok_iff.mpr ⟨xs, ih (hrest rfl) h, rfl⟩

/-! ## Both forms -/

section Record

variable {levels : Nat} {kind : String} {fields : List Field}

theorem readRecord_list_iff {start : Nat} {items : Items} {xs : Values fields} :
    readRecord levels kind fields (.list start items) = .ok xs ↔
      levels ≠ 0 ∧ Values.ofList (kind ++ " with " ++ elements fields.length) fields 0
        (.start items) = .ok xs :=
  opened_eq_ok_iff

theorem readRecord_object_iff {start : Nat} {members : Members} {xs : Values fields} :
    readRecord levels kind fields (.object start members) = .ok xs ↔
      levels ≠ 0 ∧ ∃ slots, (∃ stop, members.visit (Slots.visit fields) true (Slots.empty fields) =
        .ok (slots, stop)) ∧ slots.complete fields = .ok xs := by
  refine opened_eq_ok_iff.trans (and_congr_right fun _ => ?_)
  cases members.visit (Slots.visit fields) true (Slots.empty fields) with
  | error fault =>
    constructor
    · intro h
      cases h
    · rintro ⟨slots, ⟨stop, h⟩, -⟩
      cases h
  | ok visited =>
    obtain ⟨slots, stop⟩ := visited
    dsimp only
    constructor
    · intro h
      refine ⟨slots, ⟨stop, rfl⟩, ?_⟩
      split at h
      · cases h
      · cases h
        assumption
    · rintro ⟨slots', ⟨stop', h⟩, hcomplete⟩
      cases h
      rw [hcomplete]

/-- What is read from an object is what its members hold. -/
theorem inMembers_of_readRecord (hnames : (fields.map (·.name)).Nodup) {start : Nat}
    {members : Members} {xs : Values fields}
    (h : readRecord levels kind fields (.object start members) = .ok xs) :
    InMembers (Values.entries fields xs) members.nodes := by
  obtain ⟨-, slots, ⟨stop, hvisit⟩, hcomplete⟩ := readRecord_object_iff.mp h
  have hget := (Slots.visits_iff hnames).mp (members.visits hvisit)
  exact Slots.complete_iff.mp ⟨slots, hget, hcomplete⟩

theorem inOrder_of_readRecord {start : Nat} {items : Items} {xs : Values fields}
    (h : readRecord levels kind fields (.list start items) = .ok xs) :
    InOrder (Values.entries fields xs) items.nodes := by
  obtain ⟨-, hlist⟩ := readRecord_list_iff.mp h
  exact Values.inOrder_of_ofList hlist

/-- Each value that is read was read from a node or is the default of its field. -/
theorem admits_of_readRecord (hnames : (fields.map (·.name)).Nodup) {node : Node}
    {xs : Values fields} (h : readRecord levels kind fields node = .ok xs) :
    levels ≠ 0 ∧ ∀ e ∈ Values.entries fields xs, ∃ slot, e.Admits slot := by
  cases node with
  | list start items =>
    exact ⟨(readRecord_list_iff.mp h).1, (inOrder_of_readRecord h).admits⟩
  | object start members =>
    exact ⟨(readRecord_object_iff.mp h).1, (inMembers_of_readRecord hnames h).admits⟩
  | _ => cases h

end Record

/-! ## Entries of values -/

/-- The field reads from a node what the entry says of its value. -/
structure Field.Decides (levels : Nat) (field : Field) (entry : field.Value → Entry Json) :
    Prop where
  key : ∀ x, (entry x).key = field.name
  absent : ∀ x, (entry x).Admits none ↔ field.absent = some x
  reads : Json.Decides levels field.read fun x v => (entry x).Admits (some v)

/-- Each field reads from a node what its entry says. -/
inductive Decided (levels : Nat) :
    (fields : List Field) → (Values fields → List (Entry Json)) → Prop where
  | nil : Decided levels [] fun _ => []
  | cons {field : Field} {fields : List Field} {entry : field.Value → Entry Json}
      {entries : Values fields → List (Entry Json)} : field.Decides levels entry →
      Decided levels fields entries →
      Decided levels (field :: fields) fun xs => entry xs.1 :: entries xs.2

section Decided

variable {levels : Nat} {fields : List Field} {entries : Values fields → List (Entry Json)}

theorem Decided.carries_value (h : Decided levels fields entries) (xs : Values fields) :
    List.Forall₂ (Entry.Carries Node.Denotes) (Values.entries fields xs) (entries xs) := by
  -- what a field reads is sound, so its node may be replaced by the node's value
  induction h with
  | nil => exact .nil
  | @cons field fields entry entries hfield hfields ih =>
    obtain ⟨x, xs⟩ := xs
    refine .cons ⟨(hfield.key x).symm, ?_⟩ (ih xs)
    intro node v hnode hx
    cases hnode with
    | none => exact (hfield.absent x).mpr hx
    | some hnode => exact hfield.reads.sound hnode hx

theorem Decided.carries_node (h : Decided levels fields entries) (xs : Values fields) :
    List.Forall₂ (Entry.Carries fun v node => v.depth ≤ levels ∧ node.Denotes v) (entries xs)
      (Values.entries fields xs) := by
  -- and complete, so a value with few enough levels may be replaced by its node
  induction h with
  | nil => exact .nil
  | @cons field fields entry entries hfield hfields ih =>
    obtain ⟨x, xs⟩ := xs
    refine .cons ⟨hfield.key x, ?_⟩ (ih xs)
    intro v node hnode hx
    cases hnode with
    | none => exact (hfield.absent x).mp hx
    | some hnode => exact hfield.reads.complete hnode.2 hnode.1 hx

/-- What stands in a bracket has one level less. -/
theorem forall₂_below {vs : List Json} {nodes : List Node}
    (hvs : ∀ v ∈ vs, v.depth + 1 ≤ levels) (hnodes : List.Forall₂ Node.Denotes nodes vs) :
    List.Forall₂ (fun v node => v.depth ≤ levels - 1 ∧ node.Denotes v) vs nodes := by
  refine (List.forall₂_and_left _ _).mpr ⟨fun v hv => ?_, hnodes.flip⟩
  have := hvs v hv
  omega

theorem Decided.inOrder (h : Decided (levels - 1) fields entries) {kind : String} {start : Nat}
    {items : Items} {vs : List Json} {xs : Values fields}
    (hnodes : List.Forall₂ Node.Denotes items.nodes vs)
    (hread : readRecord levels kind fields (.list start items) = .ok xs) :
    InOrder (entries xs) vs :=
  (inOrder_of_readRecord hread).carry (h.carries_value xs) hnodes

theorem Decided.inMembers (h : Decided (levels - 1) fields entries)
    (hnames : (fields.map (·.name)).Nodup) {kind : String} {start : Nat} {members : Members}
    {ms : List (String × Json)} {xs : Values fields}
    (hnodes : List.Forall₂ (fun m n => m.1 = n.1 ∧ m.2.Denotes n.2) members.nodes ms)
    (hread : readRecord levels kind fields (.object start members) = .ok xs) :
    InMembers (entries xs) ms :=
  (inMembers_of_readRecord hnames hread).carry (h.carries_value xs) fun e _ =>
    forall₂_valuesUnder hnodes e.key

theorem Decided.readRecord_list (h : Decided (levels - 1) fields entries) {kind : String}
    {start : Nat} {items : Items} {vs : List Json} {xs : Values fields}
    (hwhole : (ListPlace.start items).Whole) (hnodes : List.Forall₂ Node.Denotes items.nodes vs)
    (hdepth : (list vs).depth ≤ levels) (hxs : InOrder (entries xs) vs) :
    readRecord levels kind fields (.list start items) = .ok xs := by
  rw [depth] at hdepth
  have hbelow : ∀ v ∈ vs, v.depth + 1 ≤ levels := by
    intro v hv
    have := depth_le_depthItems hv
    omega
  have hin : InOrder (Values.entries fields xs) items.nodes :=
    InOrder.carry (h.carries_node xs) (forall₂_below hbelow hnodes) hxs
  exact readRecord_list_iff.mpr ⟨by omega, Values.ofList_complete hwhole hin⟩

theorem Decided.readRecord_object (h : Decided (levels - 1) fields entries)
    (hnames : (fields.map (·.name)).Nodup) {kind : String} {start : Nat} {members : Members}
    {ms : List (String × Json)} {xs : Values fields}
    (hvisit : ∀ {slots}, Visits (Slots.visit fields) members.nodes (Slots.empty fields) slots →
      ∃ stop, members.visit (Slots.visit fields) true (Slots.empty fields) = .ok (slots, stop))
    (hnodes : List.Forall₂ (fun m n => m.1 = n.1 ∧ m.2.Denotes n.2) members.nodes ms)
    (hdepth : (object ms).depth ≤ levels) (hxs : InMembers (entries xs) ms) :
    readRecord levels kind fields (.object start members) = .ok xs := by
  rw [depth] at hdepth
  have hbelow : ∀ (key : String), ∀ v ∈ valuesUnder key ms, v.depth + 1 ≤ levels := by
    intro key v hv
    have := depth_le_depthMembers (mem_of_mem_valuesUnder hv)
    omega
  have hin : InMembers (Values.entries fields xs) members.nodes :=
    InMembers.carry (h.carries_node xs)
      (fun e _ => forall₂_below (hbelow e.key) (forall₂_valuesUnder hnodes e.key)) hxs
  obtain ⟨slots, hget, hcomplete⟩ := Slots.complete_iff.mpr hin
  have hvisits := (Slots.visits_iff hnames).mpr hget
  exact readRecord_object_iff.mpr ⟨by omega, slots, hvisit hvisits, hcomplete⟩

/-- A record with distinct names is read exactly if its entries describe its values. -/
theorem readRecord_decides {kind : String} (hnames : (fields.map (·.name)).Nodup)
    (h : Decided (levels - 1) fields entries) :
    Decides levels (readRecord levels kind fields) fun xs v => IsRecord (entries xs) v where
  sound {node v xs} hnode hread := by
    cases hnode with
    -- an empty bracket has no nodes, and else both forms of a bracket are alike
    | emptyList start stop => exact h.inOrder .nil hread
    | list start hitems => exact h.inOrder hitems.nodes hread
    | emptyObject start stop => exact h.inMembers hnames .nil hread
    | object start hmembers => exact h.inMembers hnames hmembers.nodes hread
    | _ => cases hread
  complete {node v xs} hnode hdepth hv := by
    cases hnode with
    | emptyList start stop => exact h.readRecord_list (.empty stop) .nil hdepth hv
    | list start hitems => exact h.readRecord_list (.start hitems) hitems.nodes hdepth hv
    | emptyObject start stop =>
      refine h.readRecord_object hnames ?_ .nil hdepth hv
      rintro slots rfl
      exact ⟨stop + 1, rfl⟩
    | object start hmembers =>
      exact h.readRecord_object hnames (hmembers.visit_complete true) hmembers.nodes hdepth hv
    | _ => exact hv.elim

end Decided

end SchemaNormal.Json
