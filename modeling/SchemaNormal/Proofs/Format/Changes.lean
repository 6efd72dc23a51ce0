import SchemaNormal.Proofs.Format.Depth
import SchemaNormal.Proofs.Format.Picked
import SchemaNormal.Proofs.Json.Kinds

/-!
# Changes in texts

A change stands in an object with its tag and its strings, each once and in any order, or in a list
with all of them in their order.  An object may have other members, as long as they can be read.
The tag may come last, so the reader has to keep what it has found until then.
-/

namespace SchemaNormal

open Json

/-! ## The format -/

namespace Change

/-- The keys of a change, its tag first. -/
def keys (c : Change) : List String :=
  "type" :: c.kind.fields

/-- What stands under the keys. -/
def strings (c : Change) : List String :=
  c.kind.name :: c.values

def Described (c : Change) : Json → Prop
  | .object ms =>
      List.Forall₂ (fun key s => valuesUnder key ms = [.string s]) c.keys c.strings ∧
        ∀ m ∈ ms, ∃ found, IsFound found m.2
  | .list vs => vs = c.strings.map .string
  | _ => False

end Change

namespace ChangeKind

theorem name_injective : Function.Injective name := by
  intro kind kind' h
  cases kind <;> cases kind' <;> revert h <;> decide

theorem readTag_decides (levels : Nat) :
    Decides levels readTag fun kind v => v = .string kind.name := by
  have hall : ∀ kind, kind ∈ [messageLifted, duplicateDropped, zeroInserted, valueRenamed] := by
    intro kind
    cases kind <;> decide
  constructor
  · intro node v kind hnode hread
    obtain ⟨name, hname, hkind⟩ := bind_eq_ok_iff.mp hread
    obtain rfl := (readString_decides levels _).sound hnode hname
    rw [(lookup_names_iff hall name_injective).mp (nameValue_eq_ok_iff.mp hkind)]
  · intro node v kind hnode hdepth hv
    have hname := (readString_decides levels "variant identifier").complete hnode hdepth hv
    refine bind_eq_ok_iff.mpr ⟨kind.name, hname, ?_⟩
    exact nameValue_eq_ok_iff.mpr ((lookup_names_iff hall name_injective).mpr rfl)

end ChangeKind

/-! ## Members and their tag -/

/-- What is found of members, one by one. -/
def FoundMembers : List (String × Found) → List (String × Json) → Prop :=
  List.Forall₂ fun found m => found.1 = m.1 ∧ IsFound found.2 m.2

theorem exists_foundMembers_iff {ms : List (String × Json)} :
    (∃ founds, FoundMembers founds ms) ↔ ∀ m ∈ ms, ∃ found, IsFound found m.2 := by
  unfold FoundMembers
  rw [exists_forall₂_iff]
  refine forall₂_congr fun m _ => ?_
  constructor
  · rintro ⟨found, -, hfound⟩
    exact ⟨found.2, hfound⟩
  · rintro ⟨found, hfound⟩
    exact ⟨(m.1, found), rfl, hfound⟩

namespace TaggedMembers

variable {levels : Nat} {seen seen' : TaggedMembers} {key : String} {node : Node}

theorem goes_tag_iff : (visit levels seen "type").Goes node seen seen' ↔
    seen.kind = none ∧
      ∃ kind, ChangeKind.readTag node = .ok kind ∧ seen' = { seen with kind := some kind } := by
  unfold visit
  rw [if_pos rfl]
  cases seen.kind with
  | some kind => exact ⟨False.elim, nofun⟩
  | none =>
    refine map_eq_ok_iff.trans ?_
    simp only [eq_comm, true_and]

theorem goes_other_iff (hkey : key ≠ "type") : (visit levels seen key).Goes node seen seen' ↔
    ∃ found, readAny levels node = .ok found ∧
      seen' = { seen with others := (key, found) :: seen.others } := by
  unfold visit
  rw [if_neg hkey]
  refine map_eq_ok_iff.trans ?_
  simp only [eq_comm]

theorem tagJson_injective : Function.Injective fun kind : ChangeKind => Json.string kind.name :=
  fun _ _ h => ChangeKind.name_injective (Json.string.inj h)

/-- The members take what has been seen from one state to the next: the tag, which may be there
once, and what is found of all others. -/
structure Sees (ms : List (String × Json)) (seen seen' : TaggedMembers) : Prop where
  tag : seen'.kind.toList.map (fun kind => Json.string kind.name) =
    seen.kind.toList.map (fun kind => Json.string kind.name) ++ valuesUnder "type" ms
  others : ∃ founds, seen'.others = founds.reverse ++ seen.others ∧
    FoundMembers founds (ms.filter (·.1 ≠ "type"))

theorem sees_of_visits {nodes : List (String × Node)} {ms : List (String × Json)}
    (hnodes : List.Forall₂ (fun m n => m.1 = n.1 ∧ m.2.Denotes n.2) nodes ms)
    (h : Visits (visit levels) nodes seen seen') : Sees ms seen seen' := by
  induction hnodes generalizing seen with
  | nil =>
    obtain rfl : seen' = seen := h
    exact ⟨(List.append_nil _).symm, [], rfl, .nil⟩
  | @cons m n nodes ms hm _ ih =>
    obtain ⟨key, node⟩ := m
    obtain ⟨_, v⟩ := n
    obtain ⟨rfl, hnode⟩ := hm
    obtain ⟨seen₁, hgoes, hrest⟩ := h
    obtain ⟨htag, founds, hothers, hfounds⟩ := ih hrest
    by_cases hkey : key = "type"
    · subst hkey
      obtain ⟨hnone, kind, hkind, rfl⟩ := goes_tag_iff.mp hgoes
      obtain rfl := (ChangeKind.readTag_decides levels).sound hnode hkind
      refine ⟨?_, founds, hothers, ?_⟩
      · rw [htag, hnone, valuesUnder_cons, if_pos rfl]
        rfl
      · rw [List.filter_cons_of_neg (by simp)]
        exact hfounds
    · obtain ⟨found, hfound, rfl⟩ := (goes_other_iff hkey).mp hgoes
      refine ⟨?_, (key, found) :: founds, ?_, ?_⟩
      · rw [htag, valuesUnder_cons, if_neg hkey]
      · rw [hothers, List.reverse_cons, List.append_assoc]
        rfl
      · rw [List.filter_cons_of_pos (by simpa using hkey)]
        exact .cons ⟨rfl, (readAny_decides levels).sound hnode hfound⟩ hfounds

theorem visits_of_sees {nodes : List (String × Node)} {ms : List (String × Json)}
    (hnodes : List.Forall₂ (fun m n => m.1 = n.1 ∧ m.2.Denotes n.2) nodes ms)
    (hdepth : depthMembers ms ≤ levels) (h : Sees ms seen seen') :
    Visits (visit levels) nodes seen seen' := by
  induction hnodes generalizing seen with
  | nil =>
    obtain ⟨kind, others⟩ := seen
    obtain ⟨kind', others'⟩ := seen'
    obtain ⟨htag, founds, hothers, hfounds⟩ := h
    cases hfounds
    obtain rfl : others' = others := hothers
    obtain rfl : kind' = kind :=
      (map_toList_inj tagJson_injective).mp (htag.trans (List.append_nil _))
    rfl
  | @cons m n nodes ms hm _ ih =>
    obtain ⟨key, node⟩ := m
    obtain ⟨_, v⟩ := n
    obtain ⟨rfl, hnode⟩ := hm
    obtain ⟨htag, founds, hothers, hfounds⟩ := h
    obtain ⟨hv, hms⟩ : v.depth ≤ levels ∧ depthMembers ms ≤ levels := Nat.max_le.mp hdepth
    rw [valuesUnder_cons] at htag
    by_cases hkey : key = "type"
    · -- no tag was seen before, and none can come after it
      subst hkey
      rw [if_pos rfl] at htag
      rw [List.filter_cons_of_neg (by simp)] at hfounds
      obtain ⟨hnone, hrest, kind, rfl, hsome⟩ := map_toList_eq_append_cons_iff.mp htag
      have hread := (ChangeKind.readTag_decides levels).complete hnode hv rfl
      refine ⟨_, goes_tag_iff.mpr ⟨hnone, kind, hread, rfl⟩,
        ih hms ⟨?_, founds, hothers, hfounds⟩⟩
      rw [hsome, hrest]
      exact (List.append_nil _).symm
    · rw [if_neg hkey] at htag
      rw [List.filter_cons_of_pos (by simpa using hkey)] at hfounds
      cases hfounds with
      | @cons found _ founds _ hfound hfounds =>
        obtain ⟨_, found⟩ := found
        obtain ⟨rfl, hfound⟩ := hfound
        have hread := (readAny_decides levels).complete hnode hv hfound
        refine ⟨_, (goes_other_iff hkey).mpr ⟨found, hread, rfl⟩,
          ih hms ⟨htag, founds, ?_, hfounds⟩⟩
        rw [hothers, List.reverse_cons, List.append_assoc]
        rfl

end TaggedMembers

/-! ## Both forms -/

theorem valuesUnder_filter_ne {β : Type} {key other : String} (h : key ≠ other)
    (ms : List (String × β)) : valuesUnder key (ms.filter (·.1 ≠ other)) = valuesUnder key ms := by
  unfold valuesUnder
  rw [List.filter_filter]
  congr 1
  apply List.filter_congr
  intro m _
  by_cases hm : m.1 = key
  · simp [hm, h]
  · simp [hm]

/-- Under a key other than the tag a string is found just where a string stands. -/
theorem valuesUnder_found_iff {founds : List (String × Found)} {ms : List (String × Json)}
    (h : FoundMembers founds (ms.filter (·.1 ≠ "type"))) {key : String} (hkey : key ≠ "type")
    {s : String} : valuesUnder key founds = [.string s] ↔ valuesUnder key ms = [.string s] := by
  have hvalues := forall₂_valuesUnder h key
  rw [valuesUnder_filter_ne hkey] at hvalues
  constructor
  · intro hs
    rw [hs] at hvalues
    exact (@forall₂_isFound_strings_iff [s] _).mp hvalues
  · intro hs
    rw [hs, List.forall₂_cons_right_iff] at hvalues
    obtain ⟨found, rest, hfound, hrest, heq⟩ := hvalues
    rw [heq, isFound_string_right_iff.mp hfound, List.forall₂_nil_right_iff.mp hrest]

theorem ChangeKind.type_notMem_fields (kind : ChangeKind) : "type" ∉ kind.fields := by
  cases kind <;> decide

namespace Change

theorem forall₂_found_iff {founds : List (String × Found)} {ms : List (String × Json)}
    (h : FoundMembers founds (ms.filter (·.1 ≠ "type"))) {names values : List String}
    (hnames : "type" ∉ names) :
    List.Forall₂ (fun name s => valuesUnder name founds = [.string s]) names values ↔
      List.Forall₂ (fun name s => valuesUnder name ms = [.string s]) names values := by
  induction names generalizing values with
  | nil => rw [List.forall₂_nil_left_iff, List.forall₂_nil_left_iff]
  | cons name names ih =>
    rw [List.mem_cons, not_or] at hnames
    simp only [List.forall₂_cons_left_iff, valuesUnder_found_iff h (Ne.symm hnames.1),
      ih hnames.2]

/-- An object describes a change if its members lead to the kind and the strings of the change. -/
theorem described_object_iff {c : Change} {ms : List (String × Json)} :
    c.Described (.object ms) ↔ ∃ seen, TaggedMembers.Sees ms {} seen ∧ seen.kind = some c.kind ∧
      List.Forall₂ (fun name s => valuesUnder name seen.others.reverse = [.string s])
        c.kind.fields c.values := by
  show List.Forall₂ _ ("type" :: c.kind.fields) (c.kind.name :: c.values) ∧ _ ↔ _
  rw [List.forall₂_cons]
  constructor
  · rintro ⟨⟨htag, hfields⟩, hfound⟩
    obtain ⟨founds, hfounds⟩ : ∃ founds, FoundMembers founds (ms.filter (·.1 ≠ "type")) :=
      exists_foundMembers_iff.mpr fun m hm => hfound m (List.mem_of_mem_filter hm)
    refine ⟨⟨some c.kind, founds.reverse⟩, ⟨htag.symm, founds, (List.append_nil _).symm, hfounds⟩,
      rfl, ?_⟩
    rw [List.reverse_reverse]
    exact (forall₂_found_iff hfounds c.kind.type_notMem_fields).mpr hfields
  · rintro ⟨⟨kind, others⟩, ⟨htag, founds, hothers, hfounds⟩, hkind, hfields⟩
    obtain rfl : kind = some c.kind := hkind
    obtain rfl : others = founds.reverse := hothers.trans (List.append_nil _)
    have htag : valuesUnder "type" ms = [.string c.kind.name] := htag.symm
    rw [List.reverse_reverse] at hfields
    refine ⟨⟨htag, (forall₂_found_iff hfounds c.kind.type_notMem_fields).mp hfields⟩, ?_⟩
    intro m hm
    by_cases hkey : m.1 = "type"
    · -- the tag is a string
      have hmem : m.2 ∈ valuesUnder "type" ms :=
        List.mem_map.mpr ⟨m, List.mem_filter.mpr ⟨hm, decide_eq_true hkey⟩, rfl⟩
      rw [htag, List.mem_singleton] at hmem
      rw [hmem]
      exact ⟨_, .string _⟩
    · exact exists_foundMembers_iff.mp ⟨founds, hfounds⟩ m
        (List.mem_filter.mpr ⟨hm, by simpa using hkey⟩)

variable {levels start : Nat} {c : Change}

theorem read_object_iff {members : Members} :
    Change.read levels (.object start members) = .ok c ↔ levels ≠ 0 ∧
      ∃ seen, (∃ stop, members.visit (TaggedMembers.visit (levels - 1)) true {} =
        .ok (seen, stop)) ∧ seen.kind = some c.kind ∧
        List.Forall₂ (fun name s => valuesUnder name seen.others.reverse = [.string s])
          c.kind.fields c.values := by
  refine opened_eq_ok_iff.trans (and_congr_right fun _ => ?_)
  rw [bind_eq_ok_iff]
  constructor
  · rintro ⟨⟨⟨kind, others⟩, stop⟩, hvisit, h⟩
    cases kind with
    | none => cases h
    | some kind =>
      obtain ⟨rfl, hfields⟩ := ChangeKind.ofMembers_eq_ok_iff.mp h
      exact ⟨_, ⟨stop, hvisit⟩, rfl, hfields⟩
  · rintro ⟨⟨kind, others⟩, ⟨stop, hvisit⟩, hkind, hfields⟩
    obtain rfl : kind = some c.kind := hkind
    exact ⟨_, hvisit, ChangeKind.ofMembers_eq_ok_iff.mpr ⟨rfl, hfields⟩⟩

/-- From a list the strings of a change are read as any values are. -/
theorem read_item_iff {value : Node} {v : Json} {rest : AfterItem} (hvalue : value.Denotes v) :
    Change.read levels (.list start (.item value rest)) = .ok c ↔ levels ≠ 0 ∧
      (Items.item value rest).read (readAny (levels - 1)) true = .ok (c.strings.map .string) := by
  have htag : ∀ kind, ChangeKind.readTag value = .ok kind ↔
      readAny (levels - 1) value = .ok (.string kind.name) := by
    intro kind
    have hstring : Json.depth (.string kind.name) ≤ levels - 1 := Nat.zero_le _
    constructor
    · intro h
      obtain rfl := (ChangeKind.readTag_decides levels).sound hvalue h
      exact (readAny_decides _).complete hvalue hstring (.string _)
    · intro h
      obtain rfl := isFound_string_iff.mp ((readAny_decides _).sound hvalue h)
      exact (ChangeKind.readTag_decides (levels - 1)).complete hvalue hstring rfl
  refine opened_eq_ok_iff.trans (and_congr_right fun _ => ?_)
  rw [Items.read_item_iff]
  show (ChangeKind.readTag value >>= fun kind => rest.read (readAny (levels - 1)) >>=
    kind.ofItems) = _ ↔ _
  simp only [bind_eq_ok_iff, htag, ChangeKind.ofItems_eq_ok_iff]
  constructor
  · rintro ⟨_, hkind, founds, hfounds, rfl, rfl⟩
    exact ⟨_, _, hkind, hfounds, rfl⟩
  · rintro ⟨_, _, hkind, hfounds, h⟩
    obtain ⟨rfl, rfl⟩ := List.cons.inj h
    exact ⟨c.kind, hkind, _, hfounds, rfl, rfl⟩

theorem read_list_iff {items : Items} {vs : List Json} (hitems : items.Denote vs) :
    Change.read levels (.list start items) = .ok c ↔ levels ≠ 0 ∧
      items.read (readAny (levels - 1)) true = .ok (c.strings.map .string) := by
  cases hitems with
  | last stop hvalue => exact read_item_iff hvalue
  | cons comma hvalue hrest => exact read_item_iff hvalue

/-- A change is read exactly from the values that describe it. -/
theorem read_decides (levels : Nat) : Decides levels (Change.read levels) Described where
  sound {node v c} hnode hread := by
    cases hnode with
    | emptyList start stop =>
      obtain ⟨-, hread⟩ := opened_eq_ok_iff.mp hread
      cases hread
    | list start hitems =>
      obtain ⟨-, hread⟩ := (read_list_iff hitems).mp hread
      exact forall₂_isFound_strings_iff.mp (hitems.read_sound (readAny_decides _) hread)
    | emptyObject start stop =>
      obtain ⟨-, seen, ⟨_, hvisit⟩, hseen⟩ := read_object_iff.mp hread
      have hsees := TaggedMembers.sees_of_visits .nil (Members.visits _ hvisit)
      exact described_object_iff.mpr ⟨seen, hsees, hseen⟩
    | object start hmembers =>
      obtain ⟨-, seen, ⟨_, hvisit⟩, hseen⟩ := read_object_iff.mp hread
      have hsees := TaggedMembers.sees_of_visits hmembers.nodes (Members.visits _ hvisit)
      exact described_object_iff.mpr ⟨seen, hsees, hseen⟩
    | _ => cases hread
  complete {node v c} hnode hdepth hv := by
    cases hnode with
    | emptyList start stop => cases (show [] = c.strings.map Json.string from hv)
    | list start hitems =>
      rw [depth] at hdepth
      have hread := hitems.read_complete (readAny_decides (levels - 1)) (by omega) true
        (forall₂_isFound_strings_iff.mpr hv)
      exact (read_list_iff hitems).mpr ⟨by omega, hread⟩
    | emptyObject start stop =>
      rw [depth] at hdepth
      obtain ⟨seen, hsees, hseen⟩ := described_object_iff.mp hv
      obtain rfl : seen = {} := TaggedMembers.visits_of_sees .nil (Nat.zero_le levels) hsees
      exact read_object_iff.mpr ⟨by omega, {}, ⟨stop + 1, rfl⟩, hseen⟩
    | object start hmembers =>
      rw [depth] at hdepth
      obtain ⟨seen, hsees, hseen⟩ := described_object_iff.mp hv
      have hvisits := TaggedMembers.visits_of_sees hmembers.nodes
        (by omega : _ ≤ levels - 1) hsees
      exact read_object_iff.mpr ⟨by omega, seen, hmembers.visit_complete true hvisits, hseen⟩
    | _ => exact hv.elim

end Change

end SchemaNormal
