import SchemaNormal.Json.Reader
import SchemaNormal.Proofs.Except
import SchemaNormal.Proofs.Json.Description
import SchemaNormal.Proofs.Json.Located

/-!
# Typed reading

A reader decides a description if it reads from a whole node just what the value of the node
describes.  It may refuse a value that nests deeper than the levels it has; all else it gets right.
-/

namespace SchemaNormal.Json

variable {α : Type}

/-- With so many levels the reader reads `x` from a node exactly if its value describes `x`. -/
structure Decides (levels : Nat) (read : Reader α) (Describes : α → Json → Prop) : Prop where
  sound : ∀ {node : Node} {v : Json} {x : α}, node.Denotes v → read node = .ok x → Describes x v
  complete : ∀ {node : Node} {v : Json} {x : α}, node.Denotes v → v.depth ≤ levels →
    Describes x v → read node = .ok x

/-! ## Scalars -/

theorem readString_decides (levels : Nat) (expected : String) :
    Decides levels (readString expected) fun s v => v = .string s where
  sound hnode h := by
    cases hnode <;> cases h
    rfl
  complete hnode _ h := by
    subst h
    cases hnode
    rfl

theorem Numeral.ofInt_natCast (k : Nat) : Numeral.ofInt k = { whole := k } := by
  simp [Numeral.ofInt]

theorem Numeral.ofInt_neg {k : Nat} (h : 0 < k) :
    Numeral.ofInt (-k) = { negative := true, whole := k } := by
  simp [Numeral.ofInt, h]

/-- The integers of 64 bits are read as such from their literals, and from nothing else. -/
theorem Numeral.value_eq_natural_iff (n : Numeral) (k : Nat) :
    n.value = .ok (.natural k) ↔ n = .ofInt k ∧ k < unsignedLimit := by
  rw [ofInt_natCast]
  constructor
  · intro h
    obtain ⟨negative, whole, fraction, exponent⟩ := n
    unfold value at h
    split at h
    · rename_i hwhole
      simp only [isWhole, Bool.and_eq_true, List.isEmpty_iff, Option.isNone_iff_eq_none,
        Bool.not_eq_true', decide_eq_true_eq] at hwhole
      obtain ⟨⟨⟨rfl, rfl⟩, rfl⟩, hlimit⟩ := hwhole
      cases h
      exact ⟨rfl, hlimit⟩
    · split at h
      · cases h
      · split at h <;> cases h
  · rintro ⟨rfl, hlimit⟩
    unfold value
    rw [if_pos (by simpa [isWhole] using hlimit)]

theorem Numeral.value_eq_negative_iff (n : Numeral) (k : Nat) :
    n.value = .ok (.negative k) ↔ n = .ofInt (-k) ∧ 0 < k ∧ k ≤ signedLimit := by
  constructor
  · intro h
    obtain ⟨negative, whole, fraction, exponent⟩ := n
    unfold value at h
    split at h
    · cases h
    · split at h
      · rename_i hwhole
        simp only [isWhole, Bool.and_eq_true, List.isEmpty_iff, Option.isNone_iff_eq_none,
          decide_eq_true_eq] at hwhole
        obtain ⟨⟨⟨⟨rfl, rfl⟩, rfl⟩, hpos⟩, hlimit⟩ := hwhole
        cases h
        rw [ofInt_neg hpos]
        exact ⟨rfl, hpos, hlimit⟩
      · split at h <;> cases h
  · rintro ⟨rfl, hpos, hlimit⟩
    rw [ofInt_neg hpos]
    unfold value
    rw [if_neg (by simp), if_pos (by simpa [isWhole] using ⟨hpos, hlimit⟩)]

theorem Numeral.read_eq_ok_iff (n : Numeral) (stop : Nat) (z : NumberValue) :
    n.read stop = .ok z ↔ n.value = .ok z := by
  unfold read
  cases n.value with
  | ok z' => simp
  | error unread => simp

/-- The integer that a number is, unless it is a double. -/
def NumberValue.integer? : NumberValue → Option Int
  | natural k => some k
  | negative k => some (-k)
  | double _ => none

/-- Both ways in which an integer is held together: one literal for each integer of 64 bits. -/
theorem Numeral.exists_integer_iff (n : Numeral) (k : Int) :
    (∃ z, n.value = .ok z ∧ z.integer? = some k) ↔
      n = .ofInt k ∧ -(signedLimit : Int) ≤ k ∧ k < (unsignedLimit : Int) := by
  have hsigned : (0 : Int) < signedLimit := by decide
  have hunsigned : (0 : Int) < unsignedLimit := by decide
  constructor
  · rintro ⟨z, hz, hk⟩
    cases z with
    | double _ => cases hk
    | natural m =>
      cases hk
      obtain ⟨rfl, hlimit⟩ := (n.value_eq_natural_iff m).mp hz
      exact ⟨rfl, by omega, by omega⟩
    | negative m =>
      cases hk
      obtain ⟨rfl, hpos, hlimit⟩ := (n.value_eq_negative_iff m).mp hz
      exact ⟨rfl, by omega, by omega⟩
  · rintro ⟨rfl, hlow, hhigh⟩
    by_cases hnegative : k < 0
    · obtain ⟨m, rfl⟩ : ∃ m : Nat, k = -m := ⟨k.natAbs, by omega⟩
      have hvalue := ((Numeral.ofInt (-m)).value_eq_negative_iff m).mpr
        ⟨rfl, by omega, by omega⟩
      exact ⟨.negative m, hvalue, rfl⟩
    · obtain ⟨m, rfl⟩ : ∃ m : Nat, k = m := ⟨k.toNat, by omega⟩
      have hvalue := ((Numeral.ofInt m).value_eq_natural_iff m).mpr ⟨rfl, by omega⟩
      exact ⟨.natural m, hvalue, rfl⟩

theorem readInteger_number_iff {expected : String} {convert : Int → Option α} {start stop : Nat}
    {n : Numeral} {x : α} : readInteger expected convert (.number start stop n) = .ok x ↔
      ∃ k, (∃ z, n.value = .ok z ∧ z.integer? = some k) ∧ convert k = some x := by
  simp only [readInteger, ← n.read_eq_ok_iff stop]
  cases n.read stop with
  | error fault => simp
  | ok z =>
    cases z with
    | double _ => simp [NumberValue.integer?]
    | natural k => cases hconvert : convert k <;> simp [NumberValue.integer?, hconvert]
    | negative k => cases hconvert : convert (-k) <;> simp [NumberValue.integer?, hconvert]

/-- An integer of 64 bits is read from its literal, if `convert` accepts it. -/
theorem readInteger_eq_ok_iff {expected : String} {convert : Int → Option α} {node : Node}
    {v : Json} {x : α} (hnode : node.Denotes v) :
    readInteger expected convert node = .ok x ↔
      ∃ k : Int, v = .ofInt k ∧ convert k = some x ∧
        -(signedLimit : Int) ≤ k ∧ k < (unsignedLimit : Int) := by
  cases hnode with
  | number start stop n =>
    rw [readInteger_number_iff]
    refine exists_congr fun k => ?_
    rw [n.exists_integer_iff k, ofInt, Json.number.injEq, and_assoc, and_comm (b := convert k = _)]
  | _ =>
    -- nothing else denotes a literal
    constructor
    · intro h
      cases h
    · rintro ⟨k, hk, -⟩
      cases hk

theorem readUInt32_decides (levels : Nat) :
    Decides levels readUInt32 fun x v => v = .ofInt x.toNat where
  sound hnode h := by
    obtain ⟨k, rfl, hk, -⟩ := (readInteger_eq_ok_iff hnode).mp h
    obtain ⟨⟨hlow, hhigh⟩, hx⟩ := Option.ite_none_right_eq_some.mp hk
    cases hx
    have hsize : k.toNat < UInt32.size := by
      show k.toNat < 0x100000000
      omega
    rw [UInt32.toNat_ofNat_of_lt' hsize, Int.toNat_of_nonneg hlow]
  complete {node v x} hnode _ h := by
    have hlt : x.toNat < 0x100000000 := x.toNat_lt
    have hlimit : (unsignedLimit : Int) = 0x10000000000000000 := rfl
    refine (readInteger_eq_ok_iff hnode).mpr ⟨x.toNat, h, ?_, by omega, by omega⟩
    rw [if_pos (by omega), Int.toNat_natCast, UInt32.ofNat_toNat]

theorem readInt32_decides (levels : Nat) :
    Decides levels readInt32 fun x v => v = .ofInt x.toInt where
  sound hnode h := by
    obtain ⟨k, rfl, hk, -⟩ := (readInteger_eq_ok_iff hnode).mp h
    obtain ⟨⟨hlow, hhigh⟩, hx⟩ := Option.ite_none_right_eq_some.mp hk
    cases hx
    rw [Int32.toInt_ofInt_of_le hlow hhigh]
  complete {node v x} hnode _ h := by
    have hlow := x.le_toInt
    have hhigh := x.toInt_lt
    have hsigned : (signedLimit : Int) = 0x8000000000000000 := rfl
    have hunsigned : (unsignedLimit : Int) = 0x10000000000000000 := rfl
    refine (readInteger_eq_ok_iff hnode).mpr ⟨x.toInt, h, ?_, by omega, by omega⟩
    rw [if_pos (by omega), Int32.ofInt_toInt]

/-! ## Null and lists -/

/-- What stands in a bracket is read if the bracket may be opened. -/
theorem opened_eq_ok_iff {levels start : Nat} {r : Except Fault α} {x : α} :
    (if levels = 0 then .error (tooDeepAt start) else r) = .ok x ↔ levels ≠ 0 ∧ r = .ok x := by
  by_cases hlevels : levels = 0
  · rw [if_pos hlevels]
    exact ⟨nofun, fun h => absurd hlevels h.1⟩
  · rw [if_neg hlevels]
    exact ⟨fun h => ⟨hlevels, h⟩, fun h => h.2⟩

theorem readOptional_decides {levels : Nat} {read : Reader α} {Describes : α → Json → Prop}
    (h : Decides levels read Describes) (hnull : ∀ x, ¬ Describes x .null) :
    Decides levels (readOptional read) (IsNullable Describes) := by
  -- whatever is not null goes to the reader itself
  have hother : ∀ {node : Node} {v : Json}, node.Denotes v → v ≠ .null →
      readOptional read node = (read node).map some := by
    intro node v hnode hv
    cases hnode <;> first | rfl | exact absurd rfl hv
  constructor
  · intro node v x hnode hread
    by_cases hv : v = .null
    · subst hv
      cases hnode
      cases hread
      rfl
    · rw [hother hnode hv] at hread
      obtain ⟨y, hy, rfl⟩ := map_eq_ok_iff.mp hread
      exact h.sound hnode hy
  · intro node v x hnode hdepth hv
    cases x with
    | none =>
      obtain rfl : v = .null := hv
      cases hnode
      rfl
    | some y =>
      have hne : v ≠ .null := by
        rintro rfl
        exact hnull y hv
      rw [hother hnode hne]
      exact map_eq_ok_iff.mpr ⟨y, h.complete hnode hdepth hv, rfl⟩

theorem Items.read_item_iff {item : Reader α} {first : Bool} {value : Node} {rest : AfterItem}
    {xs : List α} : Items.read item first (.item value rest) = .ok xs ↔
      ∃ y ys, item value = .ok y ∧ rest.read item = .ok ys ∧ xs = y :: ys := by
  unfold Items.read
  cases item value with
  | error fault => simp
  | ok y =>
    cases rest.read item with
    | error fault => simp
    | ok ys => simp [eq_comm]

section Items

variable {levels : Nat} {item : Reader α} {Describes : α → Json → Prop}

theorem Items.Denote.read_sound (h : Decides levels item Describes) {items : Items}
    {vs : List Json} (hitems : items.Denote vs) {first : Bool} {xs : List α}
    (hread : items.read item first = .ok xs) : List.Forall₂ Describes xs vs := by
  -- by induction on the values: `items` and what follows an item are of two mutual types
  induction vs generalizing items first xs with
  | nil => cases hitems
  | cons v vs ih =>
    cases hitems with
    | last stop hv =>
      obtain ⟨y, ys, hy, hys, rfl⟩ := Items.read_item_iff.mp hread
      cases hys
      exact .cons (h.sound hv hy) .nil
    | cons comma hv hrest =>
      obtain ⟨y, ys, hy, hys, rfl⟩ := Items.read_item_iff.mp hread
      exact .cons (h.sound hv hy) (ih hrest hys)

theorem Items.Denote.read_complete (h : Decides levels item Describes) {items : Items}
    {vs : List Json} (hitems : items.Denote vs) (hdepth : depthItems vs ≤ levels) (first : Bool)
    {xs : List α} (hxs : List.Forall₂ Describes xs vs) : items.read item first = .ok xs := by
  induction hxs generalizing items first with
  | nil => cases hitems
  | cons hx hxs ih =>
    rw [depthItems] at hdepth
    cases hitems with
    | last stop hv =>
      cases hxs
      exact Items.read_item_iff.mpr ⟨_, [], h.complete hv (by omega) hx, rfl, rfl⟩
    | cons comma hv hrest =>
      exact Items.read_item_iff.mpr
        ⟨_, _, h.complete hv (by omega) hx, ih hrest (by omega) false, rfl⟩

theorem readList_eq_ok_iff {start : Nat} {items : Items} {xs : List α} :
    readList levels item (.list start items) = .ok xs ↔
      levels ≠ 0 ∧ items.read item true = .ok xs :=
  opened_eq_ok_iff

theorem readList_decides (h : Decides (levels - 1) item Describes) :
    Decides levels (readList levels item) (IsListOf Describes) where
  sound {node v xs} hnode hread := by
    cases hnode with
    | emptyList start stop =>
      obtain ⟨-, hread⟩ := readList_eq_ok_iff.mp hread
      cases hread
      exact ⟨[], rfl, .nil⟩
    | list start hitems =>
      obtain ⟨-, hread⟩ := readList_eq_ok_iff.mp hread
      exact ⟨_, rfl, hitems.read_sound h hread⟩
    | _ => cases hread
  complete {node v xs} hnode hdepth hv := by
    obtain ⟨vs, rfl, hxs⟩ := hv
    rw [depth] at hdepth
    -- the list itself takes one level
    have hlevels : ¬ levels = 0 := by omega
    cases hnode with
    | emptyList start stop =>
      cases hxs
      exact readList_eq_ok_iff.mpr ⟨hlevels, rfl⟩
    | list start hitems =>
      exact readList_eq_ok_iff.mpr ⟨hlevels, hitems.read_complete h (by omega) true hxs⟩

mutual

/-- However a text goes on, the values of a list were read from nodes. -/
theorem Items.exists_node {item : Reader α} : ∀ (items : Items) {first : Bool} {xs : List α},
    items.read item first = .ok xs → ∀ x ∈ xs, ∃ node, item node = .ok x
  | .close _, first, xs, h => by
    rw [Items.read] at h
    split at h <;> cases h
    exact nofun
  | .ended _, _, _, h => by
    rw [Items.read] at h
    cases h
  | .item value rest, _, _, h => by
    obtain ⟨y, ys, hy, hys, rfl⟩ := Items.read_item_iff.mp h
    rw [List.forall_mem_cons]
    exact ⟨⟨value, hy⟩, rest.exists_node hys⟩

theorem AfterItem.exists_node {item : Reader α} : ∀ (rest : AfterItem) {xs : List α},
    rest.read item = .ok xs → ∀ x ∈ xs, ∃ node, item node = .ok x
  | .close _, _, h => by
    cases h
    exact nofun
  | .comma _ rest, _, h => rest.exists_node h
  | .other _, _, h
  | .ended _, _, h => by
    rw [AfterItem.read] at h
    cases h

end

theorem exists_node_of_readList {node : Node} {xs : List α}
    (h : readList levels item node = .ok xs) :
    levels ≠ 0 ∧ ∀ x ∈ xs, ∃ node, item node = .ok x := by
  cases node with
  | list start items =>
    obtain ⟨hlevels, hitems⟩ := readList_eq_ok_iff.mp h
    exact ⟨hlevels, items.exists_node hitems⟩
  | _ => cases h

end Items

/-! ## Names -/

theorem nameValue_eq_ok_iff {names : List (String × α)} {name : String} {stop : Nat} {x : α} :
    nameValue names name stop = .ok x ↔ names.lookup name = some x := by
  unfold nameValue
  cases names.lookup name <;> simp

theorem readUnit_eq_ok_iff {node : Node} {v : Json} (hnode : node.Denotes v) :
    readUnit node = .ok () ↔ v = .null := by
  cases hnode <;> simp [readUnit]

theorem readName_object_eq_ok_iff {levels start : Nat} {names : List (String × α)}
    {members : Members} {x : α} : readName levels names (.object start members) = .ok x ↔
      levels ≠ 0 ∧ members.readName names = .ok x :=
  opened_eq_ok_iff

theorem Members.readName_member_iff {names : List (String × α)} {key : String} {keyStop colon : Nat}
    {value : Node} {v : Json} {rest : AfterMember} {x : α} (hvalue : value.Denotes v) :
    (Members.member ⟨.ok key, keyStop⟩ colon value rest).readName names = .ok x ↔
      names.lookup key = some x ∧ v = .null ∧ ∃ stop, rest = .close stop := by
  rw [← readUnit_eq_ok_iff hvalue, ← @nameValue_eq_ok_iff _ names key keyStop x]
  show (nameValue names key keyStop >>= fun y => readUnit value >>= fun _ => _) = _ ↔ _
  cases nameValue names key keyStop with
  | error fault => exact ⟨nofun, nofun⟩
  | ok y =>
    cases readUnit value with
    | error fault => exact ⟨nofun, nofun⟩
    | ok _ =>
      cases rest with
      | close stop => exact ⟨fun h => ⟨h, rfl, stop, rfl⟩, fun h => h.1⟩
      | _ => exact ⟨nofun, nofun⟩

/-- An object is a name if the name is the key of its only member. -/
theorem Members.Denote.readName_eq_ok_iff {names : List (String × α)} {members : Members}
    {ms : List (String × Json)} {x : α} (hmembers : members.Denote ms) :
    members.readName names = .ok x ↔ ∃ name, names.lookup name = some x ∧ ms = [(name, .null)] := by
  cases hmembers with
  | last keyStop colon stop hv =>
    rw [readName_member_iff hv]
    constructor
    · rintro ⟨hname, rfl, -⟩
      exact ⟨_, hname, rfl⟩
    · rintro ⟨name, hname, h⟩
      cases h
      exact ⟨hname, rfl, stop, rfl⟩
  | cons keyStop colon comma hv hrest =>
    rw [readName_member_iff hv]
    constructor
    · rintro ⟨-, -, stop, h⟩
      cases h
    · rintro ⟨name, -, h⟩
      -- nothing can come after the only member
      cases h
      cases hrest

theorem readName_decides (levels : Nat) (names : List (String × α)) :
    Decides levels (readName levels names) fun x v =>
      ∃ name, names.lookup name = some x ∧ IsName name v where
  sound {node v x} hnode hread := by
    cases hnode with
    | string start stop s => exact ⟨s, nameValue_eq_ok_iff.mp hread, .inl rfl⟩
    | emptyObject start stop =>
      obtain ⟨-, hread⟩ := readName_object_eq_ok_iff.mp hread
      cases hread
    | object start hmembers =>
      obtain ⟨-, hread⟩ := readName_object_eq_ok_iff.mp hread
      obtain ⟨name, hname, rfl⟩ := hmembers.readName_eq_ok_iff.mp hread
      exact ⟨name, hname, .inr rfl⟩
    | _ => cases hread
  complete {node v x} hnode hdepth hv := by
    obtain ⟨name, hname, rfl | rfl⟩ := hv
    · cases hnode
      exact nameValue_eq_ok_iff.mpr hname
    · have hlevels : levels ≠ 0 := by
        rw [depth] at hdepth
        omega
      cases hnode with
      | object start hmembers =>
        exact readName_object_eq_ok_iff.mpr
          ⟨hlevels, hmembers.readName_eq_ok_iff.mpr ⟨name, hname, rfl⟩⟩

/-- A table of all values of a type, each under a name of its own, has just the names. -/
theorem lookup_names_iff {toName : α → String} {xs : List α} (hall : ∀ x, x ∈ xs)
    (hinjective : Function.Injective toName) {name : String} {x : α} :
    (xs.map fun x => (toName x, x)).lookup name = some x ↔ name = toName x := by
  have hsound : ∀ {name x}, (xs.map fun x => (toName x, x)).lookup name = some x →
      name = toName x := by
    intro name x h
    obtain ⟨before, after, hnames, -⟩ := List.lookup_eq_some_iff.mp h
    have hmem : (name, x) ∈ xs.map fun x => (toName x, x) := hnames ▸ List.mem_append_cons_self
    obtain ⟨y, -, heq⟩ := List.mem_map.mp hmem
    cases heq
    rfl
  refine ⟨hsound, ?_⟩
  rintro rfl
  cases h : (xs.map fun x => (toName x, x)).lookup (toName x) with
  | none =>
    -- the name of `x` stands in the list, since `x` does
    have hne := List.lookup_eq_none_iff.mp h (toName x, x) (List.mem_map_of_mem (hall x))
    rw [bne_self_eq_false] at hne
    cases hne
  | some y => rw [hinjective (hsound h)]

/-- The names of all values of a type, each of its own, are read as these values. -/
theorem readName_map_decides (levels : Nat) {toName : α → String} {xs : List α}
    (hall : ∀ x, x ∈ xs) (hinjective : Function.Injective toName) :
    Decides levels (readName levels (xs.map fun x => (toName x, x))) fun x =>
      IsName (toName x) := by
  have h := readName_decides levels (xs.map fun x => (toName x, x))
  simp only [lookup_names_iff hall hinjective, exists_eq_left] at h
  exact h

end SchemaNormal.Json
