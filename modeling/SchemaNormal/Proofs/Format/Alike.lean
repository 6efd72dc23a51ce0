import Mathlib.Data.List.Nodup
import SchemaNormal.Proofs.Format.Described

/-!
# Order of members and unknown members

In a record that stands in an object neither the order of the members nor a member with another key
matters.  Values that differ in nothing else, at any depth, are alike, and they describe the same.
-/

namespace SchemaNormal

open Json

/-- The records that a schema file is made of. -/
inductive Part where
  | file
  | message
  | field
  | enum
  | value

namespace Part

/-- The keys of a record, in order. -/
def keys : Part → List String
  | file => ["package", "messages", "enums"]
  | message => ["name", "fields", "messages", "enums"]
  | field => ["label", "type_name", "name", "index"]
  | enum => ["name", "fields"]
  | value => ["name", "index"]

/-- The keys under which a record has a list of records. -/
def lists : Part → List (String × Part)
  | file => [("messages", message), ("enums", enum)]
  | message => [("fields", field), ("messages", message), ("enums", enum)]
  | enum => [("fields", value)]
  | field | value => []

/-- Two values that stand for the same part of a file differ only in the order of members and in
members with unknown keys, there or in the records inside. -/
inductive Alike : Part → Json → Json → Prop where
  | refl (part : Part) (v : Json) : Alike part v v
  | symm {part : Part} {v w : Json} : Alike part v w → Alike part w v
  | trans {part : Part} {u v w : Json} : Alike part u v → Alike part v w → Alike part u w
  | order {part : Part} {ms ms' : List (String × Json)} : ms.Perm ms' →
      Alike part (.object ms) (.object ms')
  | unknown {part : Part} {key : String} (v : Json) (ms : List (String × Json)) :
      key ∉ part.keys → Alike part (.object ms) (.object ((key, v) :: ms))
  /-- In a list under a key of an object. -/
  | member {part inner : Part} {key : String} {v w : Json} (as bs : List Json)
      (ms : List (String × Json)) : (key, inner) ∈ part.lists → Alike inner v w →
      Alike part (.object ((key, .list (as ++ v :: bs)) :: ms))
        (.object ((key, .list (as ++ w :: bs)) :: ms))
  /-- In a list at the position of a key. -/
  | position {part inner : Part} {key : String} {v w : Json} {before : List Json}
      (as bs after : List Json) : (key, inner) ∈ part.lists →
      part.keys[before.length]? = some key → Alike inner v w →
      Alike part (.list (before ++ .list (as ++ v :: bs) :: after))
        (.list (before ++ .list (as ++ w :: bs) :: after))

/-- What a part of a file is. -/
def Element : Part → Type
  | file => File
  | message => Message
  | field => MessageField
  | enum => Enum
  | value => EnumValue

def entries : (part : Part) → part.Element → List (Entry Json)
  | file => File.entries
  | message => Message.entries
  | field => MessageField.entries
  | enum => Enum.entries
  | value => EnumValue.entries

/-- The value describes the element. -/
def Describes : (part : Part) → part.Element → Json → Prop
  | file => File.Described
  | message => Message.Described
  | field => MessageField.Described
  | enum => Enum.Described
  | value => EnumValue.Described

theorem describes_eq (part : Part) (x : part.Element) :
    part.Describes x = IsRecord (part.entries x) := by
  cases part with
  | message => exact x.described_eq
  | _ => rfl

theorem map_key_entries (part : Part) (x : part.Element) :
    (part.entries x).map (·.key) = part.keys := by
  cases part <;> rfl

theorem nodup_keys (part : Part) : part.keys.Nodup := by
  cases part <;> decide

theorem exists_listEntry_mem {part inner : Part} {key : String} (h : (key, inner) ∈ part.lists)
    (x : part.Element) : ∃ xs, listEntry key inner.Describes xs ∈ part.entries x := by
  cases part with
  | file =>
    obtain h | h := List.mem_pair.mp h
    · cases h
      exact ⟨x.messages, .tail _ (.head _)⟩
    · cases h
      exact ⟨x.enums, .tail _ (.tail _ (.head _))⟩
  | message =>
    obtain h | h := List.mem_cons.mp h
    · cases h
      exact ⟨x.fields, .tail _ (.head _)⟩
    obtain h | h := List.mem_pair.mp h
    · cases h
      exact ⟨x.messages, .tail _ (.tail _ (.head _))⟩
    · cases h
      exact ⟨x.enums, .tail _ (.tail _ (.tail _ (.head _)))⟩
  | enum =>
    cases List.mem_singleton.mp h
    exact ⟨x.values, .tail _ (.head _)⟩
  | field | value => cases h

/-- Under the key of a list of records the entry is one for such a list. -/
theorem entry_of_mem_lists {part inner : Part} {key : String} (h : (key, inner) ∈ part.lists)
    (x : part.Element) {e : Entry Json} (he : e ∈ part.entries x) (hkey : e.key = key) :
    ∃ xs, e = listEntry key inner.Describes xs := by
  obtain ⟨xs, hxs⟩ := exists_listEntry_mem h x
  -- no two entries of a part have one key
  have hkeys : ((part.entries x).map (·.key)).Nodup := by
    rw [map_key_entries]
    exact part.nodup_keys
  exact ⟨xs, List.inj_on_of_nodup_map hkeys he hxs hkey⟩

end Part

/-! ## Records -/

namespace Json

variable {α : Type} {entries : List (Entry Json)} {v w : Json}

theorem inMembers_unknown_iff {key : String} (hkey : key ∉ entries.map (·.key)) (v : Json)
    (ms : List (String × Json)) :
    InMembers entries ((key, v) :: ms) ↔ InMembers entries ms := by
  refine forall₂_congr fun e he => ?_
  have hne : key ≠ e.key := by
    rintro rfl
    exact hkey (List.mem_map_of_mem he)
  rw [valuesUnder_cons, if_neg hne]

/-- A member may be changed if its entry does not mind. -/
theorem inMembers_head_iff {key : String} {ms : List (String × Json)}
    (h : ∀ e ∈ entries, e.key = key → (e.Admits (some v) ↔ e.Admits (some w))) :
    InMembers entries ((key, v) :: ms) ↔ InMembers entries ((key, w) :: ms) := by
  refine forall₂_congr fun e he => ?_
  rw [valuesUnder_cons, valuesUnder_cons]
  by_cases hkey : key = e.key
  · rw [if_pos hkey, if_pos hkey]
    cases valuesUnder e.key ms with
    | nil => exact h e he hkey.symm
    -- a repeated key keeps the record from being read, whatever its values
    | cons _ _ => exact Iff.rfl
  · rw [if_neg hkey, if_neg hkey]

theorem inOrder_position_iff {before after : List Json}
    (h : ∀ e ∈ entries[before.length]?, e.Admits (some v) ↔ e.Admits (some w)) :
    InOrder entries (before ++ v :: after) ↔ InOrder entries (before ++ w :: after) := by
  induction before generalizing entries with
  | nil =>
    cases entries with
    | nil => exact iff_of_false nofun nofun
    | cons e entries => exact and_congr_left' (h e rfl)
  | cons u before ih =>
    cases entries with
    | nil => exact iff_of_false nofun nofun
    | cons e entries => exact and_congr_right' (ih h)

theorem forall₂_middle_iff {Describes : α → Json → Prop}
    (h : ∀ x, Describes x v ↔ Describes x w) {xs : List α} {as bs : List Json} :
    List.Forall₂ Describes xs (as ++ v :: bs) ↔ List.Forall₂ Describes xs (as ++ w :: bs) := by
  induction as generalizing xs with
  | nil =>
    cases xs with
    | nil => exact iff_of_false nofun nofun
    | cons x xs =>
      rw [List.nil_append, List.nil_append, List.forall₂_cons, List.forall₂_cons, h x]
  | cons a as ih =>
    cases xs with
    | nil => exact iff_of_false nofun nofun
    | cons x xs =>
      rw [List.cons_append, List.cons_append, List.forall₂_cons, List.forall₂_cons, ih]

theorem listEntry_middle_iff {Describes : α → Json → Prop}
    (h : ∀ x, Describes x v ↔ Describes x w) {key : String} {xs : List α} {as bs : List Json} :
    (listEntry key Describes xs).Admits (some (.list (as ++ v :: bs))) ↔
      (listEntry key Describes xs).Admits (some (.list (as ++ w :: bs))) := by
  show (∃ vs, _ ∧ _) ↔ ∃ vs, _ ∧ _
  simp only [Json.list.injEq, exists_eq_left', forall₂_middle_iff h]

end Json

namespace Part

/-- Alike values describe the same. -/
theorem Alike.describes_iff {part : Part} {v w : Json} (h : part.Alike v w) (x : part.Element) :
    part.Describes x v ↔ part.Describes x w := by
  -- by induction on how the values are alike; what changes inside a record is the case of `ih`
  induction h with
  | refl part v => exact Iff.rfl
  | symm _ ih => exact (ih x).symm
  | trans _ _ ih₁ ih₂ => exact (ih₁ x).trans (ih₂ x)
  | @order part ms ms' hms =>
    rw [describes_eq]
    exact ⟨InMembers.perm hms, InMembers.perm hms.symm⟩
  | @unknown part key v ms hkey =>
    rw [describes_eq]
    rw [← map_key_entries part x] at hkey
    exact (inMembers_unknown_iff hkey v ms).symm
  | @member part inner key v w as bs ms hlist _ ih =>
    rw [describes_eq]
    apply inMembers_head_iff
    intro e he hkey
    obtain ⟨xs, rfl⟩ := entry_of_mem_lists hlist x he hkey
    exact listEntry_middle_iff ih
  | @position part inner key v w before as bs after hlist hposition _ ih =>
    rw [describes_eq]
    apply inOrder_position_iff
    intro e he
    -- the entry at the position has the key that is there
    have hkey : e.key = key := by
      rw [← map_key_entries part x, List.getElem?_map, he] at hposition
      exact Option.some.inj hposition
    obtain ⟨xs, rfl⟩ := entry_of_mem_lists hlist x (List.mem_of_getElem? he) hkey
    exact listEntry_middle_iff ih

end Part

end SchemaNormal
