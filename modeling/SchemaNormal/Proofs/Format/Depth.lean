import SchemaNormal.Format.Schema
import SchemaNormal.Proofs.Json.Description
import SchemaNormal.Proofs.Schema.Members

/-!
# How deeply a written file nests

A definition is an object, and what it holds is two brackets deeper: in a list inside the object.
Lists that are empty are not written and take no bracket.
-/

namespace SchemaNormal

open Json

namespace Json

variable {α : Type} {n : Nat}

theorem depthMembers_append (as bs : List (String × Json)) :
    depthMembers (as ++ bs) = max (depthMembers as) (depthMembers bs) := by
  induction as with
  | nil => exact (Nat.zero_max _).symm
  | cons m as ih =>
    rw [List.cons_append, depthMembers, depthMembers, ih, Nat.max_assoc]

theorem depthItems_map_le_iff {f : α → Json} {xs : List α} :
    depthItems (xs.map f) ≤ n ↔ ∀ x ∈ xs, (f x).depth ≤ n := by
  induction xs with
  | nil => exact iff_of_true (Nat.zero_le n) nofun
  | cons x xs ih => rw [List.map_cons, depthItems, Nat.max_le, ih, List.forall_mem_cons]

theorem forall_mem_const_iff {xs : List α} {p : Prop} : (∀ x ∈ xs, p) ↔ (xs ≠ [] → p) := by
  cases xs with
  | nil => exact iff_of_true nofun nofun
  | cons x xs => exact ⟨fun h _ => h x List.mem_cons_self, fun h _ _ => h nofun⟩

/-- A list takes a bracket of its own unless it is empty. -/
theorem depthMembers_listMember_le_iff {key : String} {f : α → Json} {xs : List α} :
    depthMembers (listMember key f xs) ≤ n ↔ ∀ x ∈ xs, (f x).depth + 1 ≤ n := by
  cases xs with
  | nil => exact iff_of_true (Nat.zero_le n) nofun
  | cons x xs =>
    -- the only member is the list, and its bracket counts because it has an item
    show max (1 + depthItems ((x :: xs).map f)) 0 ≤ n ↔ _
    have hitems : 1 + depthItems ((x :: xs).map f) ≤ n ↔
        1 ≤ n ∧ depthItems ((x :: xs).map f) ≤ n - 1 := by omega
    rw [Nat.max_zero, hitems, depthItems_map_le_iff]
    constructor
    · rintro ⟨hn, h⟩ y hy
      have := h y hy
      omega
    · intro h
      refine ⟨?_, fun y hy => ?_⟩
      · have := h x List.mem_cons_self
        omega
      · have := h y hy
        omega

end Json

theorem EnumValue.depth_toJson (value : EnumValue) : value.toJson.depth = 1 := by
  rfl

theorem MessageField.depth_toJson (field : MessageField) : field.toJson.depth = 1 := by
  obtain ⟨_ | label, typeName, name, index⟩ := field <;> rfl

theorem depth_object_le_iff {ms : List (String × Json)} {n : Nat} :
    (Json.object ms).depth ≤ n ↔ 1 ≤ n ∧ depthMembers ms ≤ n - 1 := by
  rw [depth]
  omega

theorem Enum.depth_toJson_le_iff {e : Enum} {n : Nat} :
    e.toJson.depth ≤ n ↔ 1 ≤ n ∧ (e.values ≠ [] → 3 ≤ n) := by
  have hname : depthMembers [("name", Json.string e.name)] = 0 := rfl
  rw [toJson, depth_object_le_iff, ← List.singleton_append, depthMembers_append, hname,
    Nat.zero_max, depthMembers_listMember_le_iff]
  simp only [EnumValue.depth_toJson, forall_mem_const_iff]
  refine and_congr_right fun hn => imp_congr_right fun _ => ?_
  omega

theorem Enum.one_le_depth_toJson (e : Enum) : 1 ≤ e.toJson.depth :=
  (depth_toJson_le_iff.mp (Nat.le_refl _)).1

/-- An enum without values needs its own bracket only. -/
theorem Enum.depth_toJson (e : Enum) : e.toJson.depth = if e.values = [] then 1 else 3 := by
  apply Nat.le_antisymm
  · rw [depth_toJson_le_iff]
    by_cases hvalues : e.values = []
    · rw [if_pos hvalues]
      exact ⟨Nat.le_refl 1, fun h => absurd hvalues h⟩
    · rw [if_neg hvalues]
      exact ⟨by omega, fun _ => Nat.le_refl 3⟩
  · have h := depth_toJson_le_iff.mp (Nat.le_refl e.toJson.depth)
    split
    · exact h.1
    · exact h.2 ‹_›

namespace Message

theorem allToJson_eq_map (ms : List Message) : allToJson ms = ms.map toJson := by
  induction ms with
  | nil => rfl
  | cons m ms ih => rw [allToJson, ih, List.map_cons]

/-- The messages inside a message are written like any other list. -/
theorem toJson_eq (m : Message) :
    m.toJson = .object ([("name", .string m.name)] ++
      listMember "fields" MessageField.toJson m.fields ++ listMember "messages" toJson m.messages ++
      listMember "enums" Enum.toJson m.enums) := by
  obtain ⟨name, fields, messages, enums⟩ := m
  rw [toJson, allToJson_eq_map]
  rfl

/-- A message nests two brackets deeper than what it holds, and three deep if it has a field. -/
theorem depth_toJson_le_iff {m : Message} {n : Nat} :
    m.toJson.depth ≤ n ↔ 1 ≤ n ∧ (m.fields ≠ [] → 3 ≤ n) ∧
      (∀ a ∈ m.messages, a.toJson.depth + 2 ≤ n) ∧ ∀ e ∈ m.enums, e.toJson.depth + 2 ≤ n := by
  have hname : depthMembers [("name", Json.string m.name)] = 0 := rfl
  rw [toJson_eq, depth_object_le_iff, depthMembers_append, depthMembers_append,
    depthMembers_append, hname, Nat.zero_max, Nat.max_le, Nat.max_le,
    depthMembers_listMember_le_iff, depthMembers_listMember_le_iff,
    depthMembers_listMember_le_iff, and_assoc]
  simp only [MessageField.depth_toJson, forall_mem_const_iff]
  refine and_congr_right fun hn => and_congr ?_ (and_congr ?_ ?_)
  · refine imp_congr_right fun _ => ?_
    omega
  · refine forall₂_congr fun a _ => ?_
    omega
  · refine forall₂_congr fun e _ => ?_
    omega

theorem one_le_depth_toJson (m : Message) : 1 ≤ m.toJson.depth :=
  (depth_toJson_le_iff.mp (Nat.le_refl _)).1

end Message

theorem File.depth_toJson_le_iff {f : File} {n : Nat} :
    f.toJson.depth ≤ n ↔ 1 ≤ n ∧ (∀ m ∈ f.messages, m.toJson.depth + 2 ≤ n) ∧
      ∀ e ∈ f.enums, e.toJson.depth + 2 ≤ n := by
  have hpackage : depthMembers (f.package.map fun package =>
      ("package", Json.string package)).toList = 0 := by
    cases f.package <;> rfl
  rw [toJson, depth_object_le_iff, depthMembers_append, depthMembers_append, hpackage,
    Nat.zero_max, Nat.max_le, depthMembers_listMember_le_iff, depthMembers_listMember_le_iff]
  refine and_congr_right fun hn => and_congr ?_ ?_
  · refine forall₂_congr fun m _ => ?_
    omega
  · refine forall₂_congr fun e _ => ?_
    omega

end SchemaNormal
