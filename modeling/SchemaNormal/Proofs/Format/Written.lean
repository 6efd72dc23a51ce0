import SchemaNormal.Proofs.Format.Depth
import SchemaNormal.Proofs.Format.Described
import SchemaNormal.Proofs.Json.Layouts

/-!
# What is written

The JSON form of a schema file describes the file, and every layout of it is a spelling.
-/

namespace SchemaNormal

open Json

namespace Json

variable {α : Type}

theorem valuesUnder_listMember_self (key : String) (f : α → Json) (xs : List α) :
    valuesUnder key (listMember key f xs) = if xs = [] then [] else [ofList f xs] := by
  cases xs with
  | nil => rfl
  | cons x xs =>
    rw [if_neg nofun]
    exact valuesUnder_singleton_self key _

theorem valuesUnder_listMember_of_ne {key key' : String} (h : key' ≠ key) (f : α → Json)
    (xs : List α) : valuesUnder key (listMember key' f xs) = [] := by
  cases xs with
  | nil => rfl
  | cons x xs => exact valuesUnder_singleton_of_ne h _

/-- A list that is only written if it is not empty is what its entry asks for. -/
theorem found_listMember {Describes : α → Json → Prop} {f : α → Json} {xs : List α} (key : String)
    (h : ∀ x ∈ xs, Describes x (f x)) :
    (listEntry key Describes xs).Found (valuesUnder key (listMember key f xs)) := by
  rw [valuesUnder_listMember_self]
  by_cases hxs : xs = []
  · rw [if_pos hxs]
    exact hxs
  · rw [if_neg hxs]
    refine ⟨xs.map f, rfl, ?_⟩
    rw [List.forall₂_map_right_iff, List.forall₂_same]
    exact h

end Json

theorem MessageField.described_toJson (field : MessageField) : field.Described field.toJson := by
  -- a label is written as its name
  have hlabel : ∀ label : FieldLabel, label.Described label.toJson := by
    intro label
    cases label <;> exact Or.inl rfl
  obtain ⟨_ | label, typeName, name, index⟩ := field
  · simp only [Described, entries, IsRecord, toJson, InMembers, List.forall_mem_cons]
    exact ⟨rfl, rfl, rfl, rfl, List.forall_mem_nil _⟩
  · simp only [Described, entries, IsRecord, toJson, InMembers, List.forall_mem_cons]
    exact ⟨hlabel label, rfl, rfl, rfl, List.forall_mem_nil _⟩

theorem EnumValue.described_toJson (value : EnumValue) : value.Described value.toJson := by
  simp only [Described, entries, IsRecord, toJson, InMembers, List.forall_mem_cons]
  exact ⟨rfl, rfl, List.forall_mem_nil _⟩

theorem Enum.described_toJson (e : Enum) : e.Described e.toJson := by
  have hvalues := found_listMember "fields" fun v (_ : v ∈ e.values) => v.described_toJson
  simp only [Described, entries, IsRecord, toJson, InMembers, List.forall_mem_cons]
  refine ⟨?_, hvalues, List.forall_mem_nil _⟩
  show Entry.Found _ (valuesUnder "name" (_ :: _))
  rw [valuesUnder_cons, if_pos rfl, valuesUnder_listMember_of_ne (by decide)]
  rfl

theorem Message.described_toJson (m : Message) : m.Described m.toJson := by
  induction m with
  | mk name fields messages enums ih =>
    have hfields := found_listMember "fields" fun x (_ : x ∈ fields) => x.described_toJson
    have hmessages := found_listMember "messages" ih
    have henums := found_listMember "enums" fun e (_ : e ∈ enums) => e.described_toJson
    -- each key finds its own member, if that is written, and no other one
    rw [described_eq, toJson_eq]
    simp only [entries, IsRecord, InMembers, List.forall_mem_cons, valuesUnder_append, required,
      listEntry] at hfields hmessages henums ⊢
    simp (disch := decide) only [valuesUnder_listMember_of_ne, valuesUnder_singleton_of_ne,
      List.nil_append, List.append_nil]
    exact ⟨rfl, hfields, hmessages, henums, List.forall_mem_nil _⟩

theorem File.described_toJson (f : File) : f.Described f.toJson := by
  have hmessages := found_listMember "messages" fun m (_ : m ∈ f.messages) => m.described_toJson
  have henums := found_listMember "enums" fun e (_ : e ∈ f.enums) => e.described_toJson
  -- a missing package is not written, and then none is found
  obtain ⟨_ | package, messages, enums⟩ := f
  · simp only [Described, entries, IsRecord, toJson, InMembers, List.forall_mem_cons,
      valuesUnder_append, nullableEntry, listEntry] at hmessages henums ⊢
    simp (disch := decide) only [valuesUnder_listMember_of_ne, List.append_nil]
    exact ⟨trivial, hmessages, henums, List.forall_mem_nil _⟩
  · simp only [Described, entries, IsRecord, toJson, InMembers, List.forall_mem_cons,
      valuesUnder_append, nullableEntry, listEntry] at hmessages henums ⊢
    simp (disch := decide) only [valuesUnder_listMember_of_ne, List.append_nil]
    exact ⟨rfl, hmessages, henums, List.forall_mem_nil _⟩

/-! ## Spellings -/

namespace Json

variable {α : Type}

theorem properMembers_append {as bs : List (String × Json)} :
    ProperMembers (as ++ bs) ↔ ProperMembers as ∧ ProperMembers bs := by
  induction as with
  | nil => exact (true_and _).symm ▸ Iff.rfl
  | cons m as ih => rw [List.cons_append, ProperMembers, ProperMembers, ih, and_assoc]

theorem properItems_map {f : α → Json} {xs : List α} (h : ∀ x ∈ xs, (f x).Proper) :
    ProperItems (xs.map f) := by
  induction xs with
  | nil => trivial
  | cons x xs ih =>
    rw [List.forall_mem_cons] at h
    exact ⟨h.1, ih h.2⟩

theorem properMembers_listMember {key : String} {f : α → Json} {xs : List α}
    (h : ∀ x ∈ xs, (f x).Proper) : ProperMembers (listMember key f xs) := by
  cases xs with
  | nil => trivial
  | cons x xs => exact ⟨properItems_map h, trivial⟩

theorem proper_ofInt (n : Int) : (ofInt n).Proper := by
  intro e he
  cases he

end Json

theorem MessageField.proper_toJson (field : MessageField) : field.toJson.Proper := by
  obtain ⟨_ | label, typeName, name, index⟩ := field
  · exact ⟨trivial, trivial, proper_ofInt _, trivial⟩
  · exact ⟨trivial, trivial, trivial, proper_ofInt _, trivial⟩

theorem EnumValue.proper_toJson (value : EnumValue) : value.toJson.Proper :=
  ⟨trivial, proper_ofInt _, trivial⟩

theorem Enum.proper_toJson (e : Enum) : e.toJson.Proper :=
  ⟨trivial, properMembers_listMember fun v _ => v.proper_toJson⟩

theorem Message.proper_toJson (m : Message) : m.toJson.Proper := by
  induction m with
  | mk name fields messages enums ih =>
    have hfields : ProperMembers (listMember "fields" MessageField.toJson fields) :=
      properMembers_listMember fun field _ => field.proper_toJson
    have hmessages : ProperMembers (listMember "messages" toJson messages) :=
      properMembers_listMember ih
    have henums : ProperMembers (listMember "enums" Enum.toJson enums) :=
      properMembers_listMember fun e _ => e.proper_toJson
    rw [toJson_eq]
    show ProperMembers _
    simp only [properMembers_append]
    exact ⟨⟨⟨⟨trivial, trivial⟩, hfields⟩, hmessages⟩, henums⟩

theorem File.proper_toJson (f : File) : f.toJson.Proper := by
  have hpackage : ProperMembers (f.package.map fun package =>
      ("package", Json.string package)).toList := by
    cases f.package with
    | none => trivial
    | some package => exact ⟨trivial, trivial⟩
  have hmessages : ProperMembers (listMember "messages" Message.toJson f.messages) :=
    properMembers_listMember fun m _ => m.proper_toJson
  have henums : ProperMembers (listMember "enums" Enum.toJson f.enums) :=
    properMembers_listMember fun e _ => e.proper_toJson
  show ProperMembers _
  rw [properMembers_append, properMembers_append]
  exact ⟨⟨hpackage, hmessages⟩, henums⟩

end SchemaNormal
