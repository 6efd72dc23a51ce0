import SchemaNormal.Proofs.Json.Description
import SchemaNormal.Schema.Basic

/-!
# Which values describe a schema file

The format of schema files, said of plain values.  A definition is a record, and an index is an
integer in its plain spelling.
-/

namespace SchemaNormal

open Json

def FieldLabel.Described : FieldLabel → Json → Prop
  | .optional => IsName "optional"
  | .required => IsName "required"
  | .repeated => IsName "repeated"

def MessageField.entries (field : MessageField) : List (Entry Json) :=
  [nullableEntry "label" FieldLabel.Described field.label,
    required "type_name" (· = .string field.typeName), required "name" (· = .string field.name),
    required "index" (· = .ofInt field.index.toNat)]

def MessageField.Described (field : MessageField) : Json → Prop :=
  IsRecord field.entries

def EnumValue.entries (value : EnumValue) : List (Entry Json) :=
  [required "name" (· = .string value.name), required "index" (· = .ofInt value.index.toInt)]

def EnumValue.Described (value : EnumValue) : Json → Prop :=
  IsRecord value.entries

def Enum.entries (e : Enum) : List (Entry Json) :=
  [required "name" (· = .string e.name), listEntry "fields" EnumValue.Described e.values]

def Enum.Described (e : Enum) : Json → Prop :=
  IsRecord e.entries

namespace Message

mutual

def Described : Message → Json → Prop
  | ⟨name, fields, messages, enums⟩ =>
      IsRecord [required "name" (· = .string name),
        listEntry "fields" MessageField.Described fields,
        ⟨"messages", fun v => v.elim (messages = []) fun v =>
          ∃ vs, v = .list vs ∧ AllDescribed messages vs⟩,
        listEntry "enums" Enum.Described enums]

/-- The values describe the messages one by one. -/
def AllDescribed : List Message → List Json → Prop
  | [], vs => vs = []
  | m :: ms, vs => ∃ v ws, vs = v :: ws ∧ Described m v ∧ AllDescribed ms ws

end

theorem allDescribed_iff {ms : List Message} {vs : List Json} :
    AllDescribed ms vs ↔ List.Forall₂ Described ms vs := by
  induction ms generalizing vs with
  | nil => exact List.forall₂_nil_left_iff.symm
  | cons m ms ih =>
    rw [AllDescribed, List.forall₂_cons_left_iff]
    constructor
    · rintro ⟨v, ws, rfl, hv, hws⟩
      exact ⟨v, ws, hv, ih.mp hws, rfl⟩
    · rintro ⟨v, ws, hv, hws, rfl⟩
      exact ⟨v, ws, rfl, hv, ih.mpr hws⟩

def entries (m : Message) : List (Entry Json) :=
  [required "name" (· = .string m.name), listEntry "fields" MessageField.Described m.fields,
    listEntry "messages" Described m.messages, listEntry "enums" Enum.Described m.enums]

/-- A message is a record in which the messages inside it are a list like the others. -/
theorem described_eq (m : Message) : m.Described = IsRecord m.entries := by
  obtain ⟨name, fields, messages, enums⟩ := m
  have hmessages : (fun v => ∃ vs, v = .list vs ∧ AllDescribed messages vs) =
      IsListOf Described messages := by
    funext v
    simp only [IsListOf, allDescribed_iff]
  rw [Described, hmessages]
  rfl

end Message

def File.entries (file : File) : List (Entry Json) :=
  [nullableEntry "package" (fun package v => v = .string package) file.package,
    listEntry "messages" Message.Described file.messages,
    listEntry "enums" Enum.Described file.enums]

def File.Described (file : File) : Json → Prop :=
  IsRecord file.entries

end SchemaNormal
