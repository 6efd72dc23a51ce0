import SchemaNormal.Format.Schema
import SchemaNormal.Proofs.Format.Described
import SchemaNormal.Proofs.Json.Records

/-!
# Reading schema files

Every reader of the format decides what its values describe; `File.read_decides` says so of files.
-/

namespace SchemaNormal

open Json

/-! ## Kinds of fields -/

namespace Json

variable {α β : Type} {levels : Nat}

/-- What is read is only put into another form. -/
theorem Decides.map {read : Reader α} {f : α → β} {Describes : β → Json → Prop}
    (h : Decides levels read fun x v => Describes (f x) v) (hf : Function.Surjective f) :
    Decides levels (fun node => (read node).map f) Describes where
  sound hnode hread := by
    obtain ⟨x, hx, rfl⟩ := map_eq_ok_iff.mp hread
    exact h.sound hnode hx
  complete {node v y} hnode hdepth hv := by
    obtain ⟨x, rfl⟩ := hf y
    exact map_eq_ok_iff.mpr ⟨x, h.complete hnode hdepth hv, rfl⟩

theorem field_decides_required {name : String} {read : Reader α} {Describes : α → Json → Prop}
    (h : Decides levels read Describes) :
    Field.Decides levels ⟨name, α, read, none⟩ fun x => required name (Describes x) where
  key _ := rfl
  absent _ := ⟨False.elim, nofun⟩
  reads := h

theorem stringField_decides (name : String) :
    (stringField name).Decides levels fun s => required name (· = .string s) :=
  field_decides_required (readString_decides levels "a string")

theorem listField_decides {item : Reader α} {Describes : α → Json → Prop} (name : String)
    (h : Decides (levels - 1) item Describes) :
    (listField levels name item).Decides levels (listEntry name Describes) where
  key _ := rfl
  absent _ := eq_comm.trans Option.some_inj.symm
  reads := readList_decides h

theorem defaultField_decides {read : Reader α} {Describes : α → Json → Prop} (name : String)
    (default : α) (h : Decides levels read Describes) :
    Field.Decides levels ⟨name, α, read, some default⟩ (defaultEntry name default Describes) where
  key _ := rfl
  absent _ := eq_comm.trans Option.some_inj.symm
  reads := h

theorem nullableField_decides {read : Reader α} {Describes : α → Json → Prop} (name : String)
    (h : Decides levels read Describes) (hnull : ∀ x, ¬ Describes x .null) :
    Field.Decides levels ⟨name, Option α, readOptional read, some none⟩
      (nullableEntry name Describes) where
  key _ := rfl
  absent _ := eq_comm.trans Option.some_inj.symm
  reads := readOptional_decides h hnull

end Json

/-! ## Definitions -/

theorem FieldLabel.described_eq (label : FieldLabel) : label.Described = IsName label.name := by
  cases label <;> rfl

theorem FieldLabel.name_injective : Function.Injective FieldLabel.name := by
  intro label label' h
  cases label <;> cases label' <;> revert h <;> decide

theorem FieldLabel.read_decides (levels : Nat) :
    Decides levels (FieldLabel.read levels) FieldLabel.Described := by
  have hall : ∀ label, label ∈ [FieldLabel.optional, .required, .repeated] := by
    intro label
    cases label <;> decide
  rw [funext FieldLabel.described_eq]
  exact readName_map_decides levels hall name_injective

theorem FieldLabel.not_described_null (label : FieldLabel) : ¬ label.Described .null := by
  rw [described_eq]
  rintro (h | h) <;> cases h

theorem MessageField.nodup_names (levels : Nat) :
    ((MessageField.shape levels).map (·.name)).Nodup := by
  show ["label", "type_name", "name", "index"].Nodup
  decide

theorem MessageField.read_decides (levels : Nat) :
    Decides levels (MessageField.read levels) MessageField.Described := by
  have hshape : Decided (levels - 1) (MessageField.shape (levels - 1)) _ :=
    .cons (nullableField_decides "label" (FieldLabel.read_decides _) FieldLabel.not_described_null)
      (.cons (stringField_decides "type_name") (.cons (stringField_decides "name")
        (.cons (field_decides_required (readUInt32_decides _)) .nil)))
  refine Decides.map (readRecord_decides (MessageField.nodup_names _) hshape) fun field => ?_
  exact ⟨(field.label, field.typeName, field.name, field.index, ()), rfl⟩

theorem EnumValue.nodup_names : (EnumValue.shape.map (·.name)).Nodup := by
  show ["name", "index"].Nodup
  decide

theorem EnumValue.read_decides (levels : Nat) :
    Decides levels (EnumValue.read levels) EnumValue.Described := by
  have hshape : Decided (levels - 1) EnumValue.shape _ :=
    .cons (stringField_decides "name") (.cons (field_decides_required (readInt32_decides _)) .nil)
  refine Decides.map (readRecord_decides EnumValue.nodup_names hshape) fun value => ?_
  exact ⟨(value.name, value.index, ()), rfl⟩

theorem Enum.nodup_names (levels : Nat) : ((Enum.shape levels).map (·.name)).Nodup := by
  show ["name", "fields"].Nodup
  decide

theorem Enum.read_decides (levels : Nat) :
    Decides levels (Enum.read levels) Enum.Described := by
  have hshape : Decided (levels - 1) (Enum.shape (levels - 1)) _ :=
    .cons (stringField_decides "name")
      (.cons (listField_decides "fields" (EnumValue.read_decides _)) .nil)
  refine Decides.map (readRecord_decides (Enum.nodup_names _) hshape) fun e => ?_
  exact ⟨(e.name, e.values, ()), rfl⟩

theorem Message.nodup_names (levels : Nat) (nested : Reader Message) :
    ((Message.shape levels nested).map (·.name)).Nodup := by
  show ["name", "fields", "messages", "enums"].Nodup
  decide

/-- A message is read by means of a reader for messages two brackets deeper. -/
theorem Message.readWith_decides {levels : Nat} {nested : Reader Message}
    (h : Decides (levels - 2) nested Message.Described) :
    Decides levels (Message.readWith levels nested) Message.Described := by
  have hshape : Decided (levels - 1) (Message.shape (levels - 1) nested) _ :=
    .cons (stringField_decides "name")
      (.cons (listField_decides "fields" (MessageField.read_decides _))
        (.cons (listField_decides "messages" h)
          (.cons (listField_decides "enums" (Enum.read_decides _)) .nil)))
  -- `hshape` is about the messages inside as one more list
  rw [funext Message.described_eq]
  refine Decides.map (readRecord_decides (Message.nodup_names _ _) hshape) ?_
  intro m
  obtain ⟨name, fields, messages, enums⟩ := m
  exact ⟨(name, fields, messages, enums, ()), rfl⟩

/-- Every message needs a bracket. -/
theorem Message.unread_decides :
    Decides 0 (fun node => .error (tooDeepAt node.start)) Message.Described where
  sound _ h := nomatch h
  complete {node v m} _ hdepth hv := by
    rw [Message.described_eq] at hv
    -- what describes a message is a bracket, and a bracket has a depth
    cases v with
    | object ms =>
      rw [depth] at hdepth
      omega
    | list vs =>
      rw [depth] at hdepth
      omega
    | _ => exact hv.elim

theorem Message.read_decides : ∀ levels : Nat,
    Decides levels (Message.read levels) Message.Described
  -- no level is left for messages inside, whose brackets would be the second and the third
  | 0 | 1 => Message.readWith_decides Message.unread_decides
  | levels + 2 => Message.readWith_decides (Message.read_decides levels)

theorem File.nodup_names (levels : Nat) : ((File.shape levels).map (·.name)).Nodup := by
  show ["package", "messages", "enums"].Nodup
  decide

/-- A file is read exactly from the values that describe it. -/
theorem File.read_decides (levels : Nat) :
    Decides levels (File.read levels) File.Described := by
  have hshape : Decided (levels - 1) (File.shape (levels - 1)) _ :=
    .cons (nullableField_decides "package" (readString_decides _ _) nofun)
      (.cons (listField_decides "messages" (Message.read_decides _))
        (.cons (listField_decides "enums" (Enum.read_decides _)) .nil))
  refine Decides.map (readRecord_decides (File.nodup_names _) hshape) fun file => ?_
  exact ⟨(file.package, file.messages, file.enums, ()), rfl⟩

end SchemaNormal
