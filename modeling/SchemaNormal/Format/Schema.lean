import SchemaNormal.Json.Record
import SchemaNormal.Json.Writer
import SchemaNormal.Schema.Basic

/-!
# Schema files as JSON

Every definition is an object. Names and indexes are always written; labels, packages and lists only
if they are there. A reader takes a missing list for an empty one and ignores members it does not
know.
-/

namespace SchemaNormal

open Json

/-! ## Writing -/

def FieldLabel.name : FieldLabel → String
  | .optional => "optional"
  | .required => "required"
  | .repeated => "repeated"

def FieldLabel.toJson (label : FieldLabel) : Json :=
  .string label.name

def MessageField.toJson (field : MessageField) : Json :=
  .object ((field.label.map fun label => ("label", label.toJson)).toList
    ++ [("type_name", .string field.typeName), ("name", .string field.name),
      ("index", .ofInt field.index.toNat)])

def EnumValue.toJson (value : EnumValue) : Json :=
  .object [("name", .string value.name), ("index", .ofInt value.index.toInt)]

def Enum.toJson (e : Enum) : Json :=
  .object (("name", .string e.name) :: listMember "fields" EnumValue.toJson e.values)

namespace Message

mutual

def toJson : Message → Json
  | ⟨name, fields, messages, enums⟩ =>
      .object (("name", .string name) :: listMember "fields" MessageField.toJson fields
        ++ (if messages.isEmpty then [] else [("messages", .list (allToJson messages))])
        ++ listMember "enums" Enum.toJson enums)

def allToJson : List Message → List Json
  | [] => []
  | m :: ms => toJson m :: allToJson ms

end

end Message

def File.toJson (file : File) : Json :=
  .object ((file.package.map fun package => ("package", Json.string package)).toList
    ++ listMember "messages" Message.toJson file.messages
    ++ listMember "enums" Enum.toJson file.enums)

/-! ## Reading -/

/-- A field for a list, which may be absent. -/
def listField {α : Type} (levels : Nat) (name : String) (item : Reader α) : Field :=
  { name, Value := List α, read := readList levels item, absent := some [] }

/-- A required field for a string. -/
def stringField (name : String) : Field :=
  { name, Value := String, read := readString "a string" }

def FieldLabel.names : List (String × FieldLabel) :=
  [FieldLabel.optional, .required, .repeated].map fun label => (label.name, label)

def FieldLabel.read (levels : Nat) : Reader FieldLabel :=
  readName levels FieldLabel.names

/-- The fields of a field, inside its brackets. -/
def MessageField.shape (levels : Nat) : List Field :=
  [{ name := "label", Value := Option FieldLabel, read := readOptional (FieldLabel.read levels),
     absent := some none },
   stringField "type_name", stringField "name",
   { name := "index", Value := UInt32, read := readUInt32 }]

def MessageField.read (levels : Nat) : Reader MessageField := fun node =>
  (readRecord levels "struct MessageField" (shape (levels - 1)) node).map
    fun (label, typeName, name, index, _) => { label, typeName, name, index }

/-- The fields of an enum value. -/
def EnumValue.shape : List Field :=
  [stringField "name", { name := "index", Value := Int32, read := readInt32 }]

def EnumValue.read (levels : Nat) : Reader EnumValue := fun node =>
  (readRecord levels "struct EnumField" shape node).map fun (name, index, _) => { name, index }

/-- The fields of an enum, inside its brackets. -/
def Enum.shape (levels : Nat) : List Field :=
  [stringField "name", listField levels "fields" (EnumValue.read (levels - 1))]

def Enum.read (levels : Nat) : Reader Enum := fun node =>
  (readRecord levels "struct Enum" (shape (levels - 1)) node).map
    fun (name, values, _) => { name, values }

/-- The fields of a message, inside its brackets; `nested` reads the messages inside it. -/
def Message.shape (levels : Nat) (nested : Reader Message) : List Field :=
  [stringField "name", listField levels "fields" (MessageField.read (levels - 1)),
   listField levels "messages" nested, listField levels "enums" (Enum.read (levels - 1))]

/-- Reads a message by means of a reader for the messages inside it. -/
def Message.readWith (levels : Nat) (nested : Reader Message) : Reader Message := fun node =>
  (readRecord levels "struct Message" (shape (levels - 1) nested) node).map
    fun (name, fields, messages, enums, _) => { name, fields, messages, enums }

/-- Reads a message. The messages inside it are two brackets deeper; with fewer than two brackets
left none of them is reached. -/
def Message.read : Nat → Reader Message
  | 0 => readWith 0 fun node => .error (tooDeepAt node.start)
  | 1 => readWith 1 fun node => .error (tooDeepAt node.start)
  | levels + 2 => readWith (levels + 2) (Message.read levels)

/-- The fields of a file, inside its brackets. -/
def File.shape (levels : Nat) : List Field :=
  [{ name := "package", Value := Option String, read := readOptional (readString "a string"),
     absent := some none },
   listField levels "messages" (Message.read (levels - 1)),
   listField levels "enums" (Enum.read (levels - 1))]

def File.read (levels : Nat) : Reader File := fun node =>
  (readRecord levels "struct File" (shape (levels - 1)) node).map
    fun (package, messages, enums, _) => { package, messages, enums }

end SchemaNormal
