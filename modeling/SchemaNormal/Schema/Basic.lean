/-!
# Schema files

A schema file holds messages and enums. Messages nest: each owns fields, further messages and
enums. The order of siblings is part of the value, so two definitions are the same only when they
agree in every name, index and label, and in the order of everything they hold.

`Message.same` compares two definitions in that sense; `Message.same_iff` says that it decides
equality.
-/

namespace SchemaNormal

/-- How often a field may occur. -/
inductive FieldLabel where
  | optional
  | required
  | repeated
deriving DecidableEq, Repr, Inhabited

structure MessageField where
  label : Option FieldLabel := none
  typeName : String
  name : String
  index : UInt32
deriving DecidableEq, Repr, Inhabited

/-- A named constant of an enum. -/
structure EnumValue where
  name : String
  index : Int32
deriving DecidableEq, Repr, Inhabited

structure Enum where
  name : String
  values : List EnumValue := []
deriving DecidableEq, Repr, Inhabited

/-- A message with its fields and with the messages and enums declared inside it. -/
structure Message where
  name : String
  fields : List MessageField := []
  messages : List Message := []
  enums : List Enum := []
deriving Repr, Inhabited

structure File where
  package : Option String := none
  messages : List Message := []
  enums : List Enum := []
deriving Repr, Inhabited

/-- Some value of the enum has index 0. -/
def Enum.hasZero (e : Enum) : Bool :=
  e.values.any (·.index = 0)

/-! ## Equality of definitions -/

namespace Message

mutual

/-- Both messages agree in everything they hold, at every depth and in order. -/
def same : Message → Message → Bool
  | ⟨name, fields, messages, enums⟩, ⟨name', fields', messages', enums'⟩ =>
      name == name' && fields == fields' && sameAll messages messages' && enums == enums'

/-- Both lists hold the same messages in the same order. -/
def sameAll : List Message → List Message → Bool
  | [], [] => true
  | a :: as, b :: bs => same a b && sameAll as bs
  | _, _ => false

end

mutual

theorem same_iff : ∀ a b : Message, same a b = true ↔ a = b
  | ⟨_, _, messages, _⟩, ⟨_, _, messages', _⟩ => by
    simp [same, sameAll_iff messages messages', and_assoc]

theorem sameAll_iff : ∀ as bs : List Message, sameAll as bs = true ↔ as = bs
  | [], [] => by simp [sameAll]
  | [], _ :: _ => by simp [sameAll]
  | _ :: _, [] => by simp [sameAll]
  | a :: as, b :: bs => by simp [sameAll, same_iff a b, sameAll_iff as bs]

end

instance : DecidableEq Message := fun a b => decidable_of_iff _ (same_iff a b)

end Message

deriving instance DecidableEq for File

end SchemaNormal
