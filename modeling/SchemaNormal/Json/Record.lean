import SchemaNormal.Json.Reader

/-!
# Records

A record is read by the names of its fields, in any order and among other members, or from a list
by the order of its fields. A field that may be absent has a value for that case. The shape of a
record is its list of typed fields; its values are a tuple with one component for each field.
-/

namespace SchemaNormal.Json

structure Field where
  name : String
  Value : Type
  read : Reader Value
  /-- What an absent field stands for; a field without it is required. -/
  absent : Option Value := none

/-- One value for each field. -/
def Values : List Field → Type
  | [] => Unit
  | field :: fields => field.Value × Values fields

/-- For each field the value that has been read, if any. -/
def Slots : List Field → Type
  | [] => Unit
  | field :: fields => Option field.Value × Slots fields

/-- No field has been read. -/
def Slots.empty : (fields : List Field) → Slots fields
  | [] => ()
  | _ :: fields => (none, empty fields)

/-- What becomes of the member `key`, given the fields read so far. -/
def Slots.visit : (fields : List Field) → Slots fields → String → Visit (Slots fields)
  | [], _, _ => .skip
  | field :: fields, (slot, slots), key =>
      if field.name = key then
        if slot.isSome then .repeated
        else .read fun node => (field.read node).map fun v => (some v, slots)
      else
        match visit fields slots key with
        | .skip => .skip
        | .repeated => .repeated
        | .read take => .read fun node => (take node).map fun slots => (slot, slots)

/-- The values of all fields, or the name of the first that is required and absent. -/
def Slots.complete : (fields : List Field) → Slots fields → Except String (Values fields)
  | [], _ => .ok ()
  | field :: fields, (slot, slots) =>
      match slot <|> field.absent with
      | none => .error field.name
      | some v => (complete fields slots).map fun vs => (v, vs)

/-! ## Records from lists -/

/-- A place in a list: before its first item or after some item. -/
inductive ListPlace where
  | start (items : Items)
  | after (rest : AfterItem)

/-- What comes next in a list. -/
inductive NextItem where
  | item (value : Node) (rest : AfterItem)
  /-- The list is closed; `stop` is the place behind its bracket. -/
  | closed (stop : Nat)

/-- The next item, if the list does not end here. -/
def ListPlace.next : ListPlace → Except Fault NextItem
  | .start (.close offset) => .ok (.closed (offset + 1))
  | .start (.ended offset) => .error (.at .listEnds offset)
  | .start (.item value rest) => .ok (.item value rest)
  | .after (.close offset) => .ok (.closed (offset + 1))
  | .after (.comma _ (.close offset)) => .error (.at .trailingComma (offset + 1))
  | .after (.comma _ (.ended offset)) => .error (.at .valueEnds offset)
  | .after (.comma _ (.item value rest)) => .ok (.item value rest)
  | .after (.other offset) => .error (.at .expectedListComma (offset + 1))
  | .after (.ended offset) => .error (.at .listEnds offset)

/-- The list has to end here. -/
def ListPlace.finish : ListPlace → Except Fault Unit
  | .start (.close _) | .after (.close _) => .ok ()
  | .start (.ended offset) | .after (.ended offset) => .error (.at .listEnds offset)
  | .start (.item value _) => .error (.at .trailingCharacters (value.start + 1))
  | .after (.comma _ (.close offset)) => .error (.at .trailingComma (offset + 1))
  | .after (.comma _ (.ended offset)) => .error (.at .trailingCharacters offset)
  | .after (.comma _ (.item value _)) => .error (.at .trailingCharacters (value.start + 1))
  | .after (.other offset) => .error (.at .trailingCharacters (offset + 1))

/-- The values of fields that the list has no items for, or the position of the first that is
required. -/
def Values.absent : (fields : List Field) → (position : Nat) → Except Nat (Values fields)
  | [], _ => .ok ()
  | field :: fields, position =>
      match field.absent with
      | none => .error position
      | some v => (absent fields (position + 1)).map fun vs => (v, vs)

/-- Reads fields from the items of a list; `position` items have been read, and messages call the
whole record `expected`. -/
def Values.ofList (expected : String) :
    (fields : List Field) → (position : Nat) → ListPlace → Except Fault (Values fields)
  | [], _, place => place.finish
  | field :: fields, position, place =>
      match place.next with
      | .error fault => .error fault
      | .ok (.closed stop) =>
          match Values.absent (field :: fields) position with
          | .error missing => .error (.at (.wrongLength missing expected) stop)
          | .ok vs => .ok vs
      | .ok (.item value rest) =>
          match field.read value with
          | .error fault => .error fault
          | .ok v => (ofList expected fields (position + 1) (.after rest)).map fun vs => (v, vs)

/-! ## Both forms -/

/-- A number of elements in words. -/
def elements (n : Nat) : String :=
  toString n ++ if n = 1 then " element" else " elements"

/-- Reads a record, which messages call `kind`. -/
def readRecord (levels : Nat) (kind : String) (fields : List Field) : Reader (Values fields)
  | .list start items =>
      if levels = 0 then .error (tooDeepAt start)
      else
        Values.ofList (kind ++ " with " ++ elements fields.length) fields 0 (.start items)
  | .object start members =>
      if levels = 0 then .error (tooDeepAt start)
      else
        match members.visit (Slots.visit fields) true (Slots.empty fields) with
        | .error fault => .error fault
        | .ok (slots, stop) =>
            match slots.complete fields with
            | .error name => .error (.at (.missingField name) stop)
            | .ok vs => .ok vs
  | node => .error (node.wrongType kind)

end SchemaNormal.Json
