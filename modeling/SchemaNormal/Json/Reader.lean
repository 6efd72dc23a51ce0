import SchemaNormal.Json.Scan

/-!
# Reading typed values

A reader takes a value in a text and answers with a value of its type or with the first fault in
reading order. Readers of lists and objects are given the number of brackets that may still be
opened; `Json.levels` is that number for a whole text. Values that are only skipped need no level.
-/

namespace SchemaNormal.Json

/-- How deeply the lists and objects of a text may nest where they are read. -/
def levels : Nat := 127

/-- Reads a value of type `α`. -/
abbrev Reader (α : Type) := Node → Except Fault α

/-- The fault of an opening bracket at `start` that is one too many. -/
def tooDeepAt (start : Nat) : Fault :=
  .at .tooDeep (start + 1)

/-! ## Scalars -/

/-- The value of a number that ends at `stop`. -/
def Numeral.read (n : Numeral) (stop : Nat) : Except Fault NumberValue :=
  match n.value with
  | .ok v => .ok v
  | .error unread => .error (.at .numberOutOfRange (stop - unread))

/-- The fault of a value that is not of the kind `expected`. A scalar is read to its end first and
may have a fault of its own; a bracket is only looked at. -/
def Node.wrongType (expected : String) : Node → Fault
  | .null start => .at (.wrongType .null expected) (start + 4)
  | .bool _ stop b => .at (.wrongType (.bool b) expected) stop
  | .number _ stop n =>
      match n.read stop with
      | .ok v => .at (.wrongType (.number v) expected) stop
      | .error fault => fault
  | .string _ stop content =>
      match content with
      | .ok s => .at (.wrongType (.string s) expected) stop
      | .error fault => fault
  | .list start _ => .at (.wrongType .list expected) start
  | .object start _ => .at (.wrongType .object expected) start
  | .broken _ _ fault => fault.read

/-- Reads a string, which messages call `expected`. -/
def readString (expected : String) : Reader String
  | .string _ _ content => content
  | node => .error (node.wrongType expected)

def readUnit : Reader Unit
  | .null _ => .ok ()
  | node => .error (node.wrongType "unit")

/-- Reads an integer that `convert` accepts. -/
def readInteger {α : Type} (expected : String) (convert : Int → Option α) : Reader α
  | .number start stop n =>
      match n.read stop with
      | .error fault => .error fault
      | .ok (.double _) => .error (Node.wrongType expected (.number start stop n))
      | .ok (.natural k) =>
          match convert k with
          | some v => .ok v
          | none => .error (.at (.wrongValue (.number (.natural k)) expected) stop)
      | .ok (.negative k) =>
          match convert (-(k : Int)) with
          | some v => .ok v
          | none => .error (.at (.wrongValue (.number (.negative k)) expected) stop)
  | node => .error (node.wrongType expected)

def readUInt32 : Reader UInt32 :=
  readInteger "u32" fun n =>
    if 0 ≤ n ∧ n < 0x100000000 then some (UInt32.ofNat n.toNat) else none

def readInt32 : Reader Int32 :=
  readInteger "i32" fun n =>
    if -0x80000000 ≤ n ∧ n < 0x80000000 then some (Int32.ofInt n) else none

/-- Reads null as nothing; any other value, and a word that starts like null, as `read` does. -/
def readOptional {α : Type} (read : Reader α) : Reader (Option α)
  | .null _ => .ok none
  | .broken _ (some 'n') fault => .error fault.read
  | node => (read node).map some

/-! ## Lists -/

/-- Gives a fault without a place the place where its reader stopped. -/
def Fault.settle (fault : Fault) (place : Nat) : Fault :=
  { fault with place := fault.place <|> some place }

/-- Where a list is left after an item that is not accepted: behind its closing bracket, or behind
the next comma and the white space after it. -/
def AfterItem.leave : AfterItem → Nat
  | .close offset => offset + 1
  | .comma _ (.close offset) | .comma _ (.ended offset) => offset
  | .comma _ (.item value _) => value.start
  | .other offset | .ended offset => offset

mutual

/-- Reads the rest of a list; `first` if no item came before. -/
def Items.read {α : Type} (item : Reader α) (first : Bool) : Items → Except Fault (List α)
  | .close offset => if first then .ok [] else .error (.at .trailingComma (offset + 1))
  | .ended offset => .error (.at (if first then .listEnds else .valueEnds) offset)
  | .item value rest =>
      match item value with
      | .error fault => .error (fault.settle rest.leave)
      | .ok v =>
          match rest.read item with
          | .error fault => .error fault
          | .ok vs => .ok (v :: vs)

def AfterItem.read {α : Type} (item : Reader α) : AfterItem → Except Fault (List α)
  | .close _ => .ok []
  | .comma _ rest => rest.read item false
  | .other offset => .error (.at .expectedListComma (offset + 1))
  | .ended offset => .error (.at .listEnds offset)

end

def readList {α : Type} (levels : Nat) (item : Reader α) : Reader (List α)
  | .list start items => if levels = 0 then .error (tooDeepAt start) else items.read item true
  | node => .error (node.wrongType "a sequence")

/-! ## Names -/

/-- The value of a name that was read up to `stop`. -/
def nameValue {α : Type} (names : List (String × α)) (name : String) (stop : Nat) :
    Except Fault α :=
  match names.lookup name with
  | some v => .ok v
  | none => .error (.at (.unknownName name (names.map (·.1))) stop)

/-- Reads a name in the form of an object with one member, whose value is null. -/
def Members.readName {α : Type} (names : List (String × α)) : Members → Except Fault α
  | .close offset => .error (.at .expectedValue (offset + 1))
  | .ended offset => .error (.at .objectEnds offset)
  | .other offset => .error (.at .expectedKey (offset + 1))
  | .brokenKey fault => .error fault.read
  | .bareKey key offset seen => do
      let _ ← nameValue names (← key.content) key.stop
      match seen with
      | none => .error (.at .objectEnds offset)
      | some _ => .error (.at .expectedColon (offset + 1))
  | .member key _ value rest => do
      let v ← nameValue names (← key.content) key.stop
      readUnit value
      match rest with
      | .close _ => .ok v
      | .comma offset _ | .other offset => .error (.at .expectedValue offset)
      | .ended offset => .error (.at .objectEnds offset)

/-- Reads one of some names, as a string or in the form of an object. -/
def readName {α : Type} (levels : Nat) (names : List (String × α)) : Reader α
  | .string _ stop content => do nameValue names (← content) stop
  | .object start members =>
      if levels = 0 then .error (tooDeepAt start) else members.readName names
  | .broken start lead fault =>
      if lead = none ∨ lead = some '"' then .error fault.read
      else .error (.at .expectedValue (start + 1))
  | node => .error (.at .expectedValue (node.start + 1))

/-! ## Members -/

/-- What becomes of a member, by its key: its value is skipped, its key is refused, or its value is
read into a new state. -/
inductive Visit (σ : Type) where
  | skip
  | repeated
  | read (value : Node → Except Fault σ)

mutual

/-- Visits the rest of an object's members, carrying a state; `first` if no member came before.
Answers with the last state and the place behind the closing bracket. -/
def Members.visit {σ : Type} (visitor : σ → String → Visit σ) (first : Bool) :
    Members → σ → Except Fault (σ × Nat)
  | .close offset, s =>
      if first then .ok (s, offset + 1) else .error (.at .trailingComma (offset + 1))
  | .ended offset, _ => .error (.at (if first then .objectEnds else .valueEnds) offset)
  | .other offset, _ => .error (.at .expectedKey (offset + 1))
  | .brokenKey fault, _ => .error fault.read
  | .bareKey key offset seen, s =>
      match key.content with
      | .error fault => .error fault
      | .ok name =>
          match visitor s name, seen with
          | .repeated, some '\x7d' => .error (.at (.repeatedField name) (offset + 1))
          | .repeated, _ => .error (.at (.repeatedField name) offset)
          | _, none => .error (.at .objectEnds offset)
          | _, some _ => .error (.at .expectedColon (offset + 1))
  | .member key colon value rest, s =>
      match key.content with
      | .error fault => .error fault
      | .ok name =>
          match visitor s name with
          | .repeated => .error (.at (.repeatedField name) colon)
          | .skip =>
              match value.skipFault? with
              | some fault => .error fault
              | none => rest.visit visitor s
          | .read take =>
              match take value with
              | .error fault => .error fault
              | .ok s => rest.visit visitor s

def AfterMember.visit {σ : Type} (visitor : σ → String → Visit σ) :
    AfterMember → σ → Except Fault (σ × Nat)
  | .close offset, s => .ok (s, offset + 1)
  | .comma _ rest, s => rest.visit visitor false s
  | .other offset, _ => .error (.at .expectedObjectComma (offset + 1))
  | .ended offset, _ => .error (.at .objectEnds offset)

end

/-! ## Whole texts -/

/-- Reads a text that holds one value and nothing after it. -/
def readText {α : Type} (read : Reader α) (text : String) : Except Fault α :=
  let document := Document.ofText text
  match read document.root, document.extra with
  | .error fault, _ => .error fault
  | .ok v, none => .ok v
  | .ok _, some offset => .error (.at .trailingCharacters (offset + 1))

end SchemaNormal.Json
