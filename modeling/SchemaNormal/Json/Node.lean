import SchemaNormal.Json.Fault

/-!
# Values in a text

`Node` is a JSON value as it stands in a text: it knows where its parts are, and it may be broken
off where the text is no JSON. A text has at most one such break, and everything before it is there.
Which fault a break means depends on the reader: one that looks for a typed value words and places
some faults differently from one that only skips. A break in a token carries both faults; elsewhere
the shape itself says what is missing.

A string may be readable when skipped and yet have no content, because it spells half of a
surrogate pair; its content is then the fault.
-/

namespace SchemaNormal.Json

/-- A token that breaks off: the fault for a reader of typed values and the one for skipping. -/
structure Break where
  read : Fault
  skip : Fault

/-- A key of an object and where its closing quote ends. -/
structure Key where
  content : Except Fault String
  stop : Nat

mutual

/-- A value in a text. Offsets count bytes; `stop` is where a token ends. -/
inductive Node where
  | null (start : Nat)
  | bool (start stop : Nat) (value : Bool)
  | number (start stop : Nat) (value : Numeral)
  | string (start stop : Nat) (content : Except Fault String)
  | list (start : Nat) (items : Items)
  | object (start : Nat) (members : Members)
  /-- Not a value: nothing at all, or a token that breaks off after its first character. -/
  | broken (start : Nat) (lead : Option Char) (fault : Break)

/-- What stands after `[`, or after a comma in a list. -/
inductive Items where
  | close (offset : Nat)
  | ended (offset : Nat)
  | item (value : Node) (rest : AfterItem)

/-- What stands after an item of a list. -/
inductive AfterItem where
  | close (offset : Nat)
  | comma (offset : Nat) (rest : Items)
  | other (offset : Nat)
  | ended (offset : Nat)

/-- What stands after `{`, or after a comma in an object. -/
inductive Members where
  | close (offset : Nat)
  | ended (offset : Nat)
  /-- A character that starts no key. -/
  | other (offset : Nat)
  /-- A key that breaks off. -/
  | brokenKey (fault : Break)
  /-- A key without its colon; `seen` is the character in the colon's place. -/
  | bareKey (key : Key) (offset : Nat) (seen : Option Char)
  | member (key : Key) (colon : Nat) (value : Node) (rest : AfterMember)

/-- What stands after a member of an object. -/
inductive AfterMember where
  | close (offset : Nat)
  | comma (offset : Nat) (rest : Members)
  | other (offset : Nat)
  | ended (offset : Nat)

end

/-- Where a value starts. -/
def Node.start : Node → Nat
  | .null start | .bool start _ _ | .number start _ _ | .string start _ _ | .list start _
  | .object start _ | .broken start _ _ => start

/-- A text as one value, and the offset of a character after it that should not be there. -/
structure Document where
  root : Node
  extra : Option Nat := none

/-! ## Skipping -/

mutual

/-- The fault that keeps a value from being skipped, if it has one. -/
def Node.skipFault? : Node → Option Fault
  | .null _ | .bool _ _ _ | .number _ _ _ | .string _ _ _ => none
  | .list _ items => items.skipFault? true
  | .object _ members => members.skipFault? true
  | .broken _ _ fault => some fault.skip

/-- The fault in the rest of a list; `first` if no item came before. -/
def Items.skipFault? (first : Bool) : Items → Option Fault
  | .close offset => if first then none else some (.at .expectedValue (offset + 1))
  | .ended offset => some (.at (if first then .listEnds else .valueEnds) offset)
  | .item value rest => value.skipFault? <|> rest.skipFault?

def AfterItem.skipFault? : AfterItem → Option Fault
  | .close _ => none
  | .comma _ rest => rest.skipFault? false
  | .other offset => some (.at .expectedListComma (offset + 1))
  | .ended offset => some (.at .listEnds offset)

/-- The fault in the rest of an object; `first` if no member came before. -/
def Members.skipFault? (first : Bool) : Members → Option Fault
  | .close offset => if first then none else some (.at .expectedKey (offset + 1))
  | .ended offset => some (.at .objectEnds offset)
  | .other offset => some (.at .expectedKey (offset + 1))
  | .brokenKey fault => some fault.skip
  | .bareKey _ offset none => some (.at .objectEnds offset)
  | .bareKey _ offset (some _) => some (.at .expectedColon (offset + 1))
  | .member _ _ value rest => value.skipFault? <|> rest.skipFault?

def AfterMember.skipFault? : AfterMember → Option Fault
  | .close _ => none
  | .comma _ rest => rest.skipFault? false
  | .other offset => some (.at .expectedObjectComma (offset + 1))
  | .ended offset => some (.at .objectEnds offset)

end

end SchemaNormal.Json
