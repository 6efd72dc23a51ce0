import SchemaNormal.Json.Scan.OpenNumber

/-!
# From a text to its value

A text is scanned in one pass, one character at a time. What has been opened and not yet closed is
kept as a stack of frames, so nesting costs no more than its own memory. Where the text stops being
JSON, scanning stops: the frames are closed around the break, and what came before it is kept.

`Document.ofText` is the whole scan; it always answers with a document, and the document tells
whether it is broken.
-/

namespace SchemaNormal.Json

/-- A member of an object that has been seen as a whole. -/
structure SeenMember where
  key : Key
  colon : Nat
  value : Node

/-- A bracket that is open, with what it holds so far, the latest first; each offset is that of the
comma after the item or member. -/
inductive Frame where
  | list (start : Nat) (items : List (Node × Nat))
  /-- The value of the last key is still to come. -/
  | object (start : Nat) (members : List (SeenMember × Nat)) (key : Key) (colon : Nat)

/-- The list that ends with `last`. -/
def Node.ofItems (start : Nat) (items : List (Node × Nat)) (last : Items) : Node :=
  .list start (items.foldl (fun rest (value, comma) => .item value (.comma comma rest)) last)

/-- The object that ends with `last`. -/
def Node.ofMembers (start : Nat) (members : List (SeenMember × Nat)) (last : Members) : Node :=
  .object start
    (members.foldl (fun rest (m, comma) => .member m.key m.colon m.value (.comma comma rest)) last)

/-- The value of a bracket whose last part is `value`, with what follows it. -/
def Frame.close (value : Node) (afterItem : AfterItem) (afterMember : AfterMember) : Frame → Node
  | .list start items => .ofItems start items (.item value afterItem)
  | .object start members key colon =>
      .ofMembers start members (.member key colon value afterMember)

/-- The document of a text that breaks off inside `value`: every open bracket ends there. -/
def Document.unwind (offset : Nat) (value : Node) (stack : List Frame) : Document :=
  ⟨stack.foldl (fun value frame => frame.close value (.ended offset) (.ended offset)) value, none⟩

inductive Word where
  | null
  | true
  | false
deriving DecidableEq, Repr

namespace Word

/-- The word that a character starts, and its other characters. -/
def ofChar? : Char → Option (Word × List Char)
  | 'n' => some (.null, ['u', 'l', 'l'])
  | 't' => some (.true, ['r', 'u', 'e'])
  | 'f' => some (.false, ['a', 'l', 's', 'e'])
  | _ => none

/-- The first character of a word. -/
def lead : Word → Char
  | .null => 'n'
  | .true => 't'
  | .false => 'f'

def node (start stop : Nat) : Word → Node
  | .null => .null start
  | .true => .bool start stop Bool.true
  | .false => .bool start stop Bool.false

end Word

def isBlank (c : Char) : Bool :=
  c = ' ' || c = '\t' || c = '\n' || c = '\r'

/-- What has been seen of a text, and what may come next. -/
inductive Scan where
  /-- A value may start. -/
  | value (stack : List Frame)
  /-- Inside a word; `rest` is still to come. -/
  | word (start : Nat) (word : Word) (rest : List Char) (stack : List Frame)
  | number (number : OpenNumber) (stack : List Frame)
  | string (string : OpenString) (stack : List Frame)
  /-- A key may start. -/
  | key (start : Nat) (members : List (SeenMember × Nat)) (stack : List Frame)
  | keyString (string : OpenString) (start : Nat) (members : List (SeenMember × Nat))
      (stack : List Frame)
  | colon (key : Key) (start : Nat) (members : List (SeenMember × Nat)) (stack : List Frame)
  | after (value : Node) (stack : List Frame)
  /-- The text broke off, or went on after its value. -/
  | done (document : Document)

namespace Scan

/-- Breaks off where a value should be. -/
def stray (offset : Nat) (c : Char) (stack : List Frame) : Scan :=
  let fault := Fault.at .expectedValue (offset + 1)
  .done (.unwind offset (.broken offset (some c) ⟨fault, fault⟩) stack)

/-- A character where a value may start. A closing bracket closes a list that is still empty; after
a comma it is kept as the end of the list, for readers to refuse. -/
def stepValue (stack : List Frame) (offset : Nat) (c : Char) : Scan :=
  if isBlank c then .value stack
  else if c = '"' then .string { start := offset } stack
  else if c = '[' then .value (.list offset [] :: stack)
  else if c = '\x7b' then .key offset [] stack
  else if c = '-' then .number (.ofSign offset) stack
  else
    match Digit.ofChar? c, Word.ofChar? c with
    | some d, _ => .number (.ofDigit offset d) stack
    | none, some (w, rest) => .word offset w rest stack
    | none, none =>
        match c, stack with
        | ']', .list start [] :: stack => .after (.list start (.close offset)) stack
        | ']', .list start items :: stack =>
            .done (.unwind offset (.ofItems start items (.close offset)) stack)
        | _, _ => stray offset c stack

/-- A character inside a word. -/
def stepWord (start : Nat) (w : Word) (rest : List Char) (stack : List Frame) (offset : Nat)
    (c : Char) : Scan :=
  match rest with
  | [] => .after (w.node start offset) stack
  | expected :: rest =>
      if c = expected then
        if rest.isEmpty then .after (w.node start (offset + 1)) stack
        else .word start w rest stack
      else
        let fault := Fault.at .expectedWord (offset + 1)
        .done (.unwind offset (.broken start (some w.lead) ⟨fault, fault⟩) stack)

/-- A character where a key may start. -/
def stepKey (start : Nat) (members : List (SeenMember × Nat)) (stack : List Frame) (offset : Nat)
    (c : Char) : Scan :=
  if isBlank c then .key start members stack
  else if c = '"' then .keyString { start := offset } start members stack
  else if c = '\x7d' then
    if members.isEmpty then .after (.object start (.close offset)) stack
    else .done (.unwind offset (.ofMembers start members (.close offset)) stack)
  else .done (.unwind offset (.ofMembers start members (.other offset)) stack)

/-- A character where a colon may stand. -/
def stepColon (k : Key) (start : Nat) (members : List (SeenMember × Nat)) (stack : List Frame)
    (offset : Nat) (c : Char) : Scan :=
  if isBlank c then .colon k start members stack
  else if c = ':' then .value (.object start members k offset :: stack)
  else .done (.unwind offset (.ofMembers start members (.bareKey k offset (some c))) stack)

/-- A character after a value. -/
def stepAfter (v : Node) (stack : List Frame) (offset : Nat) (c : Char) : Scan :=
  if isBlank c then .after v stack
  else
    match stack with
    | [] => .done ⟨v, some offset⟩
    | .list start items :: stack =>
        if c = ',' then .value (.list start ((v, offset) :: items) :: stack)
        else if c = ']' then .after (.ofItems start items (.item v (.close offset))) stack
        else .done (.unwind offset (.ofItems start items (.item v (.other offset))) stack)
    | .object start members k mark :: stack =>
        if c = ',' then .key start ((⟨k, mark, v⟩, offset) :: members) stack
        else if c = '\x7d' then
          .after (.ofMembers start members (.member k mark v (.close offset))) stack
        else
          .done (.unwind offset
            (.ofMembers start members (.member k mark v (.other offset))) stack)

/-- One more character, at `offset`. -/
def step (scan : Scan) (offset : Nat) (c : Char) : Scan :=
  match scan with
  | .value stack => stepValue stack offset c
  | .word start w rest stack => stepWord start w rest stack offset c
  | .number n stack =>
      match n.step offset c with
      | .more n => .number n stack
      | .closed numeral => stepAfter (.number n.start offset numeral) stack offset c
      | .broken fault =>
          let lead := if n.numeral.negative then '-' else '0'
          .done (.unwind offset (.broken n.start (some lead) fault) stack)
  | .string s stack =>
      match s.step offset c with
      | .more s => .string s stack
      | .closed content => .after (.string s.start (offset + 1) content) stack
      | .broken fault => .done (.unwind offset (.broken s.start (some '"') fault) stack)
  | .key start members stack => stepKey start members stack offset c
  | .keyString s start members stack =>
      match s.step offset c with
      | .more s => .keyString s start members stack
      | .closed content => .colon ⟨content, offset + 1⟩ start members stack
      | .broken fault =>
          .done (.unwind offset (.ofMembers start members (.brokenKey fault)) stack)
  | .colon k start members stack => stepColon k start members stack offset c
  | .after v stack => stepAfter v stack offset c
  | .done document => .done document

/-- The text ends at `offset`. -/
def finish (scan : Scan) (offset : Nat) : Document :=
  let missing := Fault.at .valueEnds offset
  match scan with
  | .value (.list start items :: stack) =>
      .unwind offset (.ofItems start items (.ended offset)) stack
  | .value stack => .unwind offset (.broken offset none ⟨missing, missing⟩) stack
  | .word start w _ stack =>
      .unwind offset (.broken start (some w.lead) ⟨missing, missing⟩) stack
  | .number n stack =>
      match n.ended offset with
      | .ok numeral => .unwind offset (.number n.start offset numeral) stack
      | .error fault => .unwind offset (.broken n.start (some '-') fault) stack
  | .string s stack => .unwind offset (.broken s.start (some '"') (s.ended offset)) stack
  | .key start members stack => .unwind offset (.ofMembers start members (.ended offset)) stack
  | .keyString s start members stack =>
      .unwind offset (.ofMembers start members (.brokenKey (s.ended offset))) stack
  | .colon k start members stack =>
      .unwind offset (.ofMembers start members (.bareKey k offset none)) stack
  | .after v stack => .unwind offset v stack
  | .done document => document

/-- Goes on with characters that start at `offset`, to the end of the text. -/
def run (scan : Scan) (offset : Nat) : List Char → Document
  | [] => scan.finish offset
  | c :: cs => run (scan.step offset c) (offset + c.utf8Size) cs

end Scan

/-- The value of a text, as far as it is one. -/
def Document.ofText (text : String) : Document :=
  Scan.run (.value []) 0 text.toList

end SchemaNormal.Json
