import SchemaNormal.Json.Node

/-!
# Strings, character by character

`OpenString` is a string of which only a beginning has been seen. One step takes one more character
and either goes on, closes the string, or breaks it off.

Escapes spell UTF-16 units. A string with half of a surrogate pair has a fault for readers but is
not broken: scanning goes on, and the first such fault takes the place of the content.
-/

namespace SchemaNormal.Json

/-- Where in a string the next character stands. -/
inductive StringPlace where
  | plain
  | escape
  /-- Among the four bytes that should be hexadecimal digits and start at `start`. `value` is what
  the digits so far spell, unless one of them is no digit; `high` is the first half of a surrogate
  pair, if one came right before. -/
  | unit (start : Nat) (value : Option Nat) (high : Option Nat)
  /-- After the first half of a surrogate pair. -/
  | high (unit : Nat)
  /-- After the first half of a surrogate pair and a backslash. -/
  | highEscape (unit : Nat)

/-- A string of which only a beginning has been seen. -/
structure OpenString where
  start : Nat
  /-- The characters so far, the latest first. -/
  chars : List Char := []
  /-- The first fault that a reader meets. -/
  fault : Option Fault := none
  place : StringPlace := .plain

/-- The outcome of a step in a token. -/
inductive TokenStep (Open Closed : Type) where
  | more (token : Open)
  | closed (token : Closed)
  | broken (fault : Break)

namespace OpenString

def hexDigit? (c : Char) : Option Nat :=
  if '0' ≤ c ∧ c ≤ '9' then some (c.toNat - 48)
  else if 'a' ≤ c ∧ c ≤ 'f' then some (c.toNat - 87)
  else if 'A' ≤ c ∧ c ≤ 'F' then some (c.toNat - 55)
  else none

/-- The character of an escape of two characters. -/
def shortEscape? : Char → Option Char
  | '"' => some '"'
  | '\\' => some '\\'
  | '/' => some '/'
  | 'b' => some '\x08'
  | 'f' => some '\x0c'
  | 'n' => some '\n'
  | 'r' => some '\r'
  | 't' => some '\t'
  | _ => none

def isHighSurrogate (unit : Nat) : Bool :=
  0xD800 ≤ unit && unit < 0xDC00

def isLowSurrogate (unit : Nat) : Bool :=
  0xDC00 ≤ unit && unit < 0xE000

/-- The code point of a surrogate pair. -/
def joinSurrogates (high low : Nat) : Nat :=
  0x10000 + (high - 0xD800) * 0x400 + (low - 0xDC00)

/-- Notes a fault that does not break the string off; an earlier one stays. -/
def note (s : OpenString) (cause : Cause) (offset : Nat) : OpenString :=
  { s with fault := s.fault <|> some (.at cause offset) }

/-- Breaks the string off. A reader meets an earlier fault first. -/
def breakOff (s : OpenString) (read skip : Fault) : Break :=
  { read := s.fault.getD read, skip }

def push (s : OpenString) (c : Char) : OpenString :=
  { s with chars := c :: s.chars, place := .plain }

/-- The closing quote: the content, or the fault in its place. -/
def content (s : OpenString) : Except Fault String :=
  match s.fault with
  | some fault => .error fault
  | none => .ok (String.ofList s.chars.reverse)

/-- A whole unit has been spelled; `offset` is where its digits end. -/
def takeUnit (s : OpenString) (high : Option Nat) (unit offset : Nat) : OpenString :=
  match high with
  | some first =>
      if isLowSurrogate unit then s.push (Char.ofNat (joinSurrogates first unit))
      else { s.note .loneSurrogate offset with place := .plain }
  | none =>
      if isHighSurrogate unit then { s with place := .high unit }
      else if isLowSurrogate unit then { s.note .loneSurrogate offset with place := .plain }
      else s.push (Char.ofNat unit)

/-- A character that does not belong to an escape. -/
def stepPlain (s : OpenString) (offset : Nat) (c : Char) :
    TokenStep OpenString (Except Fault String) :=
  if c = '"' then .closed s.content
  else if c = '\\' then .more { s with place := .escape }
  else if c.toNat < 32 then
    .broken (s.breakOff (.at .controlCharacter (offset + 1)) (.at .controlCharacter offset))
  else .more (s.push c)

/-- The character after a backslash. -/
def stepEscape (s : OpenString) (offset : Nat) (c : Char) :
    TokenStep OpenString (Except Fault String) :=
  if c = 'u' then .more { s with place := .unit (offset + 1) (some 0) none }
  else
    match shortEscape? c with
    | some c' => .more (s.push c')
    | none =>
        let fault := Fault.at .invalidEscape (offset + 1)
        .broken (s.breakOff fault fault)

/-- A character among the four bytes of a unit. -/
def stepUnit (s : OpenString) (start : Nat) (value high : Option Nat) (offset : Nat) (c : Char) :
    TokenStep OpenString (Except Fault String) :=
  let value := value.bind fun v => (hexDigit? c).map fun d => v * 16 + d
  if offset + c.utf8Size < start + 4 then .more { s with place := .unit start value high }
  else
    match value with
    | some unit => .more (s.takeUnit high unit (start + 4))
    | none =>
        let fault := Fault.at .invalidEscape (start + 4)
        .broken (s.breakOff fault fault)

/-- One more character, at `offset`. -/
def step (s : OpenString) (offset : Nat) (c : Char) : TokenStep OpenString (Except Fault String) :=
  match s.place with
  | .plain => s.stepPlain offset c
  | .escape => s.stepEscape offset c
  | .unit start value high => s.stepUnit start value high offset c
  | .high unit =>
      if c = '\\' then .more { s with place := .highEscape unit }
      else (s.note .brokenSurrogatePair (offset + 1)).stepPlain offset c
  | .highEscape unit =>
      if c = 'u' then .more { s with place := .unit (offset + 1) (some 0) (some unit) }
      else (s.note .brokenSurrogatePair (offset + 1)).stepEscape offset c

/-- The text ends inside the string. -/
def ended (s : OpenString) (offset : Nat) : Break :=
  s.breakOff (.at .stringEnds offset) (.at .stringEnds offset)

end OpenString

end SchemaNormal.Json
