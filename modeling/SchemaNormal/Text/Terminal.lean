/-!
# Text without control sequences

Text for a terminal may hold control sequences: an escape character and what follows it, up to a
character that closes the sequence. They colour the text or move the cursor. `visible` is what
remains of a text where nothing but text can be shown.
-/

namespace SchemaNormal.Text

/-- A control sequence that is open. -/
inductive Sequence where
  | escape
  /-- An escape sequence that waits for its last character. -/
  | escapeMiddle
  /-- A sequence opened by a bracket; it waits for its last character. -/
  | control
  /-- A device string before its numbers. -/
  | deviceStart
  /-- A device string in its numbers. -/
  | deviceNumbers
  /-- A device string after its numbers. -/
  | deviceMiddle
  /-- A command to the system around the terminal, up to a bell. -/
  | command
  /-- A string up to the character that ends strings. -/
  | string
deriving DecidableEq, Repr

/-- The character stands between the numbers of a sequence and its last character. -/
def isMiddle (c : Char) : Bool :=
  ' ' ≤ c && c ≤ '/'

/-- The character ends a string: the encoding of the character holds the byte that does. -/
def endsString (c : Char) : Bool :=
  (String.utf8EncodeChar c).contains 0x9C

namespace Sequence

/-- The sequence after a character that is neither an escape nor a cancel character; none if the
character closes it. A sequence ignores what it cannot use. -/
def extend (s : Sequence) (c : Char) : Option Sequence :=
  match s with
  | escape =>
      if c = '[' then some control
      else if c = ']' then some command
      else if c = 'P' then some deviceStart
      else if c = 'X' || c = '^' || c = '_' then some string
      else if isMiddle c then some escapeMiddle
      else if '0' ≤ c && c ≤ '~' then none
      else some escape
  | escapeMiddle => if '0' ≤ c && c ≤ '~' then none else some escapeMiddle
  | control => if '@' ≤ c && c ≤ '~' then none else some control
  | deviceStart =>
      if isMiddle c then some deviceMiddle
      else if c = ':' || ('@' ≤ c && c ≤ '~') then some string
      else if '0' ≤ c && c ≤ '?' then some deviceNumbers
      else some deviceStart
  | deviceNumbers =>
      if isMiddle c then some deviceMiddle
      else if c = ':' || ('<' ≤ c && c ≤ '~') then some string
      else some deviceNumbers
  | deviceMiddle => if '0' ≤ c && c ≤ '~' then some string else some deviceMiddle
  | command => if c = '\x07' then none else some command
  | string => if endsString c then none else some string

/-- The sequence after a character; none if the character closes it. Every sequence gives way to
another escape character and ends at a cancel character. -/
def next (s : Sequence) (c : Char) : Option Sequence :=
  if c = '\x1b' then some escape
  else if c = '\x18' || c = '\x1a' then none
  else s.extend c

/-- White space in the sequence is shown. -/
def showsSpace : Sequence → Bool
  | escape | escapeMiddle | control => true
  | deviceStart | deviceNumbers | deviceMiddle | command | string => false

end Sequence

/-- The character is white space among the control characters. -/
def isControlSpace (c : Char) : Bool :=
  c = '\t' || c = '\n' || c = '\x0c' || c = '\r'

/-- The character is shown where no sequence is open. -/
def isShown (c : Char) : Bool :=
  (' ' ≤ c && c ≠ '\x7f') || isControlSpace c

/-- How far a text has been read. -/
structure Reading where
  /-- The sequence that is open. -/
  sequence : Option Sequence := none
  /-- White space has been shown in the sequence. What follows is shown too, up to a control
  character, with which the sequence goes on. -/
  paused : Bool := false
deriving DecidableEq, Repr

/-- Reads a character and tells whether it is shown. -/
def Reading.step (r : Reading) (c : Char) : Reading × Bool :=
  match r.sequence with
  | none => if c = '\x1b' then (⟨some .escape, false⟩, false) else (r, isShown c)
  | some s =>
      -- only ASCII text can stand in a paused sequence
      if r.paused && isShown c then (if c.toNat < 128 then r else {}, true)
      else if s.showsSpace && isControlSpace c then (⟨some s, true⟩, true)
      else (⟨s.next c, false⟩, false)

/-- The characters that are shown. -/
def Reading.shown : Reading → List Char → List Char
  | _, [] => []
  | r, c :: rest =>
      match r.step c with
      | (r, true) => c :: r.shown rest
      | (r, false) => r.shown rest

/-- A text without its control sequences. -/
def visible (s : String) : String :=
  String.ofList (Reading.shown {} s.toList)

/-- The first line of a text, without the characters that end it. -/
def firstLine (s : String) : String :=
  let line := s.toList.takeWhile (· ≠ '\n')
  if line.length < s.length && line.getLast? = some '\r' then String.ofList line.dropLast
  else String.ofList line

end SchemaNormal.Text
