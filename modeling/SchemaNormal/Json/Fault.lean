import SchemaNormal.Decimal.Shortest
import SchemaNormal.Json.Number
import SchemaNormal.Text.Quoted

/-!
# Faults of a text

A text that cannot be read as asked has a fault: a cause, and mostly the place where reading
stopped. A place is a number of bytes from the start of the text; people are shown the line and the
column, both counted from the text itself.
-/

namespace SchemaNormal.Json

/-- A value that stands where another kind was expected. -/
inductive Found where
  | null
  | bool (value : Bool)
  | number (value : NumberValue)
  | string (value : String)
  | list
  | object

/-- Doubles are written with all their places from 0.00001 up to below 10^16. -/
def doubleStyle : Decimal.Style := ⟨-5, 16⟩

/-- A found value as messages name it. -/
def Found.text : Found → String
  | .null => "null"
  | .bool b => "boolean `" ++ (if b then "true" else "false") ++ "`"
  | .number (.natural n) => "integer `" ++ toString n ++ "`"
  | .number (.negative n) => "integer `-" ++ toString n ++ "`"
  | .number (.double x) => "floating point `" ++ Decimal.floatText doubleStyle x ++ "`"
  | .string s => "string " ++ Text.quoted s
  | .list => "sequence"
  | .object => "map"

inductive Cause where
  | valueEnds
  | listEnds
  | objectEnds
  | stringEnds
  | expectedValue
  | expectedWord
  | expectedColon
  | expectedListComma
  | expectedObjectComma
  | expectedKey
  | trailingComma
  | trailingCharacters
  | tooDeep
  | controlCharacter
  | invalidEscape
  | loneSurrogate
  | brokenSurrogatePair
  | invalidNumber
  | numberOutOfRange
  | wrongType (found : Found) (expected : String)
  | wrongValue (found : Found) (expected : String)
  | unknownName (name : String) (names : List String)
  | repeatedField (name : String)
  | missingField (name : String)
  | wrongLength (length : Nat) (expected : String)

/-- Names as a list of choices. -/
def choices (names : List String) : String :=
  ", ".intercalate (names.map fun name => "`" ++ name ++ "`")

def Cause.text : Cause → String
  | .valueEnds => "EOF while parsing a value"
  | .listEnds => "EOF while parsing a list"
  | .objectEnds => "EOF while parsing an object"
  | .stringEnds => "EOF while parsing a string"
  | .expectedValue => "expected value"
  | .expectedWord => "expected ident"
  | .expectedColon => "expected `:`"
  | .expectedListComma => "expected `,` or `]`"
  | .expectedObjectComma => "expected `,` or `\x7d`"
  | .expectedKey => "key must be a string"
  | .trailingComma => "trailing comma"
  | .trailingCharacters => "trailing characters"
  | .tooDeep => "recursion limit exceeded"
  | .controlCharacter => "control character (\\u0000-\\u001F) found while parsing a string"
  | .invalidEscape => "invalid escape"
  | .loneSurrogate => "lone leading surrogate in hex escape"
  | .brokenSurrogatePair => "unexpected end of hex escape"
  | .invalidNumber => "invalid number"
  | .numberOutOfRange => "number out of range"
  | .wrongType found expected => "invalid type: " ++ found.text ++ ", expected " ++ expected
  | .wrongValue found expected => "invalid value: " ++ found.text ++ ", expected " ++ expected
  | .unknownName name names =>
      "unknown variant `" ++ name ++ "`, expected one of " ++ choices names
  | .repeatedField name => "duplicate field `" ++ name ++ "`"
  | .missingField name => "missing field `" ++ name ++ "`"
  | .wrongLength length expected =>
      "invalid length " ++ toString length ++ ", expected " ++ expected

/-- A cause and the number of bytes read when it was seen. A fault of a value that has already been
read as a whole has no place of its own. -/
structure Fault where
  cause : Cause
  place : Option Nat := none

def Fault.at (cause : Cause) (place : Nat) : Fault :=
  ⟨cause, some place⟩

/-- The line of a place and the bytes before the place on that line. Lines are counted from 1. -/
def lineColumn : Nat → Nat → List Char → Nat → Nat × Nat
  | line, column, [], _ => (line, column)
  | line, column, c :: cs, left =>
      if left = 0 then (line, column)
      else if c = '\n' then lineColumn (line + 1) 0 cs (left - 1)
      else if left < c.utf8Size then (line, column + left)
      else lineColumn line (column + c.utf8Size) cs (left - c.utf8Size)

/-- The fault of a text as people are told about it. -/
def Fault.message (fault : Fault) (text : String) : String :=
  match fault.place with
  | none => fault.cause.text
  | some place =>
      let (line, column) := lineColumn 1 0 text.toList place
      fault.cause.text ++ s!" at line {line} column {column}"

end SchemaNormal.Json
