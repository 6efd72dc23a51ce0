import SchemaNormal.Json.Basic

/-!
# Writing JSON

Two layouts. The compact one has no white space at all. The pretty one puts every item and member on
a line of its own, two spaces deeper than the bracket around it, and a space after each colon; empty
lists and objects stay on their line. Strings are spelled the same way in both: quotes, backslashes
and control characters are escaped, everything else stands for itself.
-/

namespace SchemaNormal.Json

/-! ## Scalars -/

def hexChar (n : Nat) : Char :=
  if n < 10 then Char.ofNat (48 + n) else Char.ofNat (87 + n)

/-- A character as it stands inside a string. -/
def escape (c : Char) : List Char :=
  if c = '"' then ['\\', '"']
  else if c = '\\' then ['\\', '\\']
  else if c = '\x08' then ['\\', 'b']
  else if c = '\x0c' then ['\\', 'f']
  else if c = '\n' then ['\\', 'n']
  else if c = '\r' then ['\\', 'r']
  else if c = '\t' then ['\\', 't']
  else if c.toNat < 32 then
    ['\\', 'u', '0', '0', hexChar (c.toNat / 16), hexChar (c.toNat % 16)]
  else [c]

/-- A string between its quotes. -/
def stringChars (s : String) : List Char :=
  '"' :: s.toList.flatMap escape ++ ['"']

/-- The digits of a number, without leading zeros. -/
def natChars (n : Nat) : List Char :=
  Nat.toDigits 10 n

/-- A number as it is spelled, with `e` before its exponent and no `+`. -/
def Numeral.chars (n : Numeral) : List Char :=
  (if n.negative then ['-'] else []) ++ natChars n.whole
    ++ (if n.fraction.isEmpty then [] else '.' :: n.fraction.map Digit.char)
    ++ match n.exponent with
      | none => []
      | some e => 'e' :: (if e.negative then ['-'] else []) ++ e.digits.map Digit.char

def boolChars : Bool → List Char
  | true => ['t', 'r', 'u', 'e']
  | false => ['f', 'a', 'l', 's', 'e']

/-! ## The compact layout -/

mutual

/-- A value without white space. -/
def compactChars : Json → List Char
  | .null => ['n', 'u', 'l', 'l']
  | .bool b => boolChars b
  | .number n => n.chars
  | .string s => stringChars s
  | .list [] => ['[', ']']
  | .list (v :: vs) => '[' :: compactChars v ++ compactItems vs ++ [']']
  | .object [] => ['\x7b', '\x7d']
  | .object ((key, v) :: ms) =>
      '\x7b' :: stringChars key ++ ':' :: compactChars v ++ compactMembers ms ++ ['\x7d']

/-- Items that follow another one. -/
def compactItems : List Json → List Char
  | [] => []
  | v :: vs => ',' :: compactChars v ++ compactItems vs

/-- Members that follow another one. -/
def compactMembers : List (String × Json) → List Char
  | [] => []
  | (key, v) :: ms => ',' :: stringChars key ++ ':' :: compactChars v ++ compactMembers ms

end

def compact (v : Json) : String :=
  String.ofList (compactChars v)

/-! ## The pretty layout -/

/-- The start of a line at a nesting level. -/
def newline (level : Nat) : List Char :=
  '\n' :: List.replicate (2 * level) ' '

mutual

/-- A value whose first line is already indented to `level`. -/
def prettyChars (level : Nat) : Json → List Char
  | .null => ['n', 'u', 'l', 'l']
  | .bool b => boolChars b
  | .number n => n.chars
  | .string s => stringChars s
  | .list [] => ['[', ']']
  | .list (v :: vs) =>
      '[' :: newline (level + 1) ++ prettyChars (level + 1) v ++ prettyItems (level + 1) vs
        ++ newline level ++ [']']
  | .object [] => ['\x7b', '\x7d']
  | .object ((key, v) :: ms) =>
      '\x7b' :: newline (level + 1) ++ stringChars key ++ ':' :: ' ' :: prettyChars (level + 1) v
        ++ prettyMembers (level + 1) ms ++ newline level ++ ['\x7d']

/-- Items that follow another one. -/
def prettyItems (level : Nat) : List Json → List Char
  | [] => []
  | v :: vs => ',' :: newline level ++ prettyChars level v ++ prettyItems level vs

/-- Members that follow another one. -/
def prettyMembers (level : Nat) : List (String × Json) → List Char
  | [] => []
  | (key, v) :: ms =>
      ',' :: newline level ++ stringChars key ++ ':' :: ' ' :: prettyChars level v
        ++ prettyMembers level ms

end

def pretty (v : Json) : String :=
  String.ofList (prettyChars 0 v)

inductive Layout where
  | compact
  | pretty
deriving DecidableEq, Repr, Inhabited

def render (layout : Layout) (v : Json) : String :=
  match layout with
  | .compact => v.compact
  | .pretty => v.pretty

end SchemaNormal.Json
