import SchemaNormal.Json.Writer

/-!
# Spellings of a value

A value has many spellings: between its tokens there may be white space, a character of a string
may stand for itself or be escaped, and an exponent has a mark in either case and may have a plus
sign.  The grammar here relates values to their spellings; it knows nothing of a reader.
-/

namespace SchemaNormal.Json

/-- White space, or nothing at all. -/
def Blank (t : List Char) : Prop :=
  ∀ c ∈ t, c ∈ [' ', '\t', '\n', '\r']

/-! ## Strings -/

/-- The hexadecimal digit `c` has the value `d`. -/
def IsHex (c : Char) (d : Nat) : Prop :=
  (d < 10 ∧ c.toNat = 48 + d) ∨ (10 ≤ d ∧ d < 16 ∧ (c.toNat = 55 + d ∨ c.toNat = 87 + d))

/-- Four hexadecimal digits spell a UTF-16 unit. -/
inductive SpelledUnit : Nat → List Char → Prop where
  | digits {a b c d : Char} {p q r s : Nat} : IsHex a p → IsHex b q → IsHex c r → IsHex d s →
      SpelledUnit (((p * 16 + q) * 16 + r) * 16 + s) [a, b, c, d]

/-- The letters of the escapes of two characters, each with the character it stands for. -/
def shortEscapes : List (Char × Char) :=
  [('"', '"'), ('\\', '\\'), ('/', '/'), ('b', '\x08'), ('f', '\x0c'), ('n', '\n'), ('r', '\r'),
    ('t', '\t')]

/-- A character and how it is spelled between the quotes of a string. -/
inductive SpelledChar : Char → List Char → Prop where
  | plain {c : Char} : c ≠ '"' → c ≠ '\\' → 32 ≤ c.toNat → SpelledChar c [c]
  | short {letter c : Char} : (letter, c) ∈ shortEscapes → SpelledChar c ['\\', letter]
  /-- A character of one UTF-16 unit. -/
  | unit {c : Char} {u : List Char} : SpelledUnit c.toNat u → SpelledChar c ('\\' :: 'u' :: u)
  /-- A character that UTF-16 divides into a pair of surrogates. -/
  | pair {c : Char} {high low : List Char} : 0x10000 ≤ c.toNat →
      SpelledUnit (0xD800 + (c.toNat - 0x10000) / 0x400) high →
      SpelledUnit (0xDC00 + (c.toNat - 0x10000) % 0x400) low →
      SpelledChar c ('\\' :: 'u' :: high ++ '\\' :: 'u' :: low)

inductive SpelledChars : List Char → List Char → Prop where
  | nil : SpelledChars [] []
  | cons {c : Char} {cs u t : List Char} : SpelledChar c u → SpelledChars cs t →
      SpelledChars (c :: cs) (u ++ t)

/-- A string is spelled between quotes. -/
def SpelledString (s : String) (t : List Char) : Prop :=
  ∃ body, SpelledChars s.toList body ∧ t = '"' :: body ++ ['"']

/-! ## Numbers -/

/-- An exponent, or none, and its spelling. -/
inductive SpelledExponent : Option Exponent → List Char → Prop where
  | none : SpelledExponent none []
  | some {e : Exponent} {mark : Char} {sign : List Char} : mark ∈ ['e', 'E'] →
      sign ∈ (if e.negative then [['-']] else [[], ['+']]) → e.digits ≠ [] →
      SpelledExponent (some e) (mark :: sign ++ e.digits.map Digit.char)

/-- A number is spelled by its sign, its digits without leading zeros, its fraction digits after a
point, and its exponent. -/
def Numeral.Spelled (n : Numeral) (t : List Char) : Prop :=
  ∃ exponent, SpelledExponent n.exponent exponent ∧
    t = (if n.negative then ['-'] else []) ++ natChars n.whole ++
      (if n.fraction.isEmpty then [] else '.' :: n.fraction.map Digit.char) ++ exponent

/-! ## Values -/

/-- A key, with white space around it, and its colon. -/
def SpelledKey (key : String) (t : List Char) : Prop :=
  ∃ b k b', Blank b ∧ SpelledString key k ∧ Blank b' ∧ t = b ++ k ++ b' ++ [':']

mutual

/-- A value and its spelling, from its first character to its last. -/
inductive Spelled : Json → List Char → Prop where
  | null : Spelled .null ['n', 'u', 'l', 'l']
  | bool (b : Bool) : Spelled (.bool b) (boolChars b)
  | number {n : Numeral} {t : List Char} : n.Spelled t → Spelled (.number n) t
  | string {s : String} {t : List Char} : SpelledString s t → Spelled (.string s) t
  | emptyList {b : List Char} : Blank b → Spelled (.list []) ('[' :: b ++ [']'])
  | list {vs : List Json} {t : List Char} : SpelledItems vs t →
      Spelled (.list vs) ('[' :: t ++ [']'])
  | emptyObject {b : List Char} : Blank b → Spelled (.object []) ('\x7b' :: b ++ ['\x7d'])
  | object {ms : List (String × Json)} {t : List Char} : SpelledMembers ms t →
      Spelled (.object ms) ('\x7b' :: t ++ ['\x7d'])

/-- What stands between the brackets of a list that is not empty. -/
inductive SpelledItems : List Json → List Char → Prop where
  | last {v : Json} {b t b' : List Char} : Blank b → Spelled v t → Blank b' →
      SpelledItems [v] (b ++ t ++ b')
  | cons {v : Json} {vs : List Json} {b t b' ts : List Char} : Blank b → Spelled v t → Blank b' →
      SpelledItems vs ts → SpelledItems (v :: vs) (b ++ t ++ b' ++ ',' :: ts)

/-- What stands between the brackets of an object that is not empty. -/
inductive SpelledMembers : List (String × Json) → List Char → Prop where
  | last {key : String} {v : Json} {k b t b' : List Char} : SpelledKey key k → Blank b →
      Spelled v t → Blank b' → SpelledMembers [(key, v)] (k ++ b ++ t ++ b')
  | cons {key : String} {v : Json} {ms : List (String × Json)} {k b t b' ts : List Char} :
      SpelledKey key k → Blank b → Spelled v t → Blank b' → SpelledMembers ms ts →
      SpelledMembers ((key, v) :: ms) (k ++ b ++ t ++ b' ++ ',' :: ts)

end

/-- The text holds one spelling of the value and white space around it. -/
def SpelledBy (v : Json) (text : String) : Prop :=
  ∃ b t b', Blank b ∧ Spelled v t ∧ Blank b' ∧ text.toList = b ++ t ++ b'

end SchemaNormal.Json
