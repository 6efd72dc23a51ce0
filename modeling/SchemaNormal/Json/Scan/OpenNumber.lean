import SchemaNormal.Json.Scan.OpenString

/-!
# Numbers, character by character

`OpenNumber` is a number of which a beginning has been seen. It has no closing mark: a number ends
before the first character that cannot go on with it, so `closed` has not taken the character of the
step.
-/

namespace SchemaNormal.Json

/-- What of a number has been seen last. -/
inductive NumberPlace where
  | sign
  /-- A zero in front, which no digit may follow. -/
  | zero
  | whole
  | point
  | fraction
  | mark
  | exponentSign
  | exponent
deriving DecidableEq, Repr

/-- A number of which a beginning has been seen. -/
structure OpenNumber where
  start : Nat
  place : NumberPlace
  numeral : Numeral

namespace OpenNumber

/-- The number that a minus sign starts. -/
def ofSign (start : Nat) : OpenNumber :=
  { start, place := .sign, numeral := { negative := true, whole := 0 } }

def firstDigit (n : OpenNumber) (d : Digit) : OpenNumber :=
  { n with
    place := if d = 0 then .zero else .whole
    numeral := { n.numeral with whole := d.val } }

/-- The number that a digit starts. -/
def ofDigit (start : Nat) (d : Digit) : OpenNumber :=
  firstDigit { start, place := .sign, numeral := { whole := 0 } } d

def pushWhole (n : OpenNumber) (d : Digit) : OpenNumber :=
  { n with numeral := { n.numeral with whole := n.numeral.whole * 10 + d.val } }

def pushFraction (n : OpenNumber) (d : Digit) : OpenNumber :=
  { n with
    place := .fraction
    numeral := { n.numeral with fraction := n.numeral.fraction ++ [d] } }

def pushExponent (n : OpenNumber) (d : Digit) : OpenNumber :=
  let e := n.numeral.exponent.getD { digits := [] }
  { n with
    place := .exponent
    numeral := { n.numeral with exponent := some { e with digits := e.digits ++ [d] } } }

def signExponent (n : OpenNumber) (negative : Bool) : OpenNumber :=
  { n with
    place := .exponentSign
    numeral := { n.numeral with exponent := some { negative, digits := [] } } }

/-- Both kinds of reader take this for an invalid number. -/
def invalid (offset : Nat) : TokenStep OpenNumber Numeral :=
  .broken ⟨.at .invalidNumber (offset + 1), .at .invalidNumber (offset + 1)⟩

/-- After the whole digits: a point, an exponent, or the end of the number. -/
def afterWhole (n : OpenNumber) (c : Char) : TokenStep OpenNumber Numeral :=
  if c = '.' then .more { n with place := .point }
  else if c = 'e' ∨ c = 'E' then .more { n with place := .mark }
  else .closed n.numeral

/-- One more character, at `offset`. -/
def step (n : OpenNumber) (offset : Nat) (c : Char) : TokenStep OpenNumber Numeral :=
  match n.place, Digit.ofChar? c with
  | .sign, some d => .more (n.firstDigit d)
  | .zero, some _ => invalid offset
  | .whole, some d => .more (n.pushWhole d)
  | .point, some d | .fraction, some d => .more (n.pushFraction d)
  | .mark, some d | .exponentSign, some d | .exponent, some d => .more (n.pushExponent d)
  | .sign, none | .point, none | .exponentSign, none => invalid offset
  | .zero, none | .whole, none => n.afterWhole c
  | .fraction, none =>
      if c = 'e' ∨ c = 'E' then .more { n with place := .mark } else .closed n.numeral
  | .mark, none =>
      if c = '+' then .more (n.signExponent false)
      else if c = '-' then .more (n.signExponent true)
      else invalid offset
  | .exponent, none => .closed n.numeral

/-- The text ends after the number, or within it. -/
def ended (n : OpenNumber) (offset : Nat) : Except Break Numeral :=
  match n.place with
  | .zero | .whole | .fraction | .exponent => .ok n.numeral
  | .sign | .point | .mark | .exponentSign =>
      .error ⟨.at .valueEnds offset, .at .invalidNumber offset⟩

end OpenNumber

end SchemaNormal.Json
