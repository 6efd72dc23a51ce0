import SchemaNormal.Json.Basic

/-!
# The value of a number

A number without point and exponent is an integer as long as it fits 64 bits, unsigned, or signed
after a minus sign; every other number is a double, and so is `-0`. The double of a numeral is taken
from as many leading digits as fit 64 bits, scaled once by a power of ten. A numeral whose double
would be infinite has no value.
-/

namespace SchemaNormal.Json

/-- The number 2^64, the first that does not fit 64 bits unsigned. -/
def unsignedLimit : Nat :=
  0x10000000000000000

/-- The number 2^63: its negative is the least that fits 64 bits signed. -/
def signedLimit : Nat :=
  0x8000000000000000

/-- What a numeral stands for. -/
inductive NumberValue where
  /-- A non-negative integer below 2^64. -/
  | natural (n : Nat)
  /-- The negative of a positive integer up to 2^63. -/
  | negative (n : Nat)
  | double (x : Float)

/-- Appends digits to a number while the result stays below 2^64; also says how many it took. -/
def takeDigits : List Digit → Nat → Nat → Nat × Nat
  | [], significand, used => (significand, used)
  | d :: ds, significand, used =>
      if significand * 10 + d.val < unsignedLimit then
        takeDigits ds (significand * 10 + d.val) (used + 1)
      else (significand, used)

/-- A significand below 2^64 times a power of ten, or nothing if that is too large. The exponent
goes up in steps of 308, so the fuel is spent only while the significand is not yet zero. -/
def scaleDouble : Nat → Float → Int → Option Float
  | fuel, x, exponent =>
      if exponent.natAbs ≤ 308 then
        let power := Float.ofScientific 1 false exponent.natAbs
        if exponent < 0 then some (x / power)
        else if (x * power).isInf then none
        else some (x * power)
      else if x == 0.0 then some x
      else if exponent > 0 then none
      else
        match fuel with
        | 0 => some 0.0
        | fuel + 1 => scaleDouble fuel (x / Float.ofScientific 1 false 308) (exponent + 308)

/-- The exponents that fit 32 bits end here. -/
def exponentLimit : Nat :=
  0x7FFFFFFF

/-- Reads exponent digits; stops at the first that takes the exponent beyond its limit and says how
many digits come after that one. -/
def readExponent : List Digit → Nat → Except Nat Nat
  | [], e => .ok e
  | d :: ds, e =>
      if e * 10 + d.val ≤ exponentLimit then readExponent ds (e * 10 + d.val)
      else .error ds.length

/-- The magnitude of the double of a numeral. A numeral that is too large is refused together with
the number of its digits that need not be looked at to see that. -/
def Numeral.magnitude (n : Numeral) : Except Nat Float :=
  let digits := (Nat.toDigits 10 n.whole).filterMap Digit.ofChar?
  let (significand, used) := takeDigits digits 0 0
  let (significand, places) := takeDigits n.fraction significand 0
  let base : Int := (digits.length : Int) - used - places
  let x := significand.toUInt64.toFloat
  let scaled := fun exponent : Int =>
    match scaleDouble 3 x exponent with
    | some x => .ok x
    | none => .error 0
  match n.exponent with
  | none => scaled base
  | some e =>
      match readExponent e.digits 0 with
      | .ok power => scaled (if e.negative then base - power else base + power)
      | .error unread => if e.negative || significand = 0 then .ok 0.0 else .error unread

/-- The numeral has neither point nor exponent. -/
def Numeral.isWhole (n : Numeral) : Bool :=
  n.fraction.isEmpty && n.exponent.isNone

/-- The value of a numeral, or how many of its last digits are not needed to see that it is too
large. -/
def Numeral.value (n : Numeral) : Except Nat NumberValue :=
  if n.isWhole && !n.negative && n.whole < unsignedLimit then .ok (.natural n.whole)
  else if n.isWhole && n.negative && 0 < n.whole && n.whole ≤ signedLimit then
    .ok (.negative n.whole)
  else
    match n.magnitude with
    | .ok x => .ok (.double (if n.negative then -x else x))
    | .error unread => .error unread

end SchemaNormal.Json
