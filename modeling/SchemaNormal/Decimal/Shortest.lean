/-!
# The shortest decimal of a floating-point number

A finite double stands for an interval of real numbers: all those that round to it. Among the
decimals in that interval `shortest` finds one with the fewest digits, and of those the one nearest
to the double itself. Everything is exact arithmetic on natural numbers.
-/

namespace SchemaNormal.Decimal

/-- A positive double as `mantissa · 2 ^ exponent`. -/
structure Binary where
  mantissa : Nat
  exponent : Int
  /-- The double is the least of its binade, so the double below it is only half as far away as
  the one above it. -/
  narrow : Bool := false
deriving DecidableEq, Repr

/-- The number 2^52: one more than the largest fraction of a double. -/
def fractionLimit : Nat :=
  0x10000000000000

/-- The number 2^63: from it on, the bits of a double have the sign bit. -/
def signBit : Nat :=
  0x8000000000000000

/-- The magnitude of a finite double. -/
def Binary.ofFloat (x : Float) : Binary :=
  let bits : Nat := x.toBits.toNat % signBit
  let fraction : Nat := bits % fractionLimit
  let biased : Nat := bits / fractionLimit
  if biased = 0 then { mantissa := fraction, exponent := -1074 }
  else
    { mantissa := fraction + fractionLimit
      exponent := (biased : Int) - 1075
      narrow := fraction = 0 && biased > 1 }

/-- A positive number `num / den`. -/
structure Ratio where
  num : Nat
  den : Nat

/-- The number `n · 2 ^ e`. -/
def Ratio.scaled (n : Nat) (e : Int) : Ratio :=
  ⟨n * Nat.pow 2 e.toNat, Nat.pow 2 (-e).toNat⟩

def digitCount (n : Nat) : Nat :=
  (Nat.toDigits 10 n).length

/-- The exponent of the leading decimal digit of a positive number. -/
def Ratio.magnitude (r : Ratio) : Int :=
  if r.den ≤ r.num then (digitCount (r.num / r.den) : Int) - 1
  else
    let estimate := digitCount (r.den / r.num)
    if r.den ≤ r.num * Nat.pow 10 (estimate - 1) then 1 - (estimate : Int)
    else -(estimate : Int)

/-- A decimal: `digits · 10 ^ exponent`. -/
structure Digits where
  digits : Nat
  exponent : Int
deriving DecidableEq, Repr

/-- A decimal and a ratio in a unit that depends only on the ratio and the decimal's exponent. -/
def Digits.sideBySide (d : Digits) (r : Ratio) : Nat × Nat :=
  (d.digits * Nat.pow 10 d.exponent.toNat * r.den, r.num * Nat.pow 10 (-d.exponent).toNat)

/-- The decimal is at least as large as the ratio, or larger when `strict`. -/
def Digits.above (d : Digits) (strict : Bool) (r : Ratio) : Bool :=
  let (d, r) := d.sideBySide r
  if strict then r < d else r ≤ d

/-- The decimal is at most as large as the ratio, or smaller when `strict`. -/
def Digits.below (d : Digits) (strict : Bool) (r : Ratio) : Bool :=
  let (d, r) := d.sideBySide r
  if strict then d < r else d ≤ r

/-- How far the decimal is from the ratio, in that unit. -/
def Digits.distance (d : Digits) (r : Ratio) : Nat :=
  let (d, r) := d.sideBySide r
  (d - r) + (r - d)

/-- The nearer of the decimals that stand for the double on the grid `10 ^ exponent`, if any. -/
def onGrid (b : Binary) (exponent : Int) : Option Digits :=
  let value := Ratio.scaled (4 * b.mantissa) (b.exponent - 2)
  let low := Ratio.scaled (4 * b.mantissa - if b.narrow then 1 else 2) (b.exponent - 2)
  let high := Ratio.scaled (4 * b.mantissa + 2) (b.exponent - 2)
  let strict := b.mantissa % 2 = 1
  let floor : Nat :=
    value.num * Nat.pow 10 (-exponent).toNat / (value.den * Nat.pow 10 exponent.toNat)
  let lower : Digits := ⟨floor, exponent⟩
  let upper : Digits := ⟨floor + 1, exponent⟩
  let lowerFits := floor > 0 && lower.above strict low
  let upperFits := upper.below strict high
  match lowerFits, upperFits with
  | false, false => none
  | true, false => some lower
  | false, true => some upper
  | true, true =>
      if lower.distance value < upper.distance value then some lower
      else if upper.distance value < lower.distance value then some upper
      else if floor % 2 = 0 then some lower else some upper

/-- The shortest decimal of a positive double. Seventeen digits always suffice. -/
def shortest (b : Binary) : Digits :=
  let leading := (Ratio.scaled b.mantissa b.exponent).magnitude
  ((List.range 17).findSome? fun n : Nat => onGrid b (leading - n)).getD ⟨b.mantissa, b.exponent⟩

/-- How a decimal is written: with all its places from the exponent `lowest` up to below
`highest`, and otherwise with an exponent. -/
structure Style where
  lowest : Int
  highest : Int

/-- The digits without the zeros at their end, and how many those were. -/
def trimZeros (ds : List Char) : List Char × Nat :=
  let kept := (ds.reverse.dropWhile (· = '0')).reverse
  (kept, ds.length - kept.length)

def Digits.text (style : Style) (d : Digits) : String :=
  let (ds, zeros) := trimZeros (Nat.toDigits 10 d.digits)
  let exponent := d.exponent + zeros
  let leading := exponent + ds.length - 1
  let places := fun n : Nat => List.replicate n '0'
  if style.lowest ≤ leading ∧ leading < style.highest then
    if leading < 0 then
      String.ofList ('0' :: '.' :: places (-leading - 1).toNat ++ ds)
    else
      let whole := ds.take (leading + 1).toNat ++ places exponent.toNat
      let fraction := ds.drop (leading + 1).toNat
      String.ofList (whole ++ '.' :: if fraction.isEmpty then ['0'] else fraction)
  else
    let mantissa :=
      match ds with
      | [] => []
      | [first] => [first]
      | first :: rest => first :: '.' :: rest
    String.ofList mantissa ++ (if leading < 0 then "e-" else "e+") ++ toString leading.natAbs

/-- The text of a finite double. -/
def floatText (style : Style) (x : Float) : String :=
  let sign := if x.toBits.toNat < signBit then "" else "-"
  let b := Binary.ofFloat x
  if b.mantissa = 0 then sign ++ "0.0" else sign ++ (shortest b).text style

end SchemaNormal.Decimal
