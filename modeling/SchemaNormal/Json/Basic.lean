/-!
# JSON values

A value as it is written: members of an object keep their order and may repeat a key, and a number
keeps the digits of its spelling.
-/

namespace SchemaNormal

abbrev Digit := Fin 10

def Digit.char (d : Digit) : Char :=
  Char.ofNat (48 + d.val)

def Digit.ofChar? (c : Char) : Option Digit :=
  if h : 48 ≤ c.toNat ∧ c.toNat ≤ 57 then some ⟨c.toNat - 48, by omega⟩ else none

namespace Json

/-- The exponent of a number: a sign and at least one digit. -/
structure Exponent where
  negative : Bool := false
  digits : List Digit
deriving DecidableEq, Repr

/-- A number as it is spelled. The part before the point has no leading zeros, so it is its value;
a number without a point has no fraction digits. -/
structure Numeral where
  negative : Bool := false
  whole : Nat
  fraction : List Digit := []
  exponent : Option Exponent := none
deriving DecidableEq, Repr

/-- The numeral of an integer: its digits, and a sign if it is negative. -/
def Numeral.ofInt (n : Int) : Numeral :=
  { negative := n < 0, whole := n.natAbs }

end Json

inductive Json where
  | null
  | bool (value : Bool)
  | number (value : Json.Numeral)
  | string (value : String)
  | list (items : List Json)
  | object (members : List (String × Json))
deriving Repr, Inhabited

namespace Json

mutual

/-- How many brackets stand around the innermost value: a scalar has none. -/
def depth : Json → Nat
  | .null | .bool _ | .number _ | .string _ => 0
  | .list items => 1 + depthItems items
  | .object members => 1 + depthMembers members

def depthItems : List Json → Nat
  | [] => 0
  | v :: vs => max (depth v) (depthItems vs)

def depthMembers : List (String × Json) → Nat
  | [] => 0
  | (_, v) :: ms => max (depth v) (depthMembers ms)

end

def ofList {α : Type} (f : α → Json) (xs : List α) : Json :=
  .list (xs.map f)

def ofInt (n : Int) : Json :=
  .number (.ofInt n)

/-- The members of an object that are written only if the list is not empty. -/
def listMember {α : Type} (key : String) (f : α → Json) (xs : List α) : List (String × Json) :=
  if xs.isEmpty then [] else [(key, ofList f xs)]

end Json

end SchemaNormal
