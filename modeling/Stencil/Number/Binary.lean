/-!
# Binary floating point numbers

A finite number is a whole significand times a power of two, within the bounds of a precision. Reading
a decimal rounds to the nearest such number, and of two equally near ones to the one with an even
significand. All arithmetic is exact.
-/

namespace Stencil.Number

/-- The bounds of a floating point format. -/
structure Precision where
  /-- How many bits the significand has. -/
  bits : Nat
  /-- The least exponent of the last bit. -/
  least : Int
  /-- The greatest exponent of the last bit. -/
  greatest : Int
deriving DecidableEq, Repr

/-- Sixty-four bit numbers. -/
def double : Precision := ⟨53, -1074, 971⟩

/-- Thirty-two bit numbers. -/
def single : Precision := ⟨24, -149, 104⟩

/-- A floating point number: `significand * 2 ^ exponent` when it is finite. -/
inductive Binary where
  | nan
  | infinite (negative : Bool)
  | finite (negative : Bool) (significand : Nat) (exponent : Int)
deriving DecidableEq, Repr

structure Fraction where
  num : Nat
  den : Nat
deriving DecidableEq, Repr

namespace Fraction

/-- The fraction times a power of a base. -/
def scale (q : Fraction) (base : Nat) (exponent : Int) : Fraction :=
  if exponent < 0 then ⟨q.num, q.den * Nat.pow base (-exponent).toNat⟩
  else ⟨q.num * Nat.pow base exponent.toNat, q.den⟩

def floor (q : Fraction) : Nat := q.num / q.den

/-- The nearest whole number, the even one of two equally near ones. -/
def round (q : Fraction) : Nat :=
  let rest := 2 * (q.num % q.den)
  if rest < q.den then q.floor
  else if q.den < rest then q.floor + 1
  else if q.floor % 2 = 0 then q.floor else q.floor + 1

def le (p q : Fraction) : Bool := p.num * q.den ≤ q.num * p.den

def lt (p q : Fraction) : Bool := p.num * q.den < q.num * p.den

end Fraction

namespace Binary

/-- The exponent of the last bit that a positive fraction has in a precision, before rounding. -/
def lastBit (p : Precision) (q : Fraction) : Int :=
  let guess : Int := (Nat.log2 q.num : Int) - (Nat.log2 q.den : Int) - (p.bits - 1 : Nat)
  let exponent := if (q.scale 2 (-guess)).floor < Nat.pow 2 (p.bits - 1) then guess - 1 else guess
  if exponent < p.least then p.least else exponent

def ofFraction (p : Precision) (negative : Bool) (q : Fraction) : Binary :=
  if q.num = 0 then .finite negative 0 0
  else
    let exponent := lastBit p q
    let significand := (q.scale 2 (-exponent)).round
    let carried := significand = Nat.pow 2 p.bits
    let exponent := if carried then exponent + 1 else exponent
    if p.greatest < exponent then .infinite negative
    else .finite negative (if carried then Nat.pow 2 (p.bits - 1) else significand) exponent

/-- The decimal exponent beyond which every number of a known format is infinite or zero. -/
def decimalLimit : Int := 400

/-- The number nearest to `digits * 10 ^ exponent`. -/
def ofDecimal (p : Precision) (negative : Bool) (digits : Nat) (exponent : Int) : Binary :=
  let magnitude : Int := exponent + (Nat.log2 digits / 3 : Nat)
  if digits = 0 then .finite negative 0 0
  else if decimalLimit < exponent then .infinite negative
  else if magnitude < -decimalLimit then .finite negative 0 0
  else ofFraction p negative (Fraction.scale ⟨digits, 1⟩ 10 exponent)

/-- Whether a number is zero, of either sign. -/
def isZero : Binary → Bool
  | .finite _ 0 _ => true
  | _ => false

/-- Whether one number is not above another. What is not a number is below all others. -/
def le : Binary → Binary → Bool
  | .nan, _ => true
  | _, .nan => false
  | .infinite negative, y => negative || y = .infinite false
  | .finite _ _ _, .infinite negative => !negative
  | .finite negative m e, .finite negative' m' e' =>
    let p := Fraction.scale ⟨m, 1⟩ 2 e
    let q := Fraction.scale ⟨m', 1⟩ 2 e'
    match negative, negative' with
    | false, false => p.le q
    | true, true => q.le p
    | true, false => true
    | false, true => m = 0 && m' = 0

end Binary

end Stencil.Number
