import Stencil.Number.Binary

/-!
# Shortest decimals

The shortest decimal of a floating point number is the one with the fewest digits among those that
round back to the number, and among these the nearest.
-/

namespace Stencil.Number

/-- A decimal: `digits * 10 ^ exponent`. -/
structure Decimal where
  digits : Nat
  exponent : Int
deriving DecidableEq, Repr

namespace Decimal

/-- The decimal without zeros at the end of its digits; `fuel` bounds how many are dropped. -/
def trimmed : (fuel : Nat) → Decimal → Decimal
  | 0, d => d
  | fuel + 1, d =>
    if d.digits ≠ 0 && d.digits % 10 = 0 then trimmed fuel ⟨d.digits / 10, d.exponent + 1⟩ else d

end Decimal

/-- The fractions that round to a number, and whether the ends are among them. -/
structure Rounding where
  value : Fraction
  low : Fraction
  high : Fraction
  closed : Bool
deriving Repr

namespace Rounding

/-- The fractions that round to `significand * 2 ^ exponent`. Below a power of two the next number is
only half as far away. -/
def of (p : Precision) (significand : Nat) (exponent : Int) : Rounding :=
  let quarters (n : Nat) : Fraction := Fraction.scale ⟨n, 1⟩ 2 (exponent - 2)
  let narrow := significand = Nat.pow 2 (p.bits - 1) && p.least < exponent
  { value := quarters (4 * significand)
    low := quarters (4 * significand - if narrow then 1 else 2)
    high := quarters (4 * significand + 2)
    closed := significand % 2 = 0 }

def contains (r : Rounding) (q : Fraction) : Bool :=
  if r.closed then r.low.le q && q.le r.high else r.low.lt q && q.lt r.high

/-- The power of ten that is not above the number while the next one is. -/
def leadingExponent (r : Rounding) : Int :=
  let guess : Int :=
    Int.fdiv (((Nat.log2 r.value.num : Int) - (Nat.log2 r.value.den : Int)) * 30103) 100000
  let power (k : Int) : Fraction := Fraction.scale ⟨1, 1⟩ 10 k
  (([guess - 1, guess, guess + 1].find? fun k =>
    (power k).le r.value && r.value.lt (power (k + 1)))).getD guess

/-- How far a fraction is from the number, as a fraction. -/
def distance (r : Rounding) (q : Fraction) : Fraction :=
  let a := r.value.num * q.den
  let b := q.num * r.value.den
  ⟨if a < b then b - a else a - b, r.value.den * q.den⟩

/-- The decimal with a given last place that rounds to the number, the nearer of two. -/
def candidate? (r : Rounding) (place : Int) : Option Decimal :=
  let below := (r.value.scale 10 (-place)).floor
  let grid (n : Nat) : Fraction := Fraction.scale ⟨n, 1⟩ 10 place
  match r.contains (grid below), r.contains (grid (below + 1)) with
  | true, true =>
    if (r.distance (grid (below + 1))).lt (r.distance (grid below)) then some ⟨below + 1, place⟩
    else some ⟨below, place⟩
  | true, false => some ⟨below, place⟩
  | false, true => some ⟨below + 1, place⟩
  | false, false => none

/-- The first decimal that rounds to the number, with the last place moving right from `place`. -/
def search (r : Rounding) : (fuel : Nat) → (place : Int) → Decimal
  | 0, place => ⟨(r.value.scale 10 (-place)).floor, place⟩
  | fuel + 1, place => (r.candidate? place).getD (r.search fuel (place - 1))

end Rounding

/-- The most digits a shortest decimal has. -/
def maxDigits : Nat := 17

/-- The shortest decimal of `significand * 2 ^ exponent`. -/
def shortest (p : Precision) (significand : Nat) (exponent : Int) : Decimal :=
  if significand = 0 then ⟨0, 0⟩
  else
    let r := Rounding.of p significand exponent
    (r.search maxDigits r.leadingExponent).trimmed maxDigits

end Stencil.Number
