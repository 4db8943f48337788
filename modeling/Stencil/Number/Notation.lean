import Stencil.Number.Shortest
import Stencil.Text.Class

/-!
# Numbers as text

Floating point numbers are written with their shortest digits: positionally while the leading digit
stands for `10 ^ -4` up to `10 ^ 5`, and with an exponent of at least two digits otherwise.
-/

namespace Stencil.Number

/-! ### Writing -/

/-- The digits of a whole number, most significant first. -/
def digitsOf (n : Nat) : Text := Text.ofNat n

/-- Digits with a point after the first `places` of them; zeros fill what is missing. -/
def positional (digits : Text) (places : Int) : Text :=
  if places ≤ 0 then "0." ++ Text.repeated (-places).toNat "0" ++ digits
  else
    let n := places.toNat
    if digits.length ≤ n then digits ++ Text.repeated (n - digits.length) "0"
    else digits.take n ++ "." ++ digits.drop n

/-- An exponent with its sign and at least two digits. -/
def exponentText (e : Int) : Text :=
  let digits := digitsOf e.natAbs
  (if e < 0 then Text.ofString "e-" else Text.ofString "e+") ++
    (if digits.length < 2 then "0" ++ digits else digits)

/-- Digits with a point after the first, and an exponent. -/
def scientific (digits : Text) (exponent : Int) : Text :=
  digits.take 1 ++ (if digits.length ≤ 1 then [] else 0x2E :: digits.drop 1) ++ exponentText exponent

/-- The least power of ten that is written positionally. -/
def leastPositional : Int := -4

/-- The least power of ten above those that are written positionally. -/
def pastPositional : Int := 6

/-- A decimal in the notation that its size asks for. -/
def Decimal.toText (d : Decimal) : Text :=
  let digits := digitsOf d.digits
  let leading : Int := d.exponent + (digits.length - 1 : Nat)
  if d.digits = 0 then "0"
  else if leading < leastPositional || pastPositional ≤ leading then scientific digits leading
  else positional digits (leading + 1)

namespace Binary

def magnitudeText (p : Precision) : Binary → Text
  | .nan => "NaN"
  | .infinite _ => "Inf"
  | .finite _ significand exponent => (shortest p significand exponent).toText

/-- A number as text. An infinite number always has a sign, another one a minus if it is negative. -/
def toText (p : Precision) (x : Binary) : Text :=
  match x with
  | .nan => x.magnitudeText p
  | .infinite negative => (if negative then "-" else "+") ++ x.magnitudeText p
  | .finite negative _ _ => (if negative then Text.ofString "-" else []) ++ x.magnitudeText p

/-- A number as text that always begins with a sign. -/
def signedText (p : Precision) (x : Binary) : Text :=
  match x with
  | .nan => "+" ++ x.magnitudeText p
  | .infinite negative | .finite negative _ _ =>
    (if negative then "-" else "+") ++ x.magnitudeText p

end Binary

/-! ### Reading -/

def isDigitByte (b : UInt8) : Bool := 0x30 ≤ b && b ≤ 0x39

/-- The whole number that a run of digits stands for. -/
def ofDigits (t : Text) : Nat := t.foldl (fun n b => n * 10 + (b.toNat - 48)) 0

/-- A run of digits for which `t.all isDigitByte` holds and that is not empty. -/
def isDigits (t : Text) : Bool := !t.isEmpty && t.all isDigitByte

/-- Whether a text begins with a minus, and what follows its sign, if it has one. -/
def takeSign : Text → Bool × Text
  | 0x2D :: rest => (true, rest)
  | 0x2B :: rest => (false, rest)
  | t => (false, t)

/-- The integer that an optional sign and decimal digits stand for. -/
def parseInt? (t : Text) : Option Int :=
  let found := takeSign t
  if isDigits found.2 then
    some (if found.1 then -(ofDigits found.2 : Int) else (ofDigits found.2 : Int))
  else none

/-- The integers of sixty-four bits. -/
def isWord (n : Int) : Bool := -0x8000000000000000 ≤ n && n < 0x8000000000000000

/-- Whether every underscore of a number stands between two digits; `previous` is the byte before. -/
def underscoresSeparate (previous : UInt8) : Text → Bool
  | [] => previous ≠ 0x5F
  | b :: rest =>
    (if b = 0x5F then isDigitByte previous
      else if previous = 0x5F then isDigitByte b
      else true)
    && underscoresSeparate b rest

/-- The exponent after a mark `e` or `E`; nothing is exponent zero. -/
def parseExponent? : Text → Option Int
  | [] => some 0
  | b :: rest => if b = 0x65 || b = 0x45 then parseInt? rest else none

/-- The decimal written as digits with at most one point and an optional exponent. -/
def parseDecimal? (t : Text) : Option Decimal :=
  let whole := t.takeWhile isDigitByte
  let afterWhole := t.dropWhile isDigitByte
  let point := afterWhole.head? = some 0x2E
  let fraction := if point then (afterWhole.drop 1).takeWhile isDigitByte else []
  let rest := if point then (afterWhole.drop 1).dropWhile isDigitByte else afterWhole
  if whole.isEmpty && fraction.isEmpty then none
  else
    (parseExponent? rest).map fun e =>
      ⟨ofDigits (whole ++ fraction), e - (fraction.length : Int)⟩

/-- A byte of an ASCII letter in lower case. -/
def lowerByte (b : UInt8) : UInt8 := if 0x41 ≤ b && b ≤ 0x5A then b + 32 else b

/-- Why a text is no floating point number. -/
inductive ParseFault where
  /-- The text is not written like a number. -/
  | malformed
  /-- The number is too large. -/
  | range
deriving DecidableEq, Repr

/-- Reads a floating point number. Underscores may stand between digits. -/
def parseBinary (p : Precision) (t : Text) : Except ParseFault Binary :=
  let found := takeSign t
  let word := found.2.map lowerByte
  if word == Text.ofString "inf" || word == Text.ofString "infinity" then .ok (.infinite found.1)
  else if t.map lowerByte == Text.ofString "nan" then .ok .nan
  else if !underscoresSeparate 0 found.2 then .error .malformed
  else
    match parseDecimal? (found.2.filter fun b => b ≠ 0x5F) with
    | none => .error .malformed
    | some d =>
      match Binary.ofDecimal p found.1 d.digits d.exponent with
      | .infinite _ => .error .range
      | x => .ok x

end Stencil.Number
