import Stencil.Number.Notation

/-!
# Whole numbers in other bases

A whole number may be written in base two, eight or sixteen behind `0b`, `0o` or `0x`; a leading zero
alone also means base eight.
-/

namespace Stencil.Number

/-- The value of a digit or a letter, letters counting on from ten. -/
def digitValue? (b : UInt8) : Option Nat :=
  if isDigitByte b then some (b.toNat - 48)
  else if 0x61 ≤ lowerByte b && lowerByte b ≤ 0x7A then some ((lowerByte b).toNat - 87)
  else none

/-- The number that digits in a base stand for, read on from `n`. -/
def parseDigits? (base n : Nat) : Text → Option Nat
  | [] => some n
  | b :: rest =>
    match digitValue? b with
    | some d => if d < base then parseDigits? base (n * base + d) rest else none
    | none => none

/-- The base a number is written in, and its digits. A mark of a base must be followed by a digit. -/
def splitBase (t : Text) : Nat × Text :=
  match t with
  | 0x30 :: mark :: b :: rest =>
    if lowerByte mark = 0x62 then (2, b :: rest)
    else if lowerByte mark = 0x6F then (8, b :: rest)
    else if lowerByte mark = 0x78 then (16, b :: rest)
    else (8, mark :: b :: rest)
  | 0x30 :: rest => (8, rest)
  | _ => (10, t)

/-- The number that digits behind the mark of a base stand for. -/
def parseMarked? (t : Text) : Option Nat :=
  if t.isEmpty then none else parseDigits? (splitBase t).1 0 (splitBase t).2

def withSign (negative : Bool) (n : Nat) : Int := if negative then -(n : Int) else (n : Int)

/-- The integer of sixty-four bits that an optional sign and digits behind the mark of a base stand
for. -/
def parseMarkedInt? (t : Text) : Option Int :=
  let found := takeSign t
  ((parseMarked? found.2).map (withSign found.1)).filter isWord

/-- The integer of sixty-four bits that an optional sign and digits in a base stand for. -/
def parseBasedInt? (base : Nat) (t : Text) : Option Int :=
  let found := takeSign t
  if found.2.isEmpty then none
  else ((parseDigits? base 0 found.2).map (withSign found.1)).filter isWord

end Stencil.Number
