import Stencil.Number.Notation

/-!
# Timestamps

A date, or a date and a time. Behind `T` a time has a zone, behind blanks it has none and is meant in
UTC. The fields of a date and of a time may have one digit or two; a fraction of a second counts up to
nine digits.
-/

namespace Stencil.Yaml

/-- A moment as it is written down. -/
structure Timestamp where
  year : Nat
  month : Nat
  day : Nat
  hour : Nat
  minute : Nat
  second : Nat
  /-- The digits of the fraction of a second. -/
  fraction : Text
  /-- The zone, in minutes east of UTC. -/
  zone : Int
deriving DecidableEq, Repr

namespace Timestamp

def isLeap (year : Nat) : Bool := year % 4 == 0 && (year % 100 != 0 || year % 400 == 0)

def daysIn (year month : Nat) : Nat :=
  if month = 2 then (if isLeap year then 29 else 28)
  else if month = 4 || month = 6 || month = 9 || month = 11 then 30
  else 31

/-! ### Reading -/

/-- A number of one or two digits, and what follows it. -/
def takeField : Text → Option (Nat × Text)
  | a :: b :: rest =>
    if !Number.isDigitByte a then none
    else if Number.isDigitByte b then some (Number.ofDigits [a, b], rest)
    else some (Number.ofDigits [a], b :: rest)
  | [a] => if Number.isDigitByte a then some (Number.ofDigits [a], []) else none
  | [] => none

/-- A field that is less than a bound. -/
def takeFieldBelow (bound : Nat) (t : Text) : Option (Nat × Text) :=
  (takeField t).filter fun found => found.1 < bound

/-- What follows a byte. -/
def takeByte (b : UInt8) : Text → Option Text
  | c :: rest => if c = b then some rest else none
  | [] => none

def takeDate (t : Text) : Option (Timestamp × Text) := do
  let year := t.takeWhile Number.isDigitByte
  if year.length ≠ 4 then failure
  let t ← takeByte 0x2D (t.drop 4)
  let (month, t) ← takeFieldBelow 13 t
  if month = 0 then failure
  let t ← takeByte 0x2D t
  let (day, t) ← takeField t
  let year := Number.ofDigits year
  if day = 0 || daysIn year month < day then failure
  return (⟨year, month, day, 0, 0, 0, [], 0⟩, t)

/-- The digits of a fraction, and what follows it. -/
def takeFraction (t : Text) : Text × Text :=
  match t with
  | mark :: rest =>
    let digits := rest.takeWhile Number.isDigitByte
    if (mark = 0x2E || mark = 0x2C) && !digits.isEmpty then
      (digits.take 9, rest.dropWhile Number.isDigitByte)
    else ([], t)
  | [] => ([], t)

def takeClock (s : Timestamp) (t : Text) : Option (Timestamp × Text) := do
  let (hour, t) ← takeFieldBelow 24 t
  let t ← takeByte 0x3A t
  let (minute, t) ← takeFieldBelow 60 t
  let t ← takeByte 0x3A t
  let (second, t) ← takeFieldBelow 60 t
  let (fraction, t) := takeFraction t
  return ({ s with hour := hour, minute := minute, second := second, fraction := fraction }, t)

/-- A zone, in minutes east of UTC. -/
def zoneOf? : Text → Option Int
  | [0x5A] => some 0
  | [sign, a, b, colon, c, d] =>
    let hours := Number.ofDigits [a, b]
    let minutes := Number.ofDigits [c, d]
    if colon ≠ 0x3A || !Number.isDigits [a, b, c, d] || 24 < hours || 60 < minutes then none
    else if sign = 0x2B then some ((hours * 60 + minutes : Nat) : Int)
    else if sign = 0x2D then some (-((hours * 60 + minutes : Nat) : Int))
    else none
  | _ => none

def ofText? (t : Text) : Option Timestamp :=
  match takeDate t with
  | none => none
  | some (date, []) => some date
  | some (date, mark :: rest) =>
    if mark = 0x54 || mark = 0x74 then do
      let (moment, rest) ← takeClock date rest
      let zone ← zoneOf? rest
      return { moment with zone := zone }
    else if mark = 0x20 then do
      let (moment, rest) ← takeClock date (rest.dropWhile (· = 0x20))
      if rest.isEmpty then return moment else failure
    else none

/-! ### Writing -/

/-- A number with zeros in front of it up to a width. -/
def padded (width n : Nat) : Text :=
  let digits := Text.ofNat n
  Text.repeated (width - digits.length) "0" ++ digits

/-- A fraction without the zeros at its end. -/
def fractionText (digits : Text) : Text :=
  let kept := (digits.reverse.dropWhile (· = 0x30)).reverse
  if kept.isEmpty then [] else 0x2E :: kept

def offsetText (zone : Int) : Text :=
  (if zone < 0 then "-" else "+") ++ padded 2 (zone.natAbs / 60) ++ padded 2 (zone.natAbs % 60)

/-- A zone: its difference from UTC and its name, which is again the difference if it is not UTC. -/
def zoneText (zone : Int) : Text :=
  offsetText zone ++ " " ++ (if zone = 0 then Text.ofString "UTC" else offsetText zone)

def toText (s : Timestamp) : Text :=
  padded 4 s.year ++ "-" ++ padded 2 s.month ++ "-" ++ padded 2 s.day ++ " " ++
    padded 2 s.hour ++ ":" ++ padded 2 s.minute ++ ":" ++ padded 2 s.second ++
    fractionText s.fraction ++ " " ++ zoneText s.zone

end Timestamp

end Stencil.Yaml
