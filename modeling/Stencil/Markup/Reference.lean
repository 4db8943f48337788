import Stencil.Text.Basic
import Stencil.Markup.Reference.Names

/-!
# Character references

`&lt;`, `&#60;` and `&#x3C;` stand for a character. A numeric reference may lack its semicolon; a
named one may lack it where the name is listed without. Of a run of letters and digits that is no name
the longest beginning that is one, of two to six bytes, is taken. What is no reference stays as it is
written.
-/

namespace Stencil.Markup.Reference

def hexDigit? (b : UInt8) : Option Nat :=
  if 0x30 ≤ b && b ≤ 0x39 then some (b.toNat - 0x30)
  else if 0x61 ≤ b && b ≤ 0x66 then some (b.toNat - 0x61 + 10)
  else if 0x41 ≤ b && b ≤ 0x46 then some (b.toNat - 0x41 + 10)
  else none

def decimalDigit? (b : UInt8) : Option Nat :=
  if 0x30 ≤ b && b ≤ 0x39 then some (b.toNat - 0x30) else none

def isNameByte (b : UInt8) : Bool :=
  (0x61 ≤ b && b ≤ 0x7A) || (0x41 ≤ b && b ≤ 0x5A) || (0x30 ≤ b && b ≤ 0x39)

/-- The characters that the numbers from 0x80 to 0x9F mean, which are those of Windows-1252. -/
def windows1252 : List Nat :=
  [0x20AC, 0x81, 0x201A, 0x192, 0x201E, 0x2026, 0x2020, 0x2021,
   0x2C6, 0x2030, 0x160, 0x2039, 0x152, 0x8D, 0x17D, 0x8F,
   0x90, 0x2018, 0x2019, 0x201C, 0x201D, 0x2022, 0x2013, 0x2014,
   0x2DC, 0x2122, 0x161, 0x203A, 0x153, 0x9D, 0x17E, 0x178]

/-- The character a number stands for. Numbers are kept in 32 bits with a sign; zero, surrogates and
all that is no code point mean U+FFFD. -/
def charOfNumber (n : Nat) : Char :=
  let n := n % 0x100000000
  if 0x80 ≤ n ∧ n ≤ 0x9F then Char.ofNat ((windows1252[n - 0x80]?).getD 0xFFFD)
  else if n = 0 ∨ (0xD800 ≤ n ∧ n ≤ 0xDFFF) ∨ 0x10FFFF < n then Char.ofNat 0xFFFD
  else Char.ofNat n

def numberOf (base : Nat) (digit? : UInt8 → Option Nat) (ds : Text) : Nat :=
  ds.foldl (fun n d => base * n + (digit? d).getD 0) 0

/-- The characters written as a list of hexadecimal numbers with plus signs between them. -/
def charsOfCodes (codes : Text) : Text :=
  (codes.splitOn 0x2B).flatMap fun code => Text.ofChar (Char.ofNat (numberOf 16 hexDigit? code))

/-- What a named reference stands for, given its name with the semicolon if it has one. -/
def named? (name : Text) : Option Text :=
  match name with
  | [] => none
  | b :: _ =>
    (entriesOf b).findSome? fun line =>
      ((Text.ofString line).splitOn 0x20).findSome? fun entry =>
        if entry.startsWith (name ++ [0x3D]) then some (charsOfCodes (entry.drop (name.length + 1)))
        else none

/-- The longest beginning of `name` of two to `size` bytes that is a name: what it stands for and its
length. -/
def longestNamed? (name : Text) : Nat → Option (Text × Nat)
  | 0 => none
  | 1 => none
  | size + 2 =>
    match named? (name.take (size + 2)) with
    | some t => some (t, size + 2)
    | none => longestNamed? name (size + 1)

/-- The longest name that may lack its semicolon. -/
def longestBareName : Nat := 6

/-- What stands for the reference whose ampersand comes before `rest`, and how many bytes of `rest`
belong to it. -/
def expand (rest : Text) : Text × Nat :=
  match rest with
  | 0x23 :: tail =>
    let isHex := tail.head? == some 0x78 || tail.head? == some 0x58
    let digit? := if isHex then hexDigit? else decimalDigit?
    let body := if isHex then tail.drop 1 else tail
    let digits := body.takeWhile fun b => (digit? b).isSome
    let closed := (body.drop digits.length).head? == some 0x3B
    let size := 1 + (if isHex then 1 else 0) + digits.length + (if closed then 1 else 0)
    if tail.length ≤ 1 || size ≤ 2 then ([0x26], 0)
    else (Text.ofChar (charOfNumber (numberOf (if isHex then 16 else 10) digit? digits)), size)
  | _ =>
    let letters := rest.takeWhile isNameByte
    let closed := (rest.drop letters.length).head? == some 0x3B
    let name := if closed then letters ++ [0x3B] else letters
    match named? name with
    | some t => (t, name.length)
    | none =>
      match longestNamed? name (min (name.length - 1) longestBareName) with
      | some found => found
      | none => (0x26 :: name, name.length)

/-- A text with its references replaced, after `skip` bytes that belong to one already replaced. -/
def decodeAfter (skip : Nat) : Text → Text
  | [] => []
  | b :: rest =>
    match skip with
    | n + 1 => decodeAfter n rest
    | 0 =>
      if b = 0x26 then
        let found := expand rest
        found.1 ++ decodeAfter found.2 rest
      else b :: decodeAfter 0 rest

/-- A text with every character reference replaced by what it stands for. -/
def decode (t : Text) : Text := decodeAfter 0 t

end Stencil.Markup.Reference
