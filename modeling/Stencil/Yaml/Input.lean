import Stencil.Yaml.Fault

/-!
# Reading characters

A document is UTF-8, or UTF-16 with a byte order mark. It is read piece by piece, and a byte that
cannot be read makes the whole piece it is in unreadable; a character cut off at the end of the
document is found only when it is asked for.
-/

namespace Stencil.Yaml

inductive Encoding where
  | utf8
  | utf16le
  | utf16be
deriving DecidableEq, Repr

/-- What is found at the front of some bytes. -/
inductive Decoded where
  | char (c : Char) (width : Nat)
  /-- The bytes end within a character. -/
  | cut (problem : Problem)
  | bad (problem : Problem)

namespace Decoded

def isAllowed (n : Nat) : Bool :=
  n == 0x09 || n == 0x0A || n == 0x0D || (0x20 ≤ n && n ≤ 0x7E) || n == 0x85 ||
    (0xA0 ≤ n && n ≤ 0xD7FF) || (0xE000 ≤ n && n ≤ 0xFFFD) || (0x10000 ≤ n && n ≤ 0x10FFFF)

/-- A code point that was read from `width` bytes. -/
def ofCode (n width : Nat) : Decoded :=
  if isAllowed n then .char (Char.ofNat n) width else .bad .controlCharacter

/-- How many bytes a character has that begins with a byte; zero if none does. -/
def utf8Width (b : UInt8) : Nat :=
  if b < 0x80 then 1
  else if 0xC0 ≤ b && b < 0xE0 then 2
  else if 0xE0 ≤ b && b < 0xF0 then 3
  else if 0xF0 ≤ b && b < 0xF8 then 4
  else 0

/-- The least code point that needs a width. -/
def leastOfWidth : Nat → Nat
  | 2 => 0x80
  | 3 => 0x800
  | 4 => 0x10000
  | _ => 0

/-- The bits of a first byte that belong to the code point. -/
def leadBits (b : UInt8) : Nat → Nat
  | 2 => b.toNat % 32
  | 3 => b.toNat % 16
  | 4 => b.toNat % 8
  | _ => b.toNat

def utf8 (b : UInt8) (rest : Text) : Decoded :=
  let width := utf8Width b
  if width = 0 then .bad .leadingOctet
  else if rest.length + 1 < width then .cut .incompleteSequence
  else
    let trail := rest.take (width - 1)
    let n := trail.foldl (fun n t => n * 64 + t.toNat % 64) (leadBits b width)
    if trail.any fun t => t < 0x80 || 0xC0 ≤ t then .bad .trailingOctet
    else if n < leastOfWidth width then .bad .sequenceLength
    else if (0xD800 ≤ n && n ≤ 0xDFFF) || 0x10FFFF < n then .bad .unicodeCharacter
    else ofCode n width

/-- The code unit of two bytes. -/
def unit (big : Bool) (a b : UInt8) : Nat :=
  if big then a.toNat * 256 + b.toNat else b.toNat * 256 + a.toNat

def utf16 (big : Bool) : Text → Decoded
  | a :: b :: rest =>
    let n := unit big a b
    if 0xDC00 ≤ n && n < 0xE000 then .bad .lowSurrogate
    else if 0xD800 ≤ n && n < 0xDC00 then
      match rest with
      | c :: d :: _ =>
        let m := unit big c d
        if 0xDC00 ≤ m && m < 0xE000 then ofCode (0x10000 + n % 1024 * 1024 + m % 1024) 4
        else .bad .missingLowSurrogate
      | _ => .cut .incompletePair
    else ofCode n 2
  | _ => .cut .incompleteUnit

def first (encoding : Encoding) (b : UInt8) (rest : Text) : Decoded :=
  match encoding with
  | .utf8 => utf8 b rest
  | .utf16le => utf16 false (b :: rest)
  | .utf16be => utf16 true (b :: rest)

end Decoded

/-- What a piece of a document was read as: its characters, last first, and the bytes it ends with
that are not yet a character. -/
inductive Piece where
  | done (chars : List Char)
  | cut (chars : List Char) (rest : Text) (problem : Problem)
  | bad (problem : Problem)

/-- Reads a piece of which the first `skip` bytes belong to a character already read. -/
def readPiece (encoding : Encoding) (skip : Nat) (chars : List Char) : Text → Piece
  | [] => .done chars
  | b :: rest =>
    match skip with
    | n + 1 => readPiece encoding n chars rest
    | 0 =>
      match Decoded.first encoding b rest with
      | .char c width => readPiece encoding (width - 1) (c :: chars) rest
      | .cut problem => .cut chars (b :: rest) problem
      | .bad problem => .bad problem

/-- The characters of a document, and why there are no more, if that is not its end. -/
structure Input where
  chars : List Char
  stop : Option Problem
deriving Repr

/-- How many bytes are read at a time. -/
def pieceSize : Nat := 512

/-- Reads bytes piece by piece, the next piece having `size` bytes; `chars` are those already read,
last first, and `fuel` bounds the number of pieces. -/
def readPieces (encoding : Encoding) : (fuel size : Nat) → (chars : List Char) → Text → Input
  | 0, _, chars, _ => ⟨chars.reverse, none⟩
  | fuel + 1, size, chars, bytes =>
    if bytes.isEmpty then ⟨chars.reverse, none⟩
    else
      match readPiece encoding 0 chars (bytes.take size) with
      | .done more => readPieces encoding fuel pieceSize more (bytes.drop size)
      | .bad problem => ⟨chars.reverse, some problem⟩
      | .cut more rest problem =>
        if bytes.length ≤ size then ⟨more.reverse, some problem⟩
        else readPieces encoding fuel pieceSize more (rest ++ bytes.drop size)

/-- The encoding of a document and the length of its byte order mark. -/
def Encoding.ofBytes : Text → Encoding × Nat
  | 0xFF :: 0xFE :: _ => (.utf16le, 2)
  | 0xFE :: 0xFF :: _ => (.utf16be, 2)
  | 0xEF :: 0xBB :: 0xBF :: _ => (.utf8, 3)
  | _ => (.utf8, 0)

/-- Reads a document. In one of less than three bytes a cut off character is found at once. -/
def Input.ofText (t : Text) : Input :=
  let found := Encoding.ofBytes t
  let input := readPieces found.1 (t.length + 1) (pieceSize - found.2) [] (t.drop found.2)
  if t.length < 3 && input.stop.isSome then ⟨[], input.stop⟩ else input

end Stencil.Yaml
