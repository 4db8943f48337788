/-!
# Text

Text is a run of bytes. It is normally UTF-8, but nothing requires that: a source file may hold any
bytes, offsets count bytes, and an excerpt of a source may be cut in the middle of a character.
Characters are read off the bytes from left to right as *glyphs*, a byte that does not start a
character standing for U+FFFD, so that the bytes of the glyphs always concatenate to the text.
-/

namespace Stencil

/-- A run of bytes, normally UTF-8. -/
abbrev Text := List UInt8

/-- One character as it stands in a text: the character read and the bytes it was read from. -/
structure Glyph where
  char : Char
  bytes : Text
deriving DecidableEq, Repr

namespace Glyph

/-- A byte that does not belong to any character. -/
def stray (b : UInt8) : Glyph := ⟨'�', [b]⟩

/-- The smallest and the largest second byte that may follow the first byte of a longer sequence.
The bounds leave out overlong forms, surrogates and code points above U+10FFFF. -/
def secondByteRange (b : UInt8) : UInt8 × UInt8 :=
  if b = 0xE0 then (0xA0, 0xBF)
  else if b = 0xED then (0x80, 0x9F)
  else if b = 0xF0 then (0x90, 0xBF)
  else if b = 0xF4 then (0x80, 0x8F)
  else (0x80, 0xBF)

/-- Whether a byte continues a sequence. -/
def isContinuation (b : UInt8) : Bool := 0x80 ≤ b && b ≤ 0xBF

/-- Whether `c` may be the second byte after `b`. -/
def followedBy (b c : UInt8) : Bool :=
  (secondByteRange b).1 ≤ c && c ≤ (secondByteRange b).2

/-- The low six bits of a continuation byte. -/
def payload (b : UInt8) : Nat := b.toNat % 64

/-- The glyph that starts with byte `b`, given the bytes after it. -/
def first (b : UInt8) (rest : Text) : Glyph :=
  if b < 0x80 then ⟨Char.ofNat b.toNat, [b]⟩
  else if 0xC2 ≤ b && b ≤ 0xDF then
    match rest with
    | c :: _ =>
      if followedBy b c then ⟨Char.ofNat (b.toNat % 32 * 64 + payload c), [b, c]⟩ else stray b
    | _ => stray b
  else if 0xE0 ≤ b && b ≤ 0xEF then
    match rest with
    | c :: d :: _ =>
      if followedBy b c && isContinuation d then
        ⟨Char.ofNat (b.toNat % 16 * 4096 + payload c * 64 + payload d), [b, c, d]⟩
      else stray b
    | _ => stray b
  else if 0xF0 ≤ b && b ≤ 0xF4 then
    match rest with
    | c :: d :: e :: _ =>
      if followedBy b c && isContinuation d && isContinuation e then
        ⟨Char.ofNat (b.toNat % 8 * 262144 + payload c * 4096 + payload d * 64 + payload e),
          [b, c, d, e]⟩
      else stray b
    | _ => stray b
  else stray b

end Glyph

namespace Text

def ofString (s : String) : Text := s.toUTF8.data.toList

instance : Coe String Text := ⟨ofString⟩

def ofChar (c : Char) : Text := String.utf8EncodeChar c

/-- The glyphs of a text whose first `skip` bytes belong to a glyph already read. -/
def glyphsAfter (skip : Nat) : Text → List Glyph
  | [] => []
  | b :: rest =>
    match skip with
    | n + 1 => glyphsAfter n rest
    | 0 =>
      let g := Glyph.first b rest
      g :: glyphsAfter (g.bytes.length - 1) rest

/-- The characters of a text in order, each with its bytes. -/
def glyphs (t : Text) : List Glyph := glyphsAfter 0 t

def chars (t : Text) : List Char := t.glyphs.map Glyph.char

def ofGlyphs (gs : List Glyph) : Text := gs.flatMap Glyph.bytes

def ofChars (cs : List Char) : Text := cs.flatMap ofChar

/-- The text as a string, every stray byte shown as U+FFFD. -/
def toString (t : Text) : String := String.ofList t.chars

def startsWith (t p : Text) : Bool := p.isPrefixOf t

def endsWith (t p : Text) : Bool := p.isSuffixOf t

/-- The parts with `sep` between them. -/
def join (sep : Text) : List Text → Text
  | [] => []
  | [t] => t
  | t :: ts => t ++ sep ++ join sep ts

/-- The parts of a text between the occurrences of byte `sep`; always at least one. -/
def splitOn (sep : UInt8) : Text → List Text
  | [] => [[]]
  | b :: rest =>
    match splitOn sep rest with
    | part :: parts => if b = sep then [] :: part :: parts else (b :: part) :: parts
    | [] => [[b]]

def replaceByte (t : Text) (b : UInt8) (new : Text) : Text :=
  t.flatMap fun c => if c = b then new else [c]

/-- Bytewise order: a proper beginning comes first. -/
def le : Text → Text → Bool
  | [], _ => true
  | _ :: _, [] => false
  | a :: s, b :: t => a < b || (a == b && le s t)

/-- Line endings written as one LF: CR LF and a lone CR both become LF. -/
def normalizeLineEndings : Text → Text
  | 0x0D :: 0x0A :: rest => 0x0A :: normalizeLineEndings rest
  | 0x0D :: rest => 0x0A :: normalizeLineEndings rest
  | b :: rest => b :: normalizeLineEndings rest
  | [] => []

def repeated (n : Nat) (t : Text) : Text := (List.replicate n t).flatten

def ofNat (n : Nat) : Text := ofString (Nat.repr n)

/-- An integer in decimal digits, a minus sign in front when it is negative. -/
def ofInt (n : Int) : Text :=
  match n with
  | .ofNat n => ofNat n
  | .negSucc n => 0x2D :: ofNat (n + 1)

end Text

end Stencil
