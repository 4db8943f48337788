import Stencil.Text.Printable
import Stencil.Text.Basic

/-!
# Quoted literals

A text is quoted between double quotes, a single character between single quotes. Printable characters
stand for themselves; the rest is escaped: the usual letters for the usual control characters, `\x`
with two digits for other control characters and for stray bytes, `\u` with four and `\U` with eight
for other characters.
-/

namespace Stencil.Text

def hexDigit (n : Nat) : UInt8 :=
  if n < 10 then UInt8.ofNat (0x30 + n) else UInt8.ofNat (0x61 + (n - 10))

/-- The last `width` hexadecimal digits of a number. -/
def hexDigits (n : Nat) : Nat → Text
  | 0 => []
  | width + 1 => hexDigits (n / 16) width ++ [hexDigit (n % 16)]

/-- A character as it is written between quotes of the given kind. -/
def escapeChar (quote : Char) (c : Char) : Text :=
  let n := c.toNat
  if c == quote || c == '\\' then 0x5C :: ofChar c
  else if isPrintable c then ofChar c
  else if n = 7 then "\\a"
  else if n = 8 then "\\b"
  else if n = 12 then "\\f"
  else if n = 10 then "\\n"
  else if n = 13 then "\\r"
  else if n = 9 then "\\t"
  else if n = 11 then "\\v"
  else if n < 32 || n == 0x7F then ofString "\\x" ++ hexDigits n 2
  else if n < 0x10000 then ofString "\\u" ++ hexDigits n 4
  else ofString "\\U" ++ hexDigits n 8

/-- A glyph as it is written in a quoted text; a stray byte is shown as a number. -/
def escapeGlyph (g : Glyph) : Text :=
  match g.bytes with
  | [b] => if b < 0x80 then escapeChar '"' g.char else ofString "\\x" ++ hexDigits b.toNat 2
  | _ => escapeChar '"' g.char

def quoted (t : Text) : Text := [0x22] ++ t.glyphs.flatMap escapeGlyph ++ [0x22]

def quotedChar (c : Char) : Text := [0x27] ++ escapeChar '\'' c ++ [0x27]

end Stencil.Text
