import Stencil.Text.Basic

/-!
# Character classes

Three different sets of blanks are in use. *Markup space* separates the parts of a tag or a block
header. *Unicode white space* is what trimming removes. *Collapsible blanks* are the characters
that whitespace removal may drop or merge; a no-break space is not one of them.
-/

namespace Stencil

namespace CharClass

/-- Markup space: the control characters from tab on, the space, and the no-break space. -/
def isMarkupSpace (c : Char) : Bool :=
  (9 ≤ c.toNat && c.toNat ≤ 32) || c.toNat == 160

def isDigit (c : Char) : Bool := '0' ≤ c && c ≤ '9'

def isLetter (c : Char) : Bool := ('a' ≤ c && c ≤ 'z') || ('A' ≤ c && c ≤ 'Z')

def isNewline (c : Char) : Bool := c == '\n' || c == '\r'

/-- A character that opens a quoted attribute value. -/
def isQuote (c : Char) : Bool := c == '\'' || c == '"'

/-- A character allowed in a path segment. -/
def isIdentifier (c : Char) : Bool :=
  isLetter c || isDigit c || c == '_' || c == '$' || c == '-'

def isBlockName (c : Char) : Bool := isLetter c || isDigit c || c == '_'

def isVariableStart (c : Char) : Bool := isLetter c || c == '_' || c == '$'

def isVariable (c : Char) : Bool := isVariableStart c || isDigit c

/-- The blanks that separate the words of a loop header. -/
def isHeaderSpace (c : Char) : Bool :=
  c == ' ' || c == '\t' || c == '\n' || c == '\r' || c.toNat == 12

/-- A character of Unicode's property White_Space. -/
def isWhiteSpace (c : Char) : Bool :=
  let n := c.toNat
  (9 ≤ n && n ≤ 13) || n == 32 || n == 0x85 || n == 0xA0 || n == 0x1680 ||
    (0x2000 ≤ n && n ≤ 0x200A) || n == 0x2028 || n == 0x2029 || n == 0x202F || n == 0x205F ||
    n == 0x3000

/-- A blank that whitespace removal may drop or merge. -/
def isCollapsible (c : Char) : Bool :=
  let n := c.toNat
  (9 ≤ n && n ≤ 13) || n == 32 || n == 0x1680 || n == 0x180E ||
    (0x2000 ≤ n && n ≤ 0x200A) || n == 0x2028 || n == 0x2029 || n == 0x202F || n == 0x205F ||
    n == 0x3000 || n == 0xFEFF

end CharClass

namespace Text

/-- The glyphs without the white space at either end. -/
def trimGlyphs (gs : List Glyph) : List Glyph :=
  let blank := fun g : Glyph => CharClass.isWhiteSpace g.char
  ((gs.dropWhile blank).reverse.dropWhile blank).reverse

def trim (t : Text) : Text := ofGlyphs (trimGlyphs t.glyphs)

/-- Whether a text holds nothing but white space. -/
def isBlank (t : Text) : Bool := t.trim.isEmpty

end Text

end Stencil
