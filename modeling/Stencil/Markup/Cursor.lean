import Stencil.Source

/-!
# Cursors

A cursor is what is left to read of a source together with the position it has come to. It only ever
moves forward, one character at a time.
-/

namespace Stencil.Markup

/-- The characters still to be read and the position of the first of them. -/
structure Cursor where
  rest : List Glyph
  position : Position
deriving DecidableEq, Repr

namespace Cursor

def ofText (t : Text) : Cursor := ⟨t.glyphs, .origin⟩

def peek? (c : Cursor) : Option Char := c.rest.head?.map Glyph.char

def atEnd (c : Cursor) : Bool := c.rest.isEmpty

def isAt (c : Cursor) (x : Char) : Bool := c.peek? == some x

def isIn (c : Cursor) (p : Char → Bool) : Bool := c.peek?.any p

def advance (c : Cursor) : Cursor :=
  match c.rest with
  | [] => c
  | g :: gs => ⟨gs, c.position.after g⟩

def advanceBy (c : Cursor) : Nat → Cursor
  | 0 => c
  | n + 1 => c.advance.advanceBy n

/-- Whether a run of glyphs begins with the given characters. -/
def beginsWith : List Char → List Glyph → Bool
  | [], _ => true
  | _ :: _, [] => false
  | c :: cs, g :: gs => g.char == c && beginsWith cs gs

/-- Whether the given characters come next. -/
def isBefore (c : Cursor) (s : String) : Bool := beginsWith s.toList c.rest

/-- The first cursor, from the glyphs `gs` at position `p` on, at which `stop` holds of the glyphs
left; the end if there is none. -/
def seekFrom (stop : List Glyph → Bool) : List Glyph → Position → Cursor
  | [], p => ⟨[], p⟩
  | g :: gs, p => if stop (g :: gs) then ⟨g :: gs, p⟩ else seekFrom stop gs (p.after g)

/-- The first cursor from `c` on at which `stop` holds of the glyphs left, or the end. -/
def seek (stop : List Glyph → Bool) (c : Cursor) : Cursor := seekFrom stop c.rest c.position

/-- The cursor after the longest run of characters in a class. -/
def skipWhile (p : Char → Bool) (c : Cursor) : Cursor :=
  c.seek fun gs => !(gs.head?.any fun g => p g.char)

def spanTo (c d : Cursor) : Span := ⟨c.position, d.position⟩

def textTo (c d : Cursor) : Text :=
  Text.ofGlyphs (c.rest.take (c.rest.length - d.rest.length))

end Cursor

end Stencil.Markup
