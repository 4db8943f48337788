import Stencil.Text.Class
import Stencil.Markup.Node

/-!
# Whitespace removal

Texts of nothing but collapsible blanks are dropped, and two or more blanks in a row become one space.
The content of `pre`, `textarea`, `script` and `style` is left alone, and so are interpolations and
verbatim text.
-/

namespace Stencil.Markup

/-- How many blanks in a row have been passed and not yet written. -/
inductive BlankRun where
  | none
  | one (blank : Glyph)
  | many

namespace BlankRun

/-- The space that stands for a run of blanks. -/
def space : Glyph := ⟨' ', [0x20]⟩

def toGlyphs : BlankRun → List Glyph
  | .none => []
  | .one blank => [blank]
  | .many => [space]

def add : BlankRun → Glyph → BlankRun
  | .none, blank => .one blank
  | _, _ => .many

end BlankRun

/-- Glyphs with every run of two or more blanks written as one space, after the given run. -/
def collapseBlanksAfter (run : BlankRun) : List Glyph → List Glyph
  | [] => run.toGlyphs
  | g :: gs =>
    if CharClass.isCollapsible g.char then collapseBlanksAfter (run.add g) gs
    else run.toGlyphs ++ g :: collapseBlanksAfter .none gs

/-- A text with every run of two or more blanks written as one space. -/
def collapseBlanks (t : Text) : Text := Text.ofGlyphs (collapseBlanksAfter .none t.glyphs)

/-- Whether a token is text of nothing but blanks. -/
def Token.isBlank (t : Token) : Bool :=
  match t.lexeme with
  | .text value => value.chars.all CharClass.isCollapsible
  | _ => false

/-- A token with its blanks collapsed, if it is text. -/
def Token.collapseBlanks (t : Token) : Token :=
  match t.lexeme with
  | .text value => ⟨.text (Markup.collapseBlanks value), t.span⟩
  | _ => t

/-- The elements whose content keeps its blanks. -/
def keepsBlanks (name : Text) : Bool :=
  ["pre", "textarea", "script", "style"].any fun s => name.lowersTo s

mutual

/-- A node without insignificant blanks, or nothing if it is only such. -/
def Node.removeBlanks : Node → Option Node
  | .element name attrs children selfClosing spans =>
    some (.element name attrs (if keepsBlanks name then children else removeBlanks children)
      selfClosing spans)
  | .text value tokens span =>
    if tokens.all Token.isBlank then none
    else some (.text (collapseBlanks value) (tokens.map Token.collapseBlanks) span)
  | .comment body span => some (.comment body span)
  | .block name parameters children spans =>
    some (.block name parameters (removeBlanks children) spans)

def removeBlanks : List Node → List Node
  | [] => []
  | n :: ns => (n.removeBlanks).toList ++ removeBlanks ns

end

end Stencil.Markup
