import Stencil.Markup.Tag
import Stencil.Markup.Token

/-!
# Markup trees

Elements, control flow blocks, texts and comments as they are nested in a source. A text keeps the
tokens it was read from, because interpolations are taken out of it later.
-/

namespace Stencil.Markup

structure Attr where
  name : Text
  /-- The value; empty when there is none. -/
  value : Text
  hasValue : Bool
  quoted : Bool
  span : Span
  nameSpan : Span
  valueSpan : Option Span
deriving DecidableEq, Repr

structure Parameter where
  expression : Text
  span : Span
deriving DecidableEq, Repr

/-- Where an element stands; without an end tag it has no end span. -/
structure ElementSpans where
  whole : Span
  startTag : Span
  endTag : Option Span
deriving DecidableEq, Repr

/-- Where a block stands; one that is not closed has no end span. -/
structure BlockSpans where
  whole : Span
  name : Span
  header : Span
  close : Option Span
deriving DecidableEq, Repr

inductive Node where
  | element (name : Text) (attrs : List Attr) (children : List Node) (selfClosing : Bool)
      (spans : ElementSpans)
  | text (value : Text) (tokens : List Token) (span : Span)
  | comment (body : Text) (span : Span)
  | block (name : Text) (parameters : List Parameter) (children : List Node) (spans : BlockSpans)

def Node.span : Node → Span
  | .element _ _ _ _ spans => spans.whole
  | .text _ _ span => span
  | .comment _ span => span
  | .block _ _ _ spans => spans.whole

end Stencil.Markup
