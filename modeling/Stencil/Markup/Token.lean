import Stencil.Source

/-!
# Tokens

The pieces a template source is read into. A start tag and a block header are several tokens each; the
stream always ends with one `eof`.
-/

namespace Stencil.Markup

/-- A piece of a template source, without its place. -/
inductive Lexeme where
  /-- `<` and the name of an element. -/
  | tagOpenStart (name : Text)
  /-- `>` after a start tag. -/
  | tagOpenEnd
  /-- `/>` after a start tag. -/
  | tagOpenEndVoid
  | tagClose (name : Text)
  /-- Text with its character references replaced. -/
  | text (value : Text)
  /-- The content of an element that is kept verbatim. -/
  | rawText (value : Text)
  | interpolation (expression : Text)
  | comment (body : Text)
  | attrName (name : Text)
  | attrQuote (quote : Text)
  | attrValue (value : Text)
  /-- `@` and the name of a block. -/
  | blockOpenStart (name : Text)
  | blockParameter (expression : Text)
  | blockOpenEnd
  | blockClose
  | eof
  /-- A piece that belongs to no construct; it is passed over when the markup tree is built. -/
  | stray
deriving DecidableEq, Repr

namespace Lexeme

def kindNames : List String :=
  ["TAG_OPEN_START", "TAG_OPEN_END", "TAG_OPEN_END_VOID", "TAG_CLOSE", "TEXT", "RAW_TEXT",
    "INTERPOLATION", "COMMENT", "ATTR_NAME", "ATTR_QUOTE", "ATTR_VALUE", "BLOCK_OPEN_START",
    "BLOCK_PARAMETER", "BLOCK_OPEN_END", "BLOCK_CLOSE", "EOF"]

def kindName : Lexeme → String
  | .tagOpenStart _ => "TAG_OPEN_START"
  | .tagOpenEnd => "TAG_OPEN_END"
  | .tagOpenEndVoid => "TAG_OPEN_END_VOID"
  | .tagClose _ => "TAG_CLOSE"
  | .text _ => "TEXT"
  | .rawText _ => "RAW_TEXT"
  | .interpolation _ => "INTERPOLATION"
  | .comment _ => "COMMENT"
  | .attrName _ => "ATTR_NAME"
  | .attrQuote _ => "ATTR_QUOTE"
  | .attrValue _ => "ATTR_VALUE"
  | .blockOpenStart _ => "BLOCK_OPEN_START"
  | .blockParameter _ => "BLOCK_PARAMETER"
  | .blockOpenEnd => "BLOCK_OPEN_END"
  | .blockClose => "BLOCK_CLOSE"
  | .eof => "EOF"
  | .stray => "TokenType(-1)"

/-- The marks around an interpolated expression. -/
def interpolationStart : Text := "\x7b\x7b"

@[inherit_doc interpolationStart]
def interpolationEnd : Text := "\x7d\x7d"

/-- The texts a lexeme carries. -/
def parts : Lexeme → List Text
  | .tagOpenStart t | .tagClose t | .text t | .rawText t | .comment t | .attrName t
  | .attrQuote t | .attrValue t | .blockOpenStart t | .blockParameter t => [t]
  | .interpolation e => [interpolationStart, e, interpolationEnd]
  | .tagOpenEnd | .tagOpenEndVoid | .blockOpenEnd | .blockClose | .eof | .stray => []

/-- The text a lexeme contributes to the text it is part of. -/
def content (l : Lexeme) : Text := l.parts.flatten

end Lexeme

/-- A lexeme and where it stands. -/
structure Token where
  lexeme : Lexeme
  span : Span
deriving DecidableEq, Repr

end Stencil.Markup
