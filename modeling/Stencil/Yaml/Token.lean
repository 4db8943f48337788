import Stencil.Yaml.Cursor

/-!
# Tokens

The pieces of a document: indicators, names, tags and scalars, and the starts and ends of block
collections, which are read off the indentation.
-/

namespace Stencil.Yaml

/-- How a scalar is written. -/
inductive Style where
  | plain
  | quoted
  /-- As a block of lines. -/
  | block
deriving DecidableEq, Repr

/-- A piece of a document, without its place. -/
inductive Lexeme where
  | streamStart
  | streamEnd
  | version (major minor : Nat)
  | tagDirective (handle lead : Text)
  | documentStart
  | documentEnd
  | blockSequenceStart
  | blockMappingStart
  | blockEnd
  | flowSequenceStart
  | flowSequenceEnd
  | flowMappingStart
  | flowMappingEnd
  | blockEntry
  | flowEntry
  | key
  | value
  | alias (name : Text)
  | anchor (name : Text)
  | tag (handle suffix : Text)
  | scalar (value : Text) (style : Style)
deriving DecidableEq, Repr

/-- A lexeme and the line it begins on, counted from zero. -/
structure Token where
  lexeme : Lexeme
  line : Nat
deriving DecidableEq, Repr

end Stencil.Yaml
