import Stencil.Path
import Stencil.Source

/-!
# Problems in template sources

What can be wrong with a template source, found while reading tokens, nesting elements and blocks, or
turning markup into a template. A diagnostic is a problem with the stretch of source it is about.
-/

namespace Stencil

/-- What is wrong with a template source. -/
inductive Problem where
  /-- A character that cannot stand here; `none` is the end of the source. -/
  | unexpectedChar (char : Option Char)
  | incompleteBlock (name : Text)
  | unterminatedInterpolation
  | voidEndTag (name : Text)
  | unexpectedEndTag (name : Text)
  | unexpectedBlockEnd
  | unclosedBlock (name : Text)
  | unclosedElement (name : Text)
  | spreadWithValue (name : Text)
  | spreadWithoutPath (name : Text)
  | attributeValue (name : Text) (cause : PathError)
  | blankInterpolation
  | interpolation (cause : PathError)
  | strayElse (name : Text)
  | unknownBlock (name : Text)
  | secondElse
  | elseParameters
  | missingTest
  | extraTest
  | test (cause : PathError)
  | missingCollection
  | extraLoopParameter (expression : Text)
  | sameLoopNames (name : Text)
  | loopHeader
  | collection (cause : PathError)
deriving DecidableEq, Repr

namespace Problem

def message : Problem → Text
  | .unexpectedChar none => "Unexpected character \"EOF\""
  | .unexpectedChar (some c) => "Unexpected character \"" ++ Text.ofChar c ++ "\""
  | .incompleteBlock name =>
    "Incomplete block \"" ++ name ++ "\". If you meant to write the @ character, " ++
      "you should use the \"&#64;\" HTML entity instead."
  | .unterminatedInterpolation => "Unterminated interpolation, expected \"\x7d\x7d\""
  | .voidEndTag name => "Void elements do not have end tags \"" ++ name ++ "\""
  | .unexpectedEndTag name =>
    "Unexpected closing tag \"" ++ name ++ "\". It may happen when the tag has already been " ++
      "closed by another tag. For more info see https://www.w3.org/TR/html5/syntax.html" ++
      "#closing-elements-that-have-implied-end-tags"
  | .unexpectedBlockEnd =>
    "Unexpected closing block. The block may have been closed earlier. If you meant to write the " ++
      "\x7d character, you should use the \"&#125;\" HTML entity instead."
  | .unclosedBlock name => "Unclosed block \"" ++ name ++ "\""
  | .unclosedElement name => "Unclosed element \"" ++ name ++ "\""
  | .spreadWithValue name => "Spread attribute \"" ++ name ++ "\" cannot have a value"
  | .spreadWithoutPath name => "Spread attribute \"" ++ name ++ "\" must name a context path"
  | .attributeValue name cause =>
    "Invalid value for attribute \"" ++ name ++ "\": " ++ cause.message
  | .blankInterpolation => "Blank expressions are not allowed in interpolated strings"
  | .interpolation cause => "Invalid interpolation: " ++ cause.message
  | .strayElse name => "@" ++ name ++ " block can only be used after an @if block."
  | .unknownBlock name => "Unrecognized block @" ++ name ++ "."
  | .secondElse => "Conditional can only have one @else block"
  | .elseParameters => "@else block cannot have parameters"
  | .missingTest => "Conditional block does not have an expression"
  | .extraTest => "@if block can only have one expression"
  | .test cause => "@if block condition: " ++ cause.message
  | .missingCollection => "@for loop does not have an expression"
  | .extraLoopParameter expression =>
    "Unrecognized @for loop parameter \"" ++ expression ++ "\""
  | .sameLoopNames name => "@for loop key and value cannot both be called \"" ++ name ++ "\""
  | .loopHeader =>
    "Cannot parse expression. @for loop expression must match the pattern " ++
      "\"<identifier> of <path>\""
  | .collection cause => "@for loop collection: " ++ cause.message

/-- The name of the element or block a problem of nesting is about. -/
def subject : Problem → Text
  | .voidEndTag name | .unexpectedEndTag name | .unclosedBlock name | .unclosedElement name => name
  | _ => []

end Problem

/-- A problem and the stretch of source it is about. -/
structure Diagnostic where
  problem : Problem
  span : Span
deriving DecidableEq, Repr

namespace Diagnostic

def message (d : Diagnostic) : Text := d.problem.message

/-- The problem with the source around it and its location. -/
def toText (source : Source) (d : Diagnostic) : Text :=
  report d.message (some ⟨some source, some d.span.start⟩)

end Diagnostic

end Stencil
