import Stencil.Text.Basic

/-!
# Faults of YAML documents

What can be wrong with a document, from its bytes up to its anchors and scalars, and the line that is
named with it.
-/

namespace Stencil.Yaml

inductive Problem where
  -- the bytes
  | leadingOctet
  | incompleteSequence
  | trailingOctet
  | sequenceLength
  | unicodeCharacter
  | controlCharacter
  | incompleteUnit
  | lowSurrogate
  | incompletePair
  | missingLowSurrogate
  -- the tokens
  | tokenStart
  | blockEntryContext
  | keyContext
  | valueContext
  | simpleKey
  | depth
  | directiveName
  | directiveNameEnd
  | unknownDirective
  | directiveEnd
  | versionNumber
  | longVersion
  | versionDigit
  | tagDirectiveSpace
  | tagDirectiveEnd
  | anchorName
  | tagHandle
  | tagUri
  | tagClose
  | tagEnd
  | uriOctet
  | uriLeadingOctet
  | uriTrailingOctet
  | zeroIndent
  | blockScalarHeader
  | blockScalarTab
  | plainScalarTab
  | documentIndicator
  | endOfStream
  | escapeCharacter
  | escapeDigits
  | escapeCode
  -- the nodes
  | documentStart
  | duplicateVersion
  | incompatibleVersion
  | duplicateTag
  | undefinedTag
  | nodeContent
  | blockEntry
  | blockKey
  | flowSequenceEnd
  | flowMappingEnd
  | unknownAnchor (name : Text)
  | selfReference (name : Text)
  -- the scalars
  | scalarTag (found : Text) (value : Text) (wanted : Text)
  | base64
  | mergeValue
deriving DecidableEq, Repr

namespace Problem

def message : Problem → Text
  | .leadingOctet => "invalid leading UTF-8 octet"
  | .incompleteSequence => "incomplete UTF-8 octet sequence"
  | .trailingOctet => "invalid trailing UTF-8 octet"
  | .sequenceLength => "invalid length of a UTF-8 sequence"
  | .unicodeCharacter => "invalid Unicode character"
  | .controlCharacter => "control characters are not allowed"
  | .incompleteUnit => "incomplete UTF-16 character"
  | .lowSurrogate => "unexpected low surrogate area"
  | .incompletePair => "incomplete UTF-16 surrogate pair"
  | .missingLowSurrogate => "expected low surrogate area"
  | .tokenStart => "found character that cannot start any token"
  | .blockEntryContext => "block sequence entries are not allowed in this context"
  | .keyContext => "mapping keys are not allowed in this context"
  | .valueContext => "mapping values are not allowed in this context"
  | .simpleKey => "could not find expected ':'"
  | .depth => "exceeded max depth of 10000"
  | .directiveName => "could not find expected directive name"
  | .directiveNameEnd => "found unexpected non-alphabetical character"
  | .unknownDirective => "found unknown directive name"
  | .directiveEnd => "did not find expected comment or line break"
  | .versionNumber => "did not find expected version number"
  | .longVersion => "found extremely long version number"
  | .versionDigit => "did not find expected digit or '.' character"
  | .tagDirectiveSpace => "did not find expected whitespace"
  | .tagDirectiveEnd => "did not find expected whitespace or line break"
  | .anchorName => "did not find expected alphabetic or numeric character"
  | .tagHandle => "did not find expected '!'"
  | .tagUri => "did not find expected tag URI"
  | .tagClose => "did not find the expected '>'"
  | .tagEnd => "did not find expected whitespace or line break"
  | .uriOctet => "did not find URI escaped octet"
  | .uriLeadingOctet => "found an incorrect leading UTF-8 octet"
  | .uriTrailingOctet => "found an incorrect trailing UTF-8 octet"
  | .zeroIndent => "found an indentation indicator equal to 0"
  | .blockScalarHeader => "did not find expected comment or line break"
  | .blockScalarTab => "found a tab character where an indentation space is expected"
  | .plainScalarTab => "found a tab character that violates indentation"
  | .documentIndicator => "found unexpected document indicator"
  | .endOfStream => "found unexpected end of stream"
  | .escapeCharacter => "found unknown escape character"
  | .escapeDigits => "did not find expected hexdecimal number"
  | .escapeCode => "found invalid Unicode character escape code"
  | .documentStart => "did not find expected <document start>"
  | .duplicateVersion => "found duplicate %YAML directive"
  | .incompatibleVersion => "found incompatible YAML document"
  | .duplicateTag => "found duplicate %TAG directive"
  | .undefinedTag => "found undefined tag handle"
  | .nodeContent => "did not find expected node content"
  | .blockEntry => "did not find expected '-' indicator"
  | .blockKey => "did not find expected key"
  | .flowSequenceEnd => "did not find expected ',' or ']'"
  | .flowMappingEnd => "did not find expected ',' or '\x7d'"
  | .unknownAnchor name => "unknown anchor '" ++ name ++ "' referenced"
  | .selfReference name => "anchor '" ++ name ++ "' value contains itself"
  | .scalarTag found value wanted =>
    "cannot decode " ++ found ++ " `" ++ value ++ "` as a " ++ wanted
  | .base64 => "!!binary value contains invalid base64 data"
  | .mergeValue => "map merge requires map or sequence of maps as the value"

end Problem

/-- A problem and the number of the line named with it; zero stands for none. -/
structure Fault where
  problem : Problem
  line : Nat
deriving DecidableEq, Repr

namespace Fault

def plain (problem : Problem) : Fault := ⟨problem, 0⟩

/-- The first of two line numbers, counted from zero, unless it is zero. -/
def pick (context place : Nat) : Nat := if context ≠ 0 then context else place

/-- A problem with a token. A place on the first line is not named. -/
def ofToken (context place : Nat) (problem : Problem) : Fault :=
  let line := pick context place
  ⟨problem, if line = 0 then 0 else line + 1⟩

/-- A problem with a node. The line that is named is the one before the place. -/
def ofNode (context place : Nat) (problem : Problem) : Fault := ⟨problem, pick context place⟩

/-- The line as it is named in front of a problem. -/
def lineText (line : Nat) : Text := if line = 0 then "" else "line " ++ Text.ofNat line ++ ": "

def message (f : Fault) : Text := "yaml: " ++ lineText f.line ++ f.problem.message

end Fault

end Stencil.Yaml
