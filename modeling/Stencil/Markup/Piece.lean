import Stencil.Markup.Node

/-!
# Pieces

The tokens of a source gathered into the pieces that are nested into a tree: a start tag with its
attributes, a block header with its parameters, a run of text and interpolations. Tokens that belong
to no piece are passed over.
-/

namespace Stencil.Markup

inductive StartTagEnd where
  | opening
  | selfClosing
  /-- The tag was cut short. -/
  | incomplete
deriving DecidableEq, Repr

/-- A part of a source that is nested as a whole. -/
inductive Piece where
  | startTag (name : Text) (attrs : List Attr) (ending : StartTagEnd) (span : Span)
  | endTag (name : Text) (span : Span)
  | text (first : Token) (rest : List Token)
  | comment (body : Text) (span : Span)
  | blockOpen (name : Text) (parameters : List Parameter) (nameSpan span : Span)
  | blockClose (span : Span)

namespace Piece

/-- The attributes at the front of a token list, and the tokens after them. -/
def takeAttrs : List Token → List Attr × List Token
  | ⟨.attrName n, s⟩ :: ⟨.attrQuote _, _⟩ :: ⟨.attrValue v, vs⟩ :: ⟨.attrQuote _, qs⟩ :: rest =>
    let found := takeAttrs rest
    (⟨n, v, true, true, s.to qs, s, some vs⟩ :: found.1, found.2)
  | ⟨.attrName n, s⟩ :: ⟨.attrQuote _, _⟩ :: ⟨.attrValue v, vs⟩ :: rest =>
    let found := takeAttrs rest
    (⟨n, v, true, true, s.to vs, s, some vs⟩ :: found.1, found.2)
  | ⟨.attrName n, s⟩ :: ⟨.attrQuote _, _⟩ :: ⟨.attrQuote _, qs⟩ :: rest =>
    let found := takeAttrs rest
    (⟨n, [], true, true, s.to qs, s, none⟩ :: found.1, found.2)
  | ⟨.attrName n, s⟩ :: ⟨.attrQuote _, _⟩ :: rest =>
    let found := takeAttrs rest
    (⟨n, [], true, true, s, s, none⟩ :: found.1, found.2)
  | ⟨.attrName n, s⟩ :: ⟨.attrValue v, vs⟩ :: rest =>
    let found := takeAttrs rest
    (⟨n, v, true, false, s.to vs, s, some vs⟩ :: found.1, found.2)
  | ⟨.attrName n, s⟩ :: rest =>
    let found := takeAttrs rest
    (⟨n, [], false, false, s, s, none⟩ :: found.1, found.2)
  | tokens => ([], tokens)

/-- The block parameters at the front of a token list, and the tokens after them. -/
def takeParameters : List Token → List Parameter × List Token
  | ⟨.blockParameter e, s⟩ :: rest =>
    let found := takeParameters rest
    (⟨e, s⟩ :: found.1, found.2)
  | tokens => ([], tokens)

/-- Whether a token is part of a text. -/
def isTextual (t : Token) : Bool :=
  match t.lexeme with
  | .text _ | .rawText _ | .interpolation _ => true
  | _ => false

/-- The start tag whose name has been read, and the tokens after it. -/
def takeStartTag (name : Text) (span : Span) (tokens : List Token) : Piece × List Token :=
  let found := takeAttrs tokens
  match found.2 with
  | ⟨.tagOpenEndVoid, s⟩ :: rest => (.startTag name found.1 .selfClosing (span.to s), rest)
  | ⟨.tagOpenEnd, s⟩ :: rest => (.startTag name found.1 .opening (span.to s), rest)
  | rest => (.startTag name found.1 .incomplete span, rest)

/-- The block header whose name has been read, and the tokens after it. -/
def takeBlockHeader (name : Text) (span : Span) (tokens : List Token) : Piece × List Token :=
  let found := takeParameters tokens
  match found.2 with
  | ⟨.blockOpenEnd, s⟩ :: rest => (.blockOpen name found.1 span (span.to s), rest)
  | rest => (.blockOpen name found.1 span span, rest)

/-- The pieces of a token list up to its end mark; `fuel` bounds their number. -/
def gather : (fuel : Nat) → List Token → List Piece
  | 0, _ => []
  | _, [] => []
  | fuel + 1, token :: rest =>
    match token.lexeme with
    | .eof => []
    | .tagOpenStart name =>
      let found := takeStartTag name token.span rest
      found.1 :: gather fuel found.2
    | .tagClose name => .endTag name token.span :: gather fuel rest
    | .text _ | .rawText _ | .interpolation _ =>
      .text token (rest.takeWhile isTextual) :: gather fuel (rest.dropWhile isTextual)
    | .comment body => .comment body token.span :: gather fuel rest
    | .blockOpenStart name =>
      let found := takeBlockHeader name token.span rest
      found.1 :: gather fuel found.2
    | .blockClose => .blockClose token.span :: gather fuel rest
    | _ => gather fuel rest

def ofTokens (tokens : List Token) : List Piece := gather tokens.length tokens

end Piece

end Stencil.Markup
