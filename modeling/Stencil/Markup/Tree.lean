import Stencil.Problem
import Stencil.Markup.Piece
import Stencil.Markup.Scan

/-!
# Nesting

Pieces are nested with a stack of open containers, innermost first. An end tag closes the nearest open
element of its name and a closing brace the nearest open block; what is open inside it is closed with
it, which is a problem, and so is an end that closes nothing and a container that is never closed.
-/

namespace Stencil.Markup

/-- An element or a block without its content. -/
inductive Container where
  | element (name : Text) (attrs : List Attr) (startTag : Span)
  | block (name : Text) (parameters : List Parameter) (nameSpan header : Span)

namespace Container

def opening : Container → Span
  | .element _ _ startTag => startTag
  | .block _ _ _ header => header

/-- The container with its content and, if it was closed, the stretch that closes it. -/
def toNode (c : Container) (children : List Node) (close : Option Span) : Node :=
  let whole := (close.map c.opening.to).getD c.opening
  match c with
  | .element name attrs startTag => .element name attrs children false ⟨whole, startTag, close⟩
  | .block name parameters nameSpan header =>
    .block name parameters children ⟨whole, nameSpan, header, close⟩

def isElement (name : Text) : Container → Bool
  | .element n _ _ => n == name
  | .block .. => false

def isBlock : Container → Bool
  | .element .. => false
  | .block .. => true

def unclosed : Container → Diagnostic
  | .element name _ startTag => ⟨.unclosedElement name, startTag⟩
  | .block name _ _ header => ⟨.unclosedBlock name, header⟩

end Container

/-- An open container and its content so far, last node first. -/
structure Frame where
  container : Container
  children : List Node

namespace Frame

def add (f : Frame) (n : Node) : Frame := ⟨f.container, n :: f.children⟩

def toNode (f : Frame) (close : Option Span) : Node := f.container.toNode f.children.reverse close

end Frame

/-- A tree under construction: the open containers, innermost first, the top level nodes, last
first, and the problems so far, last first. -/
structure Nest where
  frames : List Frame
  roots : List Node
  problems : List Diagnostic

namespace Nest

def empty : Nest := ⟨[], [], []⟩

/-- A node added where reading has come to. -/
def add (t : Nest) (n : Node) : Nest :=
  match t.frames with
  | [] => { t with roots := n :: t.roots }
  | f :: fs => { t with frames := f.add n :: fs }

def push (t : Nest) (c : Container) : Nest := { t with frames := ⟨c, []⟩ :: t.frames }

def note (t : Nest) (p : Problem) (span : Span) : Nest :=
  { t with problems := ⟨p, span⟩ :: t.problems }

/-- Closes the innermost frame without an end. -/
def collapse : List Frame → List Node → List Frame × List Node
  | [], roots => ([], roots)
  | [f], roots => ([], f.toNode none :: roots)
  | f :: g :: fs, roots => (g.add (f.toNode none) :: fs, roots)

/-- Closes frames without an end until the innermost one satisfies `p`, then closes that one at
`close`; `fuel` bounds their number. -/
def closeTo (p : Container → Bool) (close : Span) : (fuel : Nat) → Nest → Nest
  | 0, t => t
  | fuel + 1, t =>
    match t.frames with
    | [] => t
    | f :: fs =>
      if p f.container then { t with frames := fs }.add (f.toNode (some close))
      else
        let found := collapse t.frames t.roots
        closeTo p close fuel { t with frames := found.1, roots := found.2 }

/-- Closes the nearest container that satisfies `p`. Unless it is the innermost one, that is noted as
the given problem. -/
def close (t : Nest) (p : Container → Bool) (span : Span) (problem : Problem) : Nest :=
  match t.frames with
  | [] => t.note problem span
  | f :: _ =>
    if p f.container then t.closeTo p span t.frames.length
    else if t.frames.any fun g => p g.container then
      (t.closeTo p span t.frames.length).note problem span
    else t.note problem span

/-- A text token without the line feed it begins with, where it is the first thing in an element that
ignores that. -/
def firstToken (t : Nest) (token : Token) : Token :=
  match token.lexeme, t.frames with
  | .text (0x0A :: value), ⟨.element name _ _, []⟩ :: _ =>
    if (Tag.ofName name).ignoresFirstLineFeed then ⟨.text value, token.span⟩ else token
  | _, _ => token

/-- A run of text added, unless it is empty. -/
def addText (t : Nest) (first : Token) (rest : List Token) : Nest :=
  let tokens := t.firstToken first :: rest
  let value := tokens.flatMap fun token => token.lexeme.content
  if value.isEmpty then t
  else t.add (.text value tokens (first.span.to ((rest.getLast?.getD first).span)))

/-- One more piece nested. -/
def step (t : Nest) : Piece → Nest
  | .startTag name attrs ending span =>
    if ending == .opening && !isVoidName name then t.push (.element name attrs span)
    else t.add (.element name attrs [] (ending == .selfClosing) ⟨span, span, some span⟩)
  | .endTag name span =>
    if isVoidName name then t.note (.voidEndTag name) span
    else t.close (Container.isElement name) span (.unexpectedEndTag name)
  | .text first rest => t.addText first rest
  | .comment body span => t.add (.comment body span)
  | .blockOpen name parameters nameSpan span => t.push (.block name parameters nameSpan span)
  | .blockClose span => t.close Container.isBlock span .unexpectedBlockEnd

/-- The top level nodes, last first, once every frame is closed without an end; `inner` is what the
frame before them has become. -/
def closeAll : List Frame → (inner : Option Node) → (roots : List Node) → List Node
  | [], inner, roots => inner.toList ++ roots
  | f :: fs, inner, roots =>
    closeAll fs (some (((inner.map f.add).getD f).toNode none)) roots

end Nest

/-- A markup tree and the problems met on the way to it. -/
structure Tree where
  nodes : List Node
  diagnostics : List Diagnostic

namespace Tree

/-- The tree that a run of pieces has come to; what is still open is a problem, outermost first. -/
def ofNest (t : Nest) : Tree where
  nodes := (Nest.closeAll t.frames none t.roots).reverse
  diagnostics := t.problems.reverse ++ t.frames.reverse.map fun f => f.container.unclosed

def ofTokens (tokens : List Token) : Tree :=
  ofNest ((Piece.ofTokens tokens).foldl Nest.step .empty)

/-- The tree of a source text, with the problems of its tokens first. -/
def ofText (options : ScanOptions) (t : Text) : Tree :=
  let stream := TokenStream.ofText options t
  let tree := ofTokens stream.tokens
  ⟨tree.nodes, stream.diagnostics ++ tree.diagnostics⟩

end Tree

end Stencil.Markup
