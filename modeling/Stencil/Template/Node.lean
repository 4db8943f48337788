import Stencil.Path
import Stencil.Source

/-!
# Templates

A template is a tree of elements, texts, expressions, conditionals and iterations. It is what a source
means, without its notation: an expression holds the path it shows, a conditional both its branches.
Where a node came from is kept beside it, and is unknown for a node that was built by hand.
-/

namespace Stencil.Template

/-- How the value of an attribute is meant. -/
inductive AttrForm where
  /-- No value is written. -/
  | boolean
  /-- The value stands for itself. -/
  | literal
  /-- The value is a path into the context. -/
  | path
  /-- A form without a meaning. -/
  | other (code : Int)
deriving DecidableEq, Repr

namespace AttrForm

def code : AttrForm → Int
  | .boolean => 0
  | .literal => 1
  | .path => 2
  | .other code => code

def ofCode (code : Int) : AttrForm :=
  if code = 0 then .boolean else if code = 1 then .literal else if code = 2 then .path
  else .other code

end AttrForm

/-- Where an attribute stands, as far as that is known. -/
structure AttrSpans where
  whole : Option Span
  name : Option Span
  value : Option Span
deriving DecidableEq, Repr

structure Attr where
  name : Text
  form : AttrForm
  value : Text
  spans : AttrSpans
deriving DecidableEq, Repr

structure ElementSpans where
  whole : Option Span
  startTag : Option Span
  endTag : Option Span
  content : Option Span
deriving DecidableEq, Repr

structure ConditionalSpans where
  whole : Option Span
  consequent : Option Span
  alternate : Option Span
deriving DecidableEq, Repr

structure IterationSpans where
  whole : Option Span
  body : Option Span
deriving DecidableEq, Repr

inductive Node where
  /-- A run of nodes. -/
  | block (children : List Node) (span : Option Span)
  | element (name : Text) (attrs : List Attr) (content : List Node) (selfClosing : Bool)
      (spans : ElementSpans)
  | text (value : Text) (span : Option Span)
  /-- Text found at a path of the context. -/
  | expression (path : Path) (span : Option Span)
  | conditional (test : Path) (consequent : List Node) (alternate : Option (List Node))
      (spans : ConditionalSpans)
  /-- The body once for each entry of a collection, under the names of its key and its value. -/
  | iteration (collection : Path) (key value : Text) (body : List Node) (spans : IterationSpans)
  /-- A place where a node is missing. -/
  | hole
  /-- A node of a kind that has no meaning here. -/
  | foreign (kind : Int) (typeName : Text) (span : Option Span)

instance : Inhabited Node := ⟨.hole⟩

inductive NodeKind where
  /-- No node: what a root node stands in. -/
  | none
  | block
  | element
  | text
  | expression
  | conditional
  | iteration
  | other (code : Int)
deriving DecidableEq, Repr

namespace NodeKind

def ofCode : Int → NodeKind
  | 0 => .none
  | 1 => .block
  | 2 => .element
  | 3 => .text
  | 4 => .expression
  | 5 => .conditional
  | 6 => .iteration
  | code => .other code

def name : NodeKind → Text
  | .none => "None"
  | .block => "Block"
  | .element => "Element"
  | .text => "Text"
  | .expression => "Expression"
  | .conditional => "Conditional"
  | .iteration => "Iteration"
  | .other code => "NodeKind(" ++ Text.ofInt code ++ ")"

end NodeKind

namespace Node

def kind : Node → NodeKind
  | .block .. => .block
  | .element .. => .element
  | .text .. => .text
  | .expression .. => .expression
  | .conditional .. => .conditional
  | .iteration .. => .iteration
  | .hole => .none
  | .foreign kind _ _ => .ofCode kind

/-- Where a node stands, if that is known. -/
def span : Node → Option Span
  | .block _ span => span
  | .element _ _ _ _ spans => spans.whole
  | .text _ span => span
  | .expression _ span => span
  | .conditional _ _ _ spans => spans.whole
  | .iteration _ _ _ _ spans => spans.whole
  | .hole => none
  | .foreign _ _ span => span

end Node

/-- The name of the key in a loop that names none. -/
def defaultKeyName : Text := "__key__"

/-- The name of the value in a loop that names none. -/
def defaultValueName : Text := "__val__"

/-- A name, or the given one where it is empty. -/
def nameOr (default name : Text) : Text := if name.isEmpty then default else name

/-- From the start of one stretch to the end of another; the first alone where the other is unknown. -/
def joinSpans : Option Span → Option Span → Option Span
  | some a, some b => some (a.to b)
  | a, _ => a

/-- A node put in front of a list in which no two texts are adjacent, keeping that so. -/
def consMerged : Node → List Node → List Node
  | .text a s, .text b t :: rest => .text (a ++ b) (joinSpans s t) :: rest
  | n, ns => n :: ns

/-- The nodes with adjacent texts joined. -/
def mergeTexts (ns : List Node) : List Node := ns.foldr consMerged []

end Stencil.Template
