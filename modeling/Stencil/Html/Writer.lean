import Stencil.Html.Node
import Stencil.Instruction

/-!
# Writing HTML

A writer turns instructions into HTML text. It keeps the open elements on a stack, innermost first,
and makes a node of an element when it is closed.
-/

namespace Stencil.Html

/-- How a byte is written in a text or an attribute value. -/
def escapeByte (b : UInt8) : Text :=
  if b = 0x26 then "&amp;"
  else if b = 0x27 then "&#39;"
  else if b = 0x3C then "&lt;"
  else if b = 0x3E then "&gt;"
  else if b = 0x22 then "&#34;"
  else if b = 0 then "�"
  else [b]

/-- A text that is safe between tags and in an attribute value. -/
def escape (t : Text) : Text := t.flatMap escapeByte

/-- The elements that are written without content and end tag. -/
def plainVoidTags : List String :=
  ["area", "base", "br", "col", "command", "embed", "hr", "img", "input", "keygen", "link", "meta",
    "param", "source", "track", "wbr"]

def isPlainVoid (tag : Text) : Bool := plainVoidTags.any fun s => Text.ofString s == tag

/-- An attribute with a blank before it. -/
def Attr.write (a : Attr) : Text :=
  match a.value with
  | none => " " ++ a.name
  | some value => " " ++ a.name ++ "=\"" ++ escape value ++ "\""

/-- An element around the text of its content. -/
def writeElement (tag : Text) (attrs : List Attr) (content : Text) : Text :=
  let start := "<" ++ tag ++ attrs.flatMap Attr.write ++ ">"
  if isPlainVoid tag then start else start ++ content ++ "</" ++ tag ++ ">"

mutual

def Node.write : Node → Text
  | .element tag attrs children => writeElement tag attrs (writeAll children)
  | .text value => escape value

def writeAll : List Node → Text
  | [] => []
  | n :: rest => n.write ++ writeAll rest

end

namespace Writer

/-- An open element and its content so far, last node first. -/
structure Frame where
  tag : Text
  attrs : List Attr
  children : List Node

end Writer

/-- A writer of HTML: the open elements, the finished top level nodes, last first, and the first
imbalance. -/
structure Writer where
  /-- The attribute that shows the key of an element; the empty name stands for none. -/
  keyAttr : Text
  frames : List Writer.Frame
  roots : List Node
  fault : Option Imbalance

namespace Writer

def new (keyAttr : Text) : Writer := ⟨keyAttr, [], [], none⟩

/-- A node added to the innermost open element. -/
def add (w : Writer) (n : Node) : Writer :=
  match w.frames with
  | [] => { w with roots := n :: w.roots }
  | f :: fs => { w with frames := { f with children := n :: f.children } :: fs }

/-- An imbalance noted, if it is the first. -/
def fail (w : Writer) (i : Imbalance) : Writer := { w with fault := w.fault.or (some i) }

/-- The attributes of an element: its key, if that is shown, and the static ones. -/
def attrsOf (w : Writer) (o : Opening) : List Attr :=
  (if o.key.isEmpty || w.keyAttr.isEmpty then [] else [⟨w.keyAttr, some o.key⟩]) ++
    o.static.filterMap Attr.ofStatic?

/-- One more instruction. A closing tag closes the innermost element even if it has another name. -/
def step (w : Writer) : Instruction → Writer
  | .open o => { w with frames := ⟨o.tag, w.attrsOf o, []⟩ :: w.frames }
  | .void o => w.add (.element o.tag (w.attrsOf o) [])
  | .close tag =>
    match w.frames with
    | [] => w.fail (.strayClose tag)
    | f :: fs =>
      let checked := if f.tag = tag then w else w.fail (.wrongClose tag f.tag)
      { checked with frames := fs }.add (.element f.tag f.attrs f.children.reverse)
  | .text value => w.add (.text value)

def reset (w : Writer) : Writer := new w.keyAttr

/-- What is wrong with the instructions so far. -/
def imbalance? (w : Writer) : Option Imbalance :=
  w.fault.or (w.frames.head?.map fun f => .unclosed f.tag)

def nodes (w : Writer) : List Node := w.roots.reverse

/-- The HTML text, if the instructions are balanced. -/
def render (w : Writer) : Except Imbalance Text :=
  match w.imbalance? with
  | some i => .error i
  | none => .ok (writeAll w.nodes)

def message (i : Imbalance) : Text := "render: unbalanced element stream: " ++ i.message

end Writer

end Stencil.Html
