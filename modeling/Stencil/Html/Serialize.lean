import Stencil.Html.Document

/-!
# Serializing documents

The serialized form of a document reads back as the same tree: the text of elements whose content
is raw is not escaped, and a line feed that a reader would ignore is doubled. It does not exist for
a void element with content.
-/

namespace Stencil.Html

/-- How a byte is written in a serialized text or attribute value. -/
def serializeByte (b : UInt8) : Text :=
  if b = 0x26 then "&amp;"
  else if b = 0x27 then "&#39;"
  else if b = 0x3C then "&lt;"
  else if b = 0x3E then "&gt;"
  else if b = 0x22 then "&#34;"
  else if b = 0x0D then "&#13;"
  else [b]

def serializeText (t : Text) : Text := t.flatMap serializeByte

/-- The elements that never have content. -/
def voidTags : List String :=
  ["area", "base", "br", "col", "embed", "hr", "img", "input", "keygen", "link", "meta", "param",
    "source", "track", "wbr"]

/-- The elements whose text is raw. -/
def rawTags : List String :=
  ["iframe", "noembed", "noframes", "noscript", "plaintext", "script", "style", "xmp"]

/-- The elements whose first line feed is ignored by a reader. -/
def lineFeedTags : List String := ["pre", "listing", "textarea"]

def isOneOf (tags : List String) (tag : Text) : Bool := tags.any fun s => Text.ofString s == tag

/-- Why serializing stops before its end. -/
inductive Stop where
  /-- Nothing after this element can be read as markup. -/
  | plaintext
  | voidContent (tag : Text)
deriving DecidableEq, Repr

def voidContentMessage (tag : Text) : Text :=
  "html: void element <" ++ tag ++ "> has child nodes"

/-- What has been written, and why it stopped, if it did. -/
structure Output where
  text : Text
  stop : Option Stop
deriving DecidableEq, Repr

namespace Output

def ofText (t : Text) : Output := ⟨t, none⟩

/-- One output after the other, unless the first stopped. -/
def append (a b : Output) : Output :=
  match a.stop with
  | some _ => a
  | none => ⟨a.text ++ b.text, b.stop⟩

instance : Append Output := ⟨append⟩

end Output

/-- An attribute with a blank before it; no value is the empty one. -/
def Attr.serialize (a : Attr) : Text :=
  " " ++ a.name ++ "=\"" ++ serializeText (a.value.getD []) ++ "\""

/-- Whether the first node is a text that begins with a line feed. -/
def startsWithLineFeed : List Node → Bool
  | .text (0x0A :: _) :: _ => true
  | _ => false

/-- The line feed that keeps a reader from ignoring the first one of the content. -/
def guardLineFeed (tag : Text) (children : List Node) : Text :=
  if isOneOf lineFeedTags tag && startsWithLineFeed children then [0x0A] else []

/-- The start tag of an element up to its closing bracket. -/
def startTag (tag : Text) (attrs : List Attr) : Text := "<" ++ tag ++ attrs.flatMap Attr.serialize

mutual

/-- A node serialized; `raw` says whether it stands in an element whose text is raw. -/
def Node.serialize (raw : Bool) : Node → Output
  | .text value => .ofText (if raw then value else serializeText value)
  | .element tag attrs children =>
    if isOneOf voidTags tag then
      if children.isEmpty then .ofText (startTag tag attrs ++ "/>")
      else ⟨startTag tag attrs, some (.voidContent tag)⟩
    else
      Output.ofText (startTag tag attrs ++ ">" ++ guardLineFeed tag children)
        ++ serializeAll (isOneOf rawTags tag) children
        ++ (if Text.ofString "plaintext" == tag then ⟨[], some .plaintext⟩
          else Output.ofText ("</" ++ tag ++ ">"))

def serializeAll (raw : Bool) : List Node → Output
  | [] => .ofText []
  | n :: rest => n.serialize raw ++ serializeAll raw rest

end

/-- Top level nodes serialized. An element that ends the markup ends it only for its own tree. -/
def serializeTop : List Node → Text × Option Text
  | [] => ([], none)
  | n :: rest =>
    let first := n.serialize false
    match first.stop with
    | some (.voidContent tag) => (first.text, some (voidContentMessage tag))
    | _ =>
      let others := serializeTop rest
      (first.text ++ others.1, others.2)

namespace Document

def message (i : Imbalance) : Text := "dom: " ++ i.message

/-- What is written for a document, and the wording of why it stopped, if it did. -/
def render (d : Document) : Text × Option Text :=
  match d.imbalance? with
  | some i => ([], some (message i))
  | none => serializeTop (Item.toNodes d.items)

end Document

end Stencil.Html
