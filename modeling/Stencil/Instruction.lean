import Stencil.Text.Quoted
import Stencil.Value.Arguments

/-!
# Instructions

Rendering a template amounts to a sequence of instructions in document order: elements are opened and
closed, elements without content and texts are put between.
-/

namespace Stencil

/-- An element as an instruction announces it. -/
structure Opening where
  tag : Text
  /-- What identifies the element among its siblings; empty if nothing does. -/
  key : Text
  static : List (Text × Value)
  dynamic : List (Text × Value)

/-- A step of rendering. -/
inductive Instruction where
  | open (element : Opening)
  | void (element : Opening)
  | close (tag : Text)
  | text (value : Text)

namespace Instruction

def kindNames : List String := ["open", "void", "close", "text"]

def kindName : Instruction → String
  | .open _ => "open"
  | .void _ => "void"
  | .close _ => "close"
  | .text _ => "text"

/-- An attribute as it is listed: texts are quoted, and functions have no text. -/
def attrText (a : Text × Value) : Text :=
  a.1 ++ "=" ++
    match a.2 with
    | .text t => t.quoted
    | .func | .absent .function => "<func>"
    | v => v.shown

/-- Attributes under a heading; nothing if there are none. -/
def attrsText (heading : Text) (attrs : List (Text × Value)) : Text :=
  if attrs.isEmpty then []
  else " " ++ heading ++ "[" ++ Text.join " " (attrs.map attrText) ++ "]"

/-- An element as it is listed, after the name of its instruction. -/
def openingText (o : Opening) : Text :=
  o.tag ++ (if o.key.isEmpty then [] else Text.ofString " key=" ++ o.key.quoted) ++
    attrsText "static" o.static ++ attrsText "dynamic" o.dynamic

def toText : Instruction → Text
  | .open o => "open " ++ openingText o
  | .void o => "void " ++ openingText o
  | .close tag => "close " ++ tag
  | .text value => "text " ++ value.quoted

/-- How deep the instruction is listed, and how deep the ones after it, when `depth` elements are open
before it. -/
def depths (depth : Nat) : Instruction → Nat × Nat
  | .open _ => (depth, depth + 1)
  | .close _ => (depth - 1, depth - 1)
  | _ => (depth, depth)

def indent (depth : Nat) : Text := Text.repeated depth "  "

/-- Instructions line by line, indented by the elements open around them. -/
def listingFrom (depth : Nat) : List Instruction → Text
  | [] => []
  | i :: rest =>
    indent (i.depths depth).1 ++ i.toText ++ "\n" ++ listingFrom (i.depths depth).2 rest

def listing (is : List Instruction) : Text := listingFrom 0 is

end Instruction

end Stencil
