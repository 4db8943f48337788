import Stencil.Html.Node
import Stencil.Instruction

/-!
# Documents

A document is a tree that grows at its right edge: an element is part of the tree as soon as it is
opened. Each element remembers its key and its event handlers, and can be found by its key.
-/

namespace Stencil.Html

inductive Item where
  | element (tag : Text) (attrs : List Attr) (key : Text) (handlers : List (Text × Value))
      (children : List Item)
  | text (value : Text)

namespace Item

mutual

def toNode : Item → Node
  | .element tag attrs _ _ children => .element tag attrs (toNodes children)
  | .text value => .text value

def toNodes : List Item → List Node
  | [] => []
  | i :: rest => toNode i :: toNodes rest

end

def mapChildren (f : List Item → List Item) : Item → Item
  | .element tag attrs key handlers children => .element tag attrs key handlers (f children)
  | .text value => .text value

def mapLast (f : Item → Item) : List Item → List Item
  | [] => []
  | [i] => [f i]
  | i :: rest => i :: mapLast f rest

/-- A node added after the last one, `depth` levels down the right edge. -/
def appendAt : (depth : Nat) → Item → List Item → List Item
  | 0, i, items => items ++ [i]
  | depth + 1, i, items => mapLast (mapChildren (appendAt depth i)) items

/-- Whether a node was opened with a key. -/
def hasKey (key : Text) : Item → Bool
  | .element _ _ k _ _ => k == key
  | .text _ => false

mutual

/-- The first node below a node that was opened with a key, and the way to it. -/
def findBelow? (key : Text) : Item → Option (List Nat × Item)
  | .element _ _ _ _ children => findFrom? key 0 children
  | .text _ => none

/-- The first node with a key among some nodes, whose indices are counted from `index`, and below
them, and the way to it. -/
def findFrom? (key : Text) (index : Nat) : List Item → Option (List Nat × Item)
  | [] => none
  | i :: rest =>
    if i.hasKey key then some ([index], i)
    else
      match findBelow? key i with
      | some (path, found) => some (index :: path, found)
      | none => findFrom? key (index + 1) rest

end

end Item

/-- A document: its top level nodes, the tags of the open elements, innermost first, and the first
imbalance. -/
structure Document where
  items : List Item
  opened : List Text
  fault : Option Imbalance

namespace Document

def empty : Document := ⟨[], [], none⟩

/-- A node added to the innermost open element. -/
def add (d : Document) (i : Item) : Document :=
  { d with items := i.appendAt d.opened.length d.items }

def itemOf (o : Opening) : Item :=
  .element o.tag (o.static.filterMap Attr.ofStatic?) o.key o.dynamic []

/-- An imbalance noted, if it is the first. -/
def fail (d : Document) (i : Imbalance) : Document := { d with fault := d.fault.or (some i) }

/-- One more instruction. A closing tag closes the innermost element even if it has another name. -/
def step (d : Document) : Instruction → Document
  | .open o => { d.add (itemOf o) with opened := o.tag :: d.opened }
  | .void o => d.add (itemOf o)
  | .close tag =>
    match d.opened with
    | [] => d.fail (.strayClose tag)
    | innermost :: outer =>
      let checked := if innermost = tag then d else d.fail (.wrongClose tag innermost)
      { checked with opened := outer }
  | .text value => d.add (.text value)

def reset (_ : Document) : Document := empty

def imbalance? (d : Document) : Option Imbalance :=
  d.fault.or (d.opened.head?.map .unclosed)

/-- The first element in document order with a key, and the way to it; the empty key is none. -/
def find? (d : Document) (key : Text) : Option (List Nat × Item) :=
  if key.isEmpty then none else Item.findFrom? key 0 d.items

end Document

end Stencil.Html
