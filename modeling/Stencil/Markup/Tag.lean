import Stencil.Text.Case

/-!
# Kinds of elements

How the content of an element is read depends on its name: void elements have none, the content of
`script` and `style` is kept verbatim, and a line feed right after the start tag of `pre`, `listing`
and `textarea` is dropped. Names are looked up without regard to case.
-/

namespace Stencil.Markup

/-- What may stand between the tags of an element. -/
inductive TagContent where
  /-- Everything up to the end tag, kept as it is. -/
  | raw
  /-- Markup, references and interpolations. -/
  | parsable
deriving DecidableEq, Repr

/-- How an element is treated on account of its name. -/
structure Tag where
  content : TagContent := .parsable
  isVoid : Bool := false
  ignoresFirstLineFeed : Bool := false
  preservesBlanks : Bool := false
deriving DecidableEq, Repr

namespace Tag

/-- The elements that never have content. -/
def voidNames : List String :=
  ["area", "base", "br", "col", "embed", "hr", "img", "input", "link", "meta", "param", "source",
    "track", "wbr"]

/-- The tag with exactly this name, if the name is special. -/
def special? (matchesName : String → Bool) : Option Tag :=
  if voidNames.any matchesName then some { isVoid := true }
  else if matchesName "pre" || matchesName "textarea" then
    some { ignoresFirstLineFeed := true, preservesBlanks := true }
  else if matchesName "listing" then some { ignoresFirstLineFeed := true }
  else if matchesName "style" || matchesName "script" then some { content := .raw }
  else none

def ofName (name : Text) : Tag := (special? fun s => name.lowersTo s).getD {}

end Tag

def isVoidName (name : Text) : Bool := (Tag.ofName name).isVoid

end Stencil.Markup
