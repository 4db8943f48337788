import Stencil.Text.Case

/-!
# Attribute names

The name of an attribute decides its role: a name that begins with `on` handles an event, `class` is
merged with every other `class`, and `...path` spreads the entries of the mapping found at the path.
-/

namespace Stencil.Attribute

/-- Whether a name is an event handler's, in any letter case. -/
def isEvent (name : Text) : Bool := Text.foldsTo (name.take 2) "on"

def spreadMark : Text := "..."

def isSpread (name : Text) : Bool := name.startsWith spreadMark

/-- The path written after the mark of a spread attribute. -/
def spreadSource (name : Text) : Text := name.drop spreadMark.length

/-- The name under which class fragments are merged. -/
def className : Text := "class"

/-- Whether a name is the class attribute's, in any letter case. -/
def isClass (name : Text) : Bool := name.foldsTo "class"

end Stencil.Attribute
