import Stencil.Value.Rendering

/-!
# HTML trees

Elements and texts as they are written out. An attribute may have no value.
-/

namespace Stencil.Html

structure Attr where
  name : Text
  value : Option Text
deriving DecidableEq, Repr

inductive Node where
  | element (tag : Text) (attrs : List Attr) (children : List Node)
  | text (value : Text)

/-- The HTML attribute of a static attribute: null and false are left out, true has no value. -/
def Attr.ofStatic? (a : Text × Value) : Option Attr :=
  match a.2 with
  | .null => none
  | .bool b => if b then some ⟨a.1, none⟩ else none
  | v => some ⟨a.1, some v.toText⟩

/-- Why a stream of instructions is not balanced. -/
inductive Imbalance where
  | strayClose (tag : Text)
  | wrongClose (tag opened : Text)
  | unclosed (tag : Text)
deriving DecidableEq, Repr

def Imbalance.message : Imbalance → Text
  | .strayClose tag => "close of <" ++ tag ++ "> with no open element"
  | .wrongClose tag opened => "close of <" ++ tag ++ "> while <" ++ opened ++ "> is open"
  | .unclosed tag => "<" ++ tag ++ "> is never closed"

end Stencil.Html
