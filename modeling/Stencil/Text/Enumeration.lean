import Stencil.Text.Basic

/-!
# Numbered names

Members of an enumeration have names in a fixed order; a number beyond them is shown with the name of
the enumeration.
-/

namespace Stencil.Text

/-- The name with a number, or the number under a label if there is none. -/
def numbered (label : Text) (names : List String) (code : Int) : Text :=
  let other := label ++ "(" ++ ofInt code ++ ")"
  match code with
  | .ofNat n => (names[n]?.map ofString).getD other
  | .negSucc _ => other

end Stencil.Text
