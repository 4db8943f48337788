import Stencil.Text.Basic

/-!
# Letter case

Names are compared with ASCII names in two ways that disregard case. *Lowering* takes each character
to its lower case; of the characters outside ASCII only the Kelvin sign and the dotted capital I have
an ASCII lower case. *Folding* identifies the characters that are case variants of each other; of the
characters outside ASCII only the Kelvin sign and the long s are variants of ASCII letters. Other
characters outside ASCII never meet an ASCII name, so they are left as they are.
-/

namespace Stencil

namespace Text

/-- The ASCII lower case of a character, if it has one, and the character itself otherwise. -/
def lowerChar (c : Char) : Char :=
  if c.toNat == 0x212A then 'k' else if c.toNat == 0x130 then 'i' else c.toLower

/-- A representative of the case variants of a character among the ASCII letters, if there is one,
and the character itself otherwise. -/
def foldChar (c : Char) : Char :=
  if c.toNat == 0x212A then 'k' else if c.toNat == 0x17F then 's' else c.toLower

/-- Whether lowering a text gives the ASCII text `name`. -/
def lowersTo (t name : Text) : Bool := ofChars (t.chars.map lowerChar) == name

/-- Whether a text is the ASCII text `name` up to case. -/
def foldsTo (t name : Text) : Bool := ofChars (t.chars.map foldChar) == name

end Text

end Stencil
