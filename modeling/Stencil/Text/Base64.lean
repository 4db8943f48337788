import Stencil.Text.Basic

/-!
# Base 64

Three bytes are written as four characters of six bits each. A last group of one or two bytes is filled
up with `=`.
-/

namespace Stencil.Text

/-- The six bits that a character stands for. -/
def sextet? (b : UInt8) : Option Nat :=
  if 0x41 ≤ b && b ≤ 0x5A then some (b.toNat - 65)
  else if 0x61 ≤ b && b ≤ 0x7A then some (b.toNat - 71)
  else if 0x30 ≤ b && b ≤ 0x39 then some (b.toNat + 4)
  else if b = 0x2B then some 62
  else if b = 0x2F then some 63
  else none

/-- The bytes of four characters, the last one or two of which may be `=` in the last group. The bits
that do not make up a byte are not looked at. -/
def groupOf? (last : Bool) (a b c d : UInt8) : Option Text :=
  match sextet? a, sextet? b with
  | some x, some y =>
    let first := UInt8.ofNat (x * 4 + y / 16)
    match sextet? c, sextet? d with
    | some z, some w => some [first, UInt8.ofNat (y * 16 + z / 4), UInt8.ofNat (z * 64 + w)]
    | some z, none => if last && d = 0x3D then some [first, UInt8.ofNat (y * 16 + z / 4)] else none
    | none, _ => if last && c = 0x3D && d = 0x3D then some [first] else none
  | _, _ => none

/-- The bytes that groups of four characters stand for. -/
def ofGroups? : Text → Option Text
  | [] => some []
  | a :: b :: c :: d :: rest =>
    match groupOf? rest.isEmpty a b c d, ofGroups? rest with
    | some group, some more => some (group ++ more)
    | _, _ => none
  | _ => none

/-- The bytes that a text in base 64 stands for. Line ends in it do not count. -/
def ofBase64? (t : Text) : Option Text := ofGroups? (t.filter fun b => b ≠ 0x0A && b ≠ 0x0D)

end Stencil.Text
