import Stencil.Text.Class
import Stencil.Text.Quoted

/-!
# Context paths

A path such as `user.profile.name` is a list of segments; the empty list is the root path, which
addresses the context itself and is written `.`. Every ASCII character of a segment is a letter, a
digit, `_`, `$` or `-`; characters outside ASCII and stray bytes are allowed.
-/

namespace Stencil

/-- The segments of a context path. -/
abbrev Path := List Text

/-- Why a text is no path. The text is kept without the white space around it. -/
inductive PathError where
  | emptySegment (path : Text) (position : Nat)
  | unexpectedChar (path : Text) (char : Char)
deriving DecidableEq, Repr

namespace PathError

def message : PathError → Text
  | .emptySegment path position =>
    "invalid path " ++ path.quoted ++ ": empty segment at position " ++ Text.ofNat position
  | .unexpectedChar path char =>
    "invalid path " ++ path.quoted ++ ": unexpected character " ++ Text.quotedChar char

end PathError

namespace Path

/-- A character that may not stand in a segment. -/
def isDisallowed (c : Char) : Bool := c.toNat ≤ 127 && !CharClass.isIdentifier c

/-- The first fault of a list of segments, counted from `position`. -/
def firstFault? (path : Text) (position : Nat) : List Text → Option PathError
  | [] => none
  | segment :: rest =>
    if segment.isEmpty then some (.emptySegment path position)
    else
      match segment.chars.find? isDisallowed with
      | some c => some (.unexpectedChar path c)
      | none => firstFault? path (position + 1) rest

/-- Reads a path. White space around it is ignored; the empty text and `.` are the root path. -/
def parse (source : Text) : Except PathError Path :=
  let t := source.trim
  if t.isEmpty || t == [0x2E] then .ok []
  else
    match firstFault? t 0 (t.splitOn 0x2E) with
    | some e => .error e
    | none => .ok (t.splitOn 0x2E)

/-- The dotted form of a path. -/
def toText (p : Path) : Text := if p.isEmpty then "." else Text.join [0x2E] p

end Path

end Stencil
