import Stencil.Text.Basic

/-!
# Routes to files

A route is a text of names with slashes between them. It leads from the top if it begins with a slash,
and from the working directory otherwise. The name `.` stays where it is, and `..` goes up.
-/

namespace Stencil.Files

abbrev Route := Text

namespace Route

def here : Text := "."

def up : Text := ".."

def isAbsolute (r : Route) : Bool := r.head? = some 0x2F

/-- The names that a route goes through, last first, with one more name. Nothing is above the top. -/
def enter (absolute : Bool) (names : List Text) (name : Text) : List Text :=
  if name.isEmpty || name == here then names
  else if name == up then
    match names with
    | last :: rest => if last == up then up :: names else rest
    | [] => if absolute then [] else [up]
  else name :: names

/-- The names of the shortest route to the same place. -/
def names (r : Route) : List Text :=
  ((Text.splitOn 0x2F r).foldl (enter (isAbsolute r)) []).reverse

def ofNames (absolute : Bool) (names : List Text) : Route :=
  if absolute then 0x2F :: Text.join "/" names
  else if names.isEmpty then here
  else Text.join "/" names

/-- The shortest route to the same place. -/
def clean (r : Route) : Route := ofNames (isAbsolute r) (names r)

/-- The routes one after the other; empty ones do not count. -/
def join (rs : List Route) : Route :=
  let parts := rs.filter fun r => !r.isEmpty
  if parts.isEmpty then [] else clean (Text.join "/" parts)

/-- Two lists without what they have in common at their start. -/
def dropCommon : List Text → List Text → List Text × List Text
  | a :: as, b :: bs => if a = b then dropCommon as bs else (a :: as, b :: bs)
  | as, bs => (as, bs)

/-- The route from one place to another. There is none between a route from the top and another one. -/
def relative? (start target : Route) : Option Route :=
  let left := dropCommon (names start) (names target)
  if isAbsolute start != isAbsolute target || left.1.head? == some up then none
  else some (ofNames false (left.1.map (fun _ => up) ++ left.2))

def parent (r : Route) : Route := ofNames (isAbsolute r) (names r).dropLast

end Route

end Stencil.Files
