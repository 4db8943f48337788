import Stencil.Value.Rendering

/-!
# The entries of a value

A collection is visited entry by entry: an ordered map in its own order, a list by index, and a
dictionary in the bytewise order of the texts of its keys. Any other value has no entries.
-/

namespace Stencil.Value

/-- The items of a list under their indices, counted from `index`. -/
def indexed (index : Nat) : List Value → List (Value × Value)
  | [] => []
  | v :: rest => (.int index, v) :: indexed (index + 1) rest

/-- A key of a dictionary as a value. -/
def keyOf (kind : DictKind) (key : Text) : Value :=
  match kind with
  | .any | .ints => .text key
  | .named type => .name type key
  | .titled type title => .titled type key (title key)

/-- Entries in the bytewise order of the texts of their keys. Where two texts are the same, the entries
stay in the order they have. -/
def byText (entries : List (Value × Value)) : List (Value × Value) :=
  entries.mergeSort fun a b => a.1.shown.le b.1.shown

/-- The entries of a collection in the order in which they are visited: key and value. -/
def entries (v : Value) : List (Value × Value) :=
  match v.followed with
  | .map es => es.map fun e => (.text e.1, e.2)
  | .list _ items => indexed 0 items
  | .dict kind es => byText (es.map fun e => (keyOf kind e.1, e.2))
  | .table _ es => byText es
  | _ => []

end Stencil.Value
