import Stencil.Number.Notation
import Stencil.Path
import Stencil.Value.Basic

/-!
# Paths into values

A path is followed one segment at a time. A name leads into mappings and records, a whole number into
lists, and an overlay is searched before what it lies over.
-/

namespace Stencil.Value

def itemAt (items : List Value) (segment : Text) : Value :=
  match Number.parseInt? segment with
  | some (.ofNat n) => items[n]?.getD .missing
  | _ => .missing

/-- What a field of a record is, from outside. -/
def visible (reach : Reach) (v : Value) : Value :=
  match reach with
  | .open | .embedded => v
  | .hidden | .enclosed => .missing

/-- Two lists of lists, joined place by place. -/
def alongside {α : Type} : List (List α) → List (List α) → List (List α)
  | [], others => others
  | layers, [] => layers
  | layer :: layers, other :: others => (layer ++ other) :: alongside layers others

/-- A field of which no more is left than who could see it and its name. -/
def emptied (field : Reach × Text × Value) : Reach × Text × Value := (field.1, field.2.1, .missing)

mutual

/-- The fields that come with an embedded value: its own, then those of what is embedded in it, depth by
depth. A reference that leads nowhere has fields too, but nothing in them. -/
def layers : Value → List (List (Reach × Text × Value))
  | .record _ fields => fields :: embeddedLayers fields
  | .ref target => layers target
  | .nowhere like => (layers like).map fun layer => layer.map emptied
  | .map _ | .absent .map => [mapFields]
  | .overlay parent bindings => [overlayFields parent bindings]
  | .absent .overlay => [(overlayFields .missing none).map emptied]
  | _ => []

/-- The fields that come with all that is embedded in a record. -/
def embeddedLayers : List (Reach × Text × Value) → List (List (Reach × Text × Value))
  | [] => []
  | (.embedded, _, v) :: rest | (.enclosed, _, v) :: rest => alongside (layers v) (embeddedLayers rest)
  | _ :: rest => embeddedLayers rest

end

/-- The field of a record that a name stands for: the only one of that name at the least depth that has
any. Two at the same depth hide each other, and all below them. -/
def fieldOf (fields : List (Reach × Text × Value)) (name : Text) : Value :=
  let found := (fields :: embeddedLayers fields).map fun layer => layer.filter fun field => field.2.1 = name
  match found.find? fun layer => !layer.isEmpty with
  | some [(reach, _, v)] => visible reach v
  | _ => .missing

/-- What a segment leads to in a value that is neither a reference nor an overlay. -/
def member (v : Value) (segment : Text) : Value :=
  match v with
  | .map entries | .dict _ entries => (Entries.get? segment entries).getD .missing
  | .list _ items => itemAt items segment
  | .record _ fields => fieldOf fields segment
  | _ => .missing

/-- What a segment leads to. -/
def access (segment : Text) : Value → Value
  | .overlay parent bindings =>
    match bindings.bind (Entries.get? segment) with
    | some v => v
    | none => access segment parent
  | .ref target => target.behind.member segment
  | v => v.member segment

/-- What a path leads to. -/
def resolve (path : Path) (context : Value) : Value :=
  path.foldl (fun v segment => access segment v) context

/-- What a path leads to, or another value if it leads nowhere. -/
def resolveOr (path : Path) (context default : Value) : Value :=
  let v := resolve path context
  if v.isMissing then default else v

end Stencil.Value
