import Stencil.Value.Entries

/-!
# Ordered maps as they are kept

A map keeps the names in the order in which they were first set, and apart from them what each name stands for. The
place for the latter may be made only when something is set. Where a map is expected there may also be none at all:
it reads as one with nothing in it, but nothing can be set in it.
-/

namespace Stencil

structure OrderedMap (α : Type) where
  names : List Text
  values : Option (Text → Option α)

namespace OrderedMap

variable {α σ : Type}

/-- A map that nothing was done with yet. -/
def blank : OrderedMap α := ⟨[], none⟩

/-- An empty map with a place for values. -/
def fresh : OrderedMap α := ⟨[], some fun _ => none⟩

def get? (name : Text) (m : OrderedMap α) : Option α := m.values.bind fun values => values name

/-- The map with a value for a name, which comes last if it is new. -/
def set (name : Text) (value : α) (m : OrderedMap α) : OrderedMap α where
  names := if (m.get? name).isSome then m.names else m.names ++ [name]
  values := some fun n => if n = name then some value else m.get? n

def setAll (sets : List (Text × α)) (m : OrderedMap α) : OrderedMap α :=
  sets.foldl (fun m e => m.set e.1 e.2) m

def size (m : OrderedMap α) : Nat := m.names.length

/-- The state after some names were visited in order with their values, and with `nothing` for a name that
has none. A call also says whether to go on. -/
def visitNames (nothing : α) (call : σ → Text → α → σ × Bool) (m : OrderedMap α) (state : σ) : List Text → σ
  | [] => state
  | name :: rest =>
    match call state name ((m.get? name).getD nothing) with
    | (next, true) => visitNames nothing call m next rest
    | (next, false) => next

def visit (nothing : α) (call : σ → Text → α → σ × Bool) (m : OrderedMap α) (state : σ) : σ :=
  visitNames nothing call m state m.names

/-- The entries of a map, as they are visited. -/
def entries (nothing : α) (m : OrderedMap α) : Entries α :=
  m.visit nothing (fun es name value => (es ++ [(name, value)], true)) []

end OrderedMap

/-- An ordered map, or none at all. -/
abbrev MapRef (α : Type) := Option (OrderedMap α)

namespace MapRef

variable {α σ : Type}

/-- The map with a value for a name, if there is a map. -/
def set? (name : Text) (value : α) : MapRef α → Option (OrderedMap α)
  | some m => some (m.set name value)
  | none => none

def get? (name : Text) : MapRef α → Option α
  | some m => m.get? name
  | none => none

def names : MapRef α → List Text
  | some m => m.names
  | none => []

def size : MapRef α → Nat
  | some m => m.size
  | none => 0

def visit (nothing : α) (call : σ → Text → α → σ × Bool) (state : σ) : MapRef α → σ
  | some m => m.visit nothing call state
  | none => state

end MapRef

end Stencil
