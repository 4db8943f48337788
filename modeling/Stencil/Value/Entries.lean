import Stencil.Text.Basic

/-!
# Ordered maps

A map from names that remembers the order in which its names were first set. It is a list of entries;
setting a name again changes its entry where it stands.
-/

namespace Stencil

/-- The entries of a map in order. -/
abbrev Entries (α : Type) := List (Text × α)

namespace Entries

variable {α : Type}

def get? (name : Text) : Entries α → Option α
  | [] => none
  | (n, a) :: rest => if n = name then some a else get? name rest

/-- The map with a value for a name. -/
def set (name : Text) (value : α) : Entries α → Entries α
  | [] => [(name, value)]
  | (n, a) :: rest => if n = name then (n, value) :: rest else (n, a) :: set name value rest

def names (es : Entries α) : List Text := es.map Prod.fst

/-- The map that results from setting names one after the other. -/
def ofList (es : List (Text × α)) : Entries α := es.foldl (fun m e => set e.1 e.2 m) []

/-- The state after the entries were visited in order, each call being given the state that the one before
it left. A call also says whether to go on. -/
def visit {σ : Type} (call : σ → Text → α → σ × Bool) (state : σ) : Entries α → σ
  | [] => state
  | (name, value) :: rest =>
    match call state name value with
    | (next, true) => visit call next rest
    | (next, false) => next

end Entries

end Stencil
