import Stencil.Number.Binary
import Stencil.Value.Entries

/-!
# Context values

What a template is rendered with. A context is any value; paths lead from it to other values, and the
value `missing` stands for a path that leads nowhere.
-/

namespace Stencil

/-- The types of whole numbers other than the usual one. -/
inductive WholeKind where
  | int8
  | int16
  | int32
  | int64
  | word
  | word8
  | word16
  | word32
  | word64
deriving DecidableEq, Repr

/-- What a list may hold, and whether it was ever given a value. -/
inductive ListKind where
  | any
  | texts
  | ints
  | fixed
  | unset
deriving DecidableEq, Repr

/-- What a dictionary may hold, and what its keys are: texts, or texts of a type with a name. -/
inductive DictKind where
  | any
  | ints
  | named (type : Text)
  /-- The keys are of a type that says what is shown in place of them. -/
  | titled (type : Text) (title : Text → Text)

/-- What would be there if it were not absent. -/
inductive AbsentKind where
  | map
  | overlay
  | function
deriving DecidableEq, Repr

/-- Who can see a field of a record. The fields of an embedded record can be reached as if they were
the fields of the record it is embedded in. -/
inductive Reach where
  | open
  | hidden
  | embedded
  /-- Embedded, and hidden itself. -/
  | enclosed
deriving DecidableEq, Repr

inductive Value where
  | null
  /-- What a path that leads nowhere is resolved to. -/
  | missing
  | bool (b : Bool)
  | text (t : Text)
  /-- A text of a type with a name. -/
  | name (type t : Text)
  /-- A text of a type with a name, and what is shown in place of it. -/
  | titled (type t title : Text)
  /-- A thing of which only its type and its text are known. -/
  | label (type t : Text)
  /-- An instant, by its text. -/
  | time (t : Text)
  | int (n : Int)
  | whole (kind : WholeKind) (n : Int)
  | real (precision : Number.Precision) (x : Number.Binary)
  | complex (re im : Number.Binary)
  | list (kind : ListKind) (items : List Value)
  /-- A mapping with an order of its own. -/
  | map (entries : List (Text × Value))
  /-- A mapping without an order. -/
  | dict (kind : DictKind) (entries : List (Text × Value))
  /-- A dictionary whose keys are of a type that is not one of texts, in any order. Paths cannot address
  it. A key is equal to itself, so none holds a NaN. -/
  | table (type : Text) (entries : List (Value × Value))
  | ref (target : Value)
  /-- A reference that leads nowhere, and what it could lead to. -/
  | nowhere (like : Value)
  | absent (kind : AbsentKind)
  | record (type : Text) (fields : List (Reach × Text × Value))
  /-- A context in which some names are bound anew. -/
  | overlay (parent : Value) (bindings : Option (List (Text × Value)))
  | func

namespace Value

instance : Inhabited Value := ⟨.null⟩

/-- Whether a value is what a path that leads nowhere is resolved to. -/
def isMissing : Value → Bool
  | .missing => true
  | _ => false

/-- The bindings of an overlay as a value. -/
def ofBindings : Option (Entries Value) → Value
  | some entries => .map entries
  | none => .absent .map

/-- An ordered map as a record: nothing of it can be seen. -/
def mapFields : List (Reach × Text × Value) :=
  [(.hidden, "keys", .missing), (.hidden, "values", .missing)]

/-- An overlay as a record: what it is made of. -/
def overlayFields (parent : Value) (bindings : Option (Entries Value)) : List (Reach × Text × Value) :=
  [(.open, "Parent", parent), (.open, "Bindings", ofBindings bindings)]

/-- What is found behind a reference. There an ordered map and an overlay are seen as records. -/
def behind : Value → Value
  | .ref target => target.behind
  | .map _ => .record "scope.Map" mapFields
  | .overlay parent bindings => .record "scope.Overlay" (overlayFields parent bindings)
  | v => v

/-- A value with its references followed. -/
def followed : Value → Value
  | .ref target => target.behind
  | v => v

def isTruthy : Value → Bool
  | .null | .missing | .absent _ | .nowhere _ => false
  | .bool b => b
  | .text t | .name _ t | .titled _ t _ => !t.isEmpty
  | .int n | .whole _ n => n ≠ 0
  | .real _ x => !x.isZero
  | .complex re im => !(re.isZero && im.isZero)
  | .list _ items => !items.isEmpty
  | .map entries | .dict _ entries => !entries.isEmpty
  | .table _ entries => !entries.isEmpty
  | .label _ _ | .time _ | .ref _ | .record _ _ | .overlay _ _ | .func => true

/-- Whether a value is a keyed collection. -/
def isMapping (v : Value) : Bool :=
  match v.followed with
  | .map _ | .dict _ _ => true
  | _ => false

end Value

end Stencil
