import Stencil.Value.Basic
import Stencil.Yaml.Document

/-!
# Contexts from documents

A document as a context value. Mappings keep their order; a key that appears again changes the value
where it first stood, and the entries of a mapping that is taken over never change a value.
-/

namespace Stencil.Yaml

/-- Why a document is no context. -/
inductive ContextError where
  | fault (f : Fault)
  /-- A key is not a scalar. -/
  | key (line : Nat)
  /-- What should be taken over is not a mapping. -/
  | merge (line : Nat)
deriving DecidableEq, Repr

def ContextError.message : ContextError → Text
  | .fault f => f.message
  | .key line => "line " ++ Text.ofNat line ++ ": mapping keys must be scalars"
  | .merge line => "line " ++ Text.ofNat line ++ ": merge value must be a mapping"

def Scalar.toValue : Scalar → Value
  | .null => .null
  | .bool b => .bool b
  | .int n => .int n
  | .word n => .whole .word64 n
  | .float x => .real Number.double x
  | .time t => .time t.toText
  | .text t => .text t

/-- Entries taken over: those whose keys are not there yet. -/
def takeOver (entries more : Entries Value) : Entries Value :=
  more.foldl (fun es e => if (Entries.get? e.1 es).isSome then es else Entries.set e.1 e.2 es)
    entries

/-- Entries with those of a value taken over, which stands on line `line`. -/
def mergeValue (entries : Entries Value) (line : Nat) (v : Value) :
    Except ContextError (Entries Value) :=
  match v with
  | .map more => .ok (takeOver entries more)
  | _ => .error (.merge line)

mutual

def Node.toValue : Node → Except ContextError Value
  | .scalar info value _ =>
    match Scalar.decode info.tag value with
    | .ok s => .ok s.toValue
    | .error f => .error (.fault f)
  | .sequence _ items => (Node.toValues items).map (.list .any)
  | .mapping _ entries => (Node.toMap [] entries).map .map
  | .alias _ _ target => target.toValue
  | .within _ name => .error (.fault (.plain (.selfReference name)))

def Node.toValues : List Node → Except ContextError (List Value)
  | [] => .ok []
  | n :: rest =>
    match n.toValue with
    | .error e => .error e
    | .ok v => (Node.toValues rest).map (v :: ·)

/-- Entries with those of some nodes taken over. -/
def Node.mergeAll (entries : Entries Value) : List Node → Except ContextError (Entries Value)
  | [] => .ok entries
  | n :: rest =>
    match n.toValue with
    | .error e => .error e
    | .ok v =>
      match mergeValue entries n.line v with
      | .error e => .error e
      | .ok entries => Node.mergeAll entries rest

/-- Entries with those of a mapping added. -/
def Node.toMap (entries : Entries Value) :
    List (Node × Node) → Except ContextError (Entries Value)
  | [] => .ok entries
  | (key, value) :: rest =>
    match key with
    | .scalar info name style =>
      let isMerge := name == Node.mergeKey && style != .quoted && info.tag == Tag.merge
      match isMerge, value with
      | true, .sequence _ items =>
        match Node.mergeAll entries items with
        | .error e => .error e
        | .ok entries => Node.toMap entries rest
      | true, value =>
        match value.toValue with
        | .error e => .error e
        | .ok v =>
          match mergeValue entries value.line v with
          | .error e => .error e
          | .ok entries => Node.toMap entries rest
      | false, value =>
        match value.toValue with
        | .error e => .error e
        | .ok v => Node.toMap (Entries.set name v entries) rest
    | key => .error (.key key.line)

end

/-- The context of a document. Without a document it is an empty mapping. -/
def contextOf (t : Text) : Except ContextError Value :=
  match Node.ofText? t with
  | .error f => .error (.fault f)
  | .ok none => .ok (.map [])
  | .ok (some node) => node.toValue

end Stencil.Yaml
