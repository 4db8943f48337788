import Stencil.Attribute.Plan
import Stencil.Instruction

/-!
# Programs

A program is a list of operations that are run in order for each context. The branches of a
conditional and the body of an iteration are programs of their own.
-/

namespace Stencil.Program

/-- An operation, with the place it was compiled from. -/
inductive Op where
  | open (tag : Text) (attrs : Attribute.Plan) (span : Option Span)
  | void (tag : Text) (attrs : Attribute.Plan) (span : Option Span)
  | close (tag : Text) (span : Option Span)
  | literal (value : Text) (span : Option Span)
  /-- The text found at a path. -/
  | bound (path : Path) (span : Option Span)
  | conditional (test : Path) (consequent : List Op) (alternate : Option (List Op))
      (span : Option Span)
  | iteration (collection : Path) (key value : Text) (body : List Op) (span : Option Span)

namespace Op

def kindNames : List String :=
  ["OpenElement", "VoidElement", "CloseElement", "EmitText", "RunConditional", "RunIteration"]

def kindName : Op → String
  | .open .. => "OpenElement"
  | .void .. => "VoidElement"
  | .close .. => "CloseElement"
  | .literal .. | .bound .. => "EmitText"
  | .conditional .. => "RunConditional"
  | .iteration .. => "RunIteration"

def span : Op → Option Span
  | .open _ _ span | .void _ _ span => span
  | .close _ span => span
  | .literal _ span => span
  | .bound _ span => span
  | .conditional _ _ _ span => span
  | .iteration _ _ _ _ span => span

/-- A path in braces. -/
def pathText (path : Path) : Text := "\x7b" ++ path.toText ++ "\x7d"

def elementText (tag : Text) (attrs : Attribute.Plan) : Text :=
  if attrs.size = 0 then tag else tag ++ " [" ++ attrs.toText ++ "]"

def toText (op : Op) : Text :=
  op.kindName ++ " " ++
    match op with
    | .open tag attrs _ | .void tag attrs _ => elementText tag attrs
    | .close tag _ => tag
    | .literal value _ => value.quoted
    | .bound path _ => pathText path
    | .conditional test _ _ _ => pathText test
    | .iteration collection key value _ _ => pathText collection ++ " " ++ value ++ ", " ++ key

end Op

mutual

def opListing (depth : Nat) : Op → Text
  | .conditional test consequent alternate span =>
    Instruction.indent depth ++ (Op.conditional test consequent alternate span).toText ++ "\n" ++
      listingAt (depth + 1) consequent ++ elseListing depth alternate
  | .iteration collection key value body span =>
    Instruction.indent depth ++ (Op.iteration collection key value body span).toText ++ "\n" ++
      listingAt (depth + 1) body
  | op => Instruction.indent depth ++ op.toText ++ "\n"

def elseListing (depth : Nat) : Option (List Op) → Text
  | none => []
  | some ops => Instruction.indent depth ++ "else\n" ++ listingAt (depth + 1) ops

/-- The lines of a program that stands `depth` levels deep. -/
def listingAt (depth : Nat) : List Op → Text
  | [] => []
  | op :: rest => opListing depth op ++ listingAt depth rest

end

def listing (ops : List Op) : Text := listingAt 0 ops

/-- The context in which the body of an iteration is run for one entry. -/
def entryContext (context : Value) (key value : Text) (entry : Value × Value) : Value :=
  .overlay context (some (Entries.ofList [(key, entry.1), (value, entry.2)]))

/-- The element that an operation announces in a context. -/
def opening (context : Value) (tag : Text) (attrs : Attribute.Plan) : Opening :=
  let e := attrs.evaluate context
  ⟨tag, e.key, e.static, e.dynamic⟩

mutual

def runOp : Op → (context : Value) → List Instruction
  | .open tag attrs _, context => [.open (opening context tag attrs)]
  | .void tag attrs _, context => [.void (opening context tag attrs)]
  | .close tag _, _ => [.close tag]
  | .literal value _, _ => [.text value]
  | .bound path _, context => [.text (Value.resolve path context).toText]
  | .conditional test consequent alternate _, context =>
    if (Value.resolve test context).isTruthy then run consequent context
    else runAlternate alternate context
  | .iteration collection key value body _, context =>
    (Value.resolve collection context).entries.flatMap fun entry =>
      run body (entryContext context key value entry)

def runAlternate : Option (List Op) → (context : Value) → List Instruction
  | none, _ => []
  | some ops, context => run ops context

def run : List Op → (context : Value) → List Instruction
  | [], _ => []
  | op :: rest, context => runOp op context ++ run rest context

end

end Stencil.Program
