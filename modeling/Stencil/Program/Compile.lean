import Stencil.Markup.Tag
import Stencil.Program.Op

/-!
# Compiling templates

A template is compiled once and then run for each context. Every program, also one inside a
conditional or an iteration, is finished by dropping control flow that can do nothing and checking
that its elements are closed in order.
-/

namespace Stencil.Program

open Template (NodeKind)

inductive Fault where
  | hole
  | foreign (typeName : Text)
  | attributes (element : Text) (cause : Attribute.AttrError)
  | voidContent (element : Text)
  | misplacedExpression (path : Path) (parent : NodeKind)
  | unbalancedClose (tag : Text)
  | unclosed (tag : Text)
deriving DecidableEq, Repr

namespace Fault

/-- The wording of a fault without its cause. -/
def headline : Fault → Text
  | .hole => "Unexpected nil template node"
  | .foreign typeName => "Unsupported template node: " ++ typeName
  | .attributes element _ => "Invalid attributes on <" ++ element ++ ">"
  | .voidContent element => "Void element <" ++ element ++ "> cannot have children"
  | .misplacedExpression path parent =>
    "Expression \x7b\x7b" ++ path.toText ++ "\x7d\x7d must be inline content, found under " ++
      parent.name
  | .unbalancedClose tag => "Unbalanced close of <" ++ tag ++ ">"
  | .unclosed tag => "Element <" ++ tag ++ "> is never closed"

def cause? : Fault → Option Attribute.AttrError
  | .attributes _ cause => some cause
  | _ => none

def message (f : Fault) : Text :=
  match f.cause? with
  | some cause => f.headline ++ ": " ++ cause.message
  | none => f.headline

end Fault

structure StructuralError where
  kind : NodeKind
  parent : NodeKind
  span : Option Span
  fault : Fault
deriving DecidableEq, Repr

namespace StructuralError

def ofNode (node : Template.Node) (parent : NodeKind) (fault : Fault) : StructuralError :=
  ⟨node.kind, parent, node.span, fault⟩

def ofSpan (span : Option Span) (fault : Fault) : StructuralError := ⟨.none, .none, span, fault⟩

/-- The fault with its place in the source of the given name. -/
def toText (url : Text) (e : StructuralError) : Text :=
  match e.span with
  | some span => e.fault.message ++ " (" ++ span.start.toText url ++ ")"
  | none => e.fault.message

end StructuralError

/-! ### Finishing a program -/

/-- An alternate that does something. -/
def usefulAlternate : Option (List Op) → Option (List Op)
  | some (op :: ops) => some (op :: ops)
  | _ => none

/-- An operation without control flow that does nothing; nothing if it is only that. -/
def prune? : Op → Option Op
  | .conditional test consequent alternate span =>
    match consequent, usefulAlternate alternate with
    | [], none => none
    | ops, useful => some (.conditional test ops useful span)
  | .iteration collection key value body span =>
    if body.isEmpty then none else some (.iteration collection key value body span)
  | op => some op

/-- Checks that elements are closed in order, `opened` being open already, innermost first. -/
def checkBalance (opened : List (Text × Option Span)) : List Op → Except StructuralError Unit
  | [] =>
    match opened with
    | [] => .ok ()
    | (tag, span) :: _ => .error (.ofSpan span (.unclosed tag))
  | .open tag _ span :: rest => checkBalance ((tag, span) :: opened) rest
  | .close tag span :: rest =>
    match opened with
    | (openTag, _) :: outer =>
      if openTag = tag then checkBalance outer rest
      else .error (.ofSpan span (.unbalancedClose tag))
    | [] => .error (.ofSpan span (.unbalancedClose tag))
  | _ :: rest => checkBalance opened rest

/-- The finished program of a list of operations. -/
def finish (ops : List Op) : Except StructuralError (List Op) :=
  let pruned := ops.filterMap prune?
  (checkBalance [] pruned).map fun _ => pruned

/-! ### Nodes -/

def elementOps (tag : Text) (plan : Attribute.Plan) (content : List Op)
    (spans : Template.ElementSpans) : List Op :=
  .open tag plan spans.startTag :: content ++ [.close tag (spans.endTag.or spans.startTag)]

/-- Whether an expression may stand in a node of a kind. -/
def isInline (parent : NodeKind) : Bool := parent = .element || parent = .block

mutual

/-- The operations of a node that stands in a node of kind `parent`. -/
def compileNode (key : Text) (parent : NodeKind) :
    Template.Node → Except StructuralError (List Op)
  | .block children _ => compileNodes key .block children
  | .element name attrs content selfClosing spans =>
    match Attribute.Plan.ofAttrs key attrs with
    | .error cause => .error ⟨.element, .element, spans.whole, .attributes name cause⟩
    | .ok plan =>
      if selfClosing || Markup.isVoidName name then
        if content.isEmpty then .ok [.void name plan spans.whole]
        else .error ⟨.element, .element, spans.whole, .voidContent name⟩
      else (compileNodes key .element content).map fun ops => elementOps name plan ops spans
  | .text value span => .ok [.literal value span]
  | .expression path span =>
    if isInline parent then .ok [.bound path span]
    else .error ⟨.expression, parent, span, .misplacedExpression path parent⟩
  | .conditional test consequent alternate spans => do
    let consequent ← (← compileNodes key .block consequent) |> finish
    let alternate ← compileAlternate key alternate
    return [.conditional test consequent alternate spans.whole]
  | .iteration collection keyName valueName body spans => do
    let body ← (← compileNodes key .block body) |> finish
    return [.iteration collection (Template.nameOr Template.defaultKeyName keyName)
      (Template.nameOr Template.defaultValueName valueName) body spans.whole]
  | .hole => .error ⟨.none, parent, none, .hole⟩
  | .foreign kind typeName span => .error ⟨.ofCode kind, parent, span, .foreign typeName⟩

/-- The finished alternate of a conditional. -/
def compileAlternate (key : Text) :
    Option (List Template.Node) → Except StructuralError (Option (List Op))
  | none => .ok none
  | some nodes => do
    let ops ← (← compileNodes key .block nodes) |> finish
    return some ops

/-- The operations of nodes that stand in a node of kind `parent`. -/
def compileNodes (key : Text) (parent : NodeKind) :
    List Template.Node → Except StructuralError (List Op)
  | [] => .ok []
  | node :: rest => do
    let first ← compileNode key parent node
    let others ← compileNodes key parent rest
    return first ++ others

end

/-- The program of a template. The attribute called `key` is the key of its element; the empty name
stands for none. -/
def compile (key : Text) (root : Template.Node) : Except StructuralError (List Op) := do
  let ops ← compileNode key .none root
  finish ops

end Stencil.Program
