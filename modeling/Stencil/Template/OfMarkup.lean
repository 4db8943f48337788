import Stencil.Attribute.Name
import Stencil.Markup.Node
import Stencil.Problem
import Stencil.Template.LoopHeader
import Stencil.Template.Node

/-!
# From markup to templates

Interpolations become expressions, `if` and `for` blocks become conditionals and iterations, and
comments are dropped. An `else` block belongs to the `if` block before it, when only comments and
blank texts stand between them; those texts are dropped too. What cannot be understood is left out
and reported, so that one run finds every problem.
-/

namespace Stencil.Template

/-- Template nodes and the problems met on the way to them. -/
structure Draft where
  nodes : List Node
  diagnostics : List Diagnostic

namespace Draft

def empty : Draft := ⟨[], []⟩

def ofNode (n : Node) : Draft := ⟨[n], []⟩

def problem (p : Problem) (span : Span) : Draft := ⟨[], [⟨p, span⟩]⟩

def append (a b : Draft) : Draft := ⟨a.nodes ++ b.nodes, a.diagnostics ++ b.diagnostics⟩

instance : Append Draft := ⟨append⟩

end Draft

/-! ### Attributes -/

def formOf (a : Markup.Attr) : AttrForm :=
  if !a.hasValue then .boolean else if a.quoted then .literal else .path

/-- A spread attribute as an attribute of a template. It has no value and names a path. -/
def spreadOfMarkup (a : Markup.Attr) : Except Diagnostic Attr :=
  if a.hasValue then .error ⟨.spreadWithValue a.name, a.valueSpan.getD a.span⟩
  else
    let source := Attribute.spreadSource a.name
    match Path.parse source with
    | .error _ => .error ⟨.spreadWithoutPath a.name, a.span⟩
    | .ok _ =>
      if source.isBlank then .error ⟨.spreadWithoutPath a.name, a.span⟩
      else .ok ⟨a.name, .boolean, [], ⟨some a.span, some a.nameSpan, none⟩⟩

def needsPath (a : Markup.Attr) : Bool :=
  match formOf a with
  | .path => true
  | .literal => Attribute.isEvent a.name && !a.value.isBlank
  | _ => false

def attrOfMarkup (a : Markup.Attr) : Except Diagnostic Attr :=
  if Attribute.isSpread a.name then spreadOfMarkup a
  else
    let attr : Attr := ⟨a.name, formOf a, a.value, ⟨some a.span, some a.nameSpan, a.valueSpan⟩⟩
    if needsPath a then
      match Path.parse a.value with
      | .error e => .error ⟨.attributeValue a.name e, a.valueSpan.getD a.span⟩
      | .ok _ => .ok attr
    else .ok attr

/-- The attributes that can be understood, and the problems of the others. -/
def attrsOfMarkup : List Markup.Attr → List Attr × List Diagnostic
  | [] => ([], [])
  | a :: rest =>
    let found := attrsOfMarkup rest
    match attrOfMarkup a with
    | .ok attr => (attr :: found.1, found.2)
    | .error d => (found.1, d :: found.2)

/-! ### Texts -/

def expressionOfMarkup (source : Text) (span : Span) : Draft :=
  if source.isBlank then .problem .blankInterpolation span
  else
    match Path.parse source with
    | .error e => .problem (.interpolation e) span
    | .ok path => .ofNode (.expression path (some span))

/-- A token of a text as a text or an expression; an empty text is nothing. -/
def tokenOfMarkup (t : Markup.Token) : Draft :=
  match t.lexeme with
  | .interpolation source => expressionOfMarkup source t.span
  | l => if l.content.isEmpty then .empty else .ofNode (.text l.content (some t.span))

def tokensOfMarkup : List Markup.Token → Draft
  | [] => .empty
  | t :: rest => tokenOfMarkup t ++ tokensOfMarkup rest

/-! ### Block headers -/

/-- The test of an `if` block, if it has one, and the problems of its parameters. -/
def testOfMarkup (parameters : List Markup.Parameter) (header : Span) :
    Option Path × List Diagnostic :=
  match parameters with
  | [] => (none, [⟨.missingTest, header⟩])
  | p :: extra =>
    let surplus := extra.map fun q => (⟨.extraTest, q.span⟩ : Diagnostic)
    match Path.parse p.expression with
    | .error e => (none, surplus ++ [⟨.test e, p.span⟩])
    | .ok path => (some path, surplus)

/-- What a loop runs over and the names it binds; an empty name is not given. -/
structure Loop where
  collection : Path
  key : Text
  value : Text
deriving DecidableEq, Repr

/-- The loop that runs over the path written in `source`. -/
def loopOver (source key value : Text) : Except Problem Loop :=
  if source.isBlank then .error .missingCollection
  else
    match Path.parse source with
    | .error e => .error (.collection e)
    | .ok path => .ok ⟨path, key, value⟩

def loopOfText (t : Text) : Except Problem Loop :=
  match LoopHeader.parse? t with
  | some h =>
    if h.key = some h.value then .error (.sameLoopNames h.value)
    else loopOver h.collection (h.key.getD []) h.value
  | none => if LoopHeader.hasOf t then .error .loopHeader else loopOver t [] []

/-- The loop of a `for` block, if it has one, and the problems of its parameters. -/
def loopOfMarkup (parameters : List Markup.Parameter) (header : Span) :
    Option Loop × List Diagnostic :=
  match parameters with
  | [] => (none, [⟨.missingCollection, header⟩])
  | p :: extra =>
    let surplus := extra.map fun q => (⟨.extraLoopParameter q.expression, q.span⟩ : Diagnostic)
    match loopOfText p.expression with
    | .error problem => (none, surplus ++ [⟨problem, p.span⟩])
    | .ok loop => (some loop, surplus)

/-! ### Connected blocks -/

/-- Whether a block of this name continues an `if` block. -/
def isConnected (name : Text) : Bool := name == Text.ofString "else"

/-- Whether a node may stand between an `if` block and its `else` block. -/
def isBetween : Markup.Node → Bool
  | .comment .. => true
  | .text value _ _ => value.isBlank
  | _ => false

/-- Whether a node continues an `if` block. -/
def isContinuation : Markup.Node → Bool
  | .block name _ _ _ => isConnected name
  | _ => false

/-- How many nodes after an `if` block belong to it: those up to the last block that continues it.
`passed` counts the nodes since the last such block. -/
def connectedCount (passed : Nat) : List Markup.Node → Nat
  | [] => 0
  | n :: rest =>
    if isBetween n then connectedCount (passed + 1) rest
    else if isContinuation n then passed + 1 + connectedCount 0 rest
    else 0

/-- The problems of the `else` blocks among the nodes that belong to an `if` block. -/
def elseProblems (first : Bool) : List Markup.Node → List Diagnostic
  | .block _ parameters _ spans :: rest =>
    (if !first then [⟨.secondElse, spans.whole⟩]
      else if parameters.isEmpty then [] else [⟨.elseParameters, spans.whole⟩])
    ++ elseProblems false rest
  | _ :: rest => elseProblems first rest
  | [] => []

/-- An `else` block with its content turned into template nodes. -/
structure Alternate where
  content : Draft
  span : Span

/-! ### Nodes -/

/-- The `if` block with these parts as a conditional. Without a test its content is not looked at. -/
def conditionalOfMarkup (test : Option Path × List Diagnostic) (elses : List Diagnostic)
    (consequent : Draft) (alternate : Option Alternate) (span : Span) : Draft :=
  let alternateDiagnostics := (alternate.map fun a => a.content.diagnostics).getD []
  match test.1 with
  | none => ⟨[], alternateDiagnostics ++ test.2 ++ elses⟩
  | some path =>
    ⟨[.conditional path (mergeTexts consequent.nodes)
        (alternate.map fun a => mergeTexts a.content.nodes)
        ⟨some (span.to ((alternate.map Alternate.span).getD span)), some span,
          alternate.map Alternate.span⟩],
      alternateDiagnostics ++ consequent.diagnostics ++ test.2 ++ elses⟩

/-- The `for` block with these parts as an iteration. Without a loop its content is not looked at. -/
def iterationOfMarkup (loop : Option Loop × List Diagnostic) (body : Draft) (span : Span) : Draft :=
  match loop.1 with
  | none => ⟨[], loop.2⟩
  | some l =>
    ⟨[.iteration l.collection (nameOr defaultKeyName l.key) (nameOr defaultValueName l.value)
        (mergeTexts body.nodes) ⟨some span, some span⟩],
      body.diagnostics ++ loop.2⟩

def elementOfMarkup (name : Text) (attrs : List Markup.Attr) (content : Draft) (selfClosing : Bool)
    (spans : Markup.ElementSpans) : Draft :=
  let found := attrsOfMarkup attrs
  ⟨[.element name found.1 (mergeTexts content.nodes) (selfClosing || Markup.isVoidName name)
      ⟨some spans.whole, some spans.startTag, spans.endTag,
        spans.endTag.map fun e => ⟨spans.startTag.stop, e.start⟩⟩],
    found.2 ++ content.diagnostics⟩

mutual

/-- A list of siblings as template nodes, texts not yet joined. The first `skip` of them belong to an
`if` block before them. -/
def nodesOfMarkup : (skip : Nat) → List Markup.Node → Draft
  | _, [] => .empty
  | skip + 1, _ :: rest => nodesOfMarkup skip rest
  | 0, .element name attrs children selfClosing spans :: rest =>
    elementOfMarkup name attrs (nodesOfMarkup 0 children) selfClosing spans ++ nodesOfMarkup 0 rest
  | 0, .text _ tokens _ :: rest => tokensOfMarkup tokens ++ nodesOfMarkup 0 rest
  | 0, .comment _ _ :: rest => nodesOfMarkup 0 rest
  | 0, .block name parameters children spans :: rest =>
    if name == Text.ofString "if" then
      let connected := connectedCount 0 rest
      conditionalOfMarkup (testOfMarkup parameters spans.header)
        (elseProblems true (rest.take connected)) (nodesOfMarkup 0 children)
        (alternateOfMarkup? rest) spans.whole ++ nodesOfMarkup connected rest
    else if name == Text.ofString "for" then
      iterationOfMarkup (loopOfMarkup parameters spans.header) (nodesOfMarkup 0 children)
        spans.whole ++ nodesOfMarkup 0 rest
    else
      .problem (if isConnected name then .strayElse name else .unknownBlock name) spans.whole
        ++ nodesOfMarkup 0 rest
termination_by _ nodes => sizeOf nodes
decreasing_by
  all_goals
    simp only [List.cons.sizeOf_spec, Markup.Node.element.sizeOf_spec, Markup.Node.block.sizeOf_spec]
    omega

/-- The first `else` block that continues an `if` block, among the nodes after that. -/
def alternateOfMarkup? : List Markup.Node → Option Alternate
  | .comment _ _ :: rest => alternateOfMarkup? rest
  | .text value _ _ :: rest => if value.isBlank then alternateOfMarkup? rest else none
  | .block name _ children spans :: _ =>
    if isConnected name then some ⟨nodesOfMarkup 0 children, spans.whole⟩ else none
  | .element .. :: _ => none
  | [] => none
termination_by nodes => sizeOf nodes
decreasing_by
  all_goals
    simp only [List.cons.sizeOf_spec, Markup.Node.block.sizeOf_spec]
    omega

end

/-- From the start of the first node to the end of the last. -/
def extentOf (nodes : List Markup.Node) : Option Span :=
  match nodes.head?, nodes.getLast? with
  | some first, some last => some (first.span.to last.span)
  | _, _ => none

structure Reading where
  root : Node
  diagnostics : List Diagnostic

def ofMarkup (nodes : List Markup.Node) : Reading :=
  let draft := nodesOfMarkup 0 nodes
  ⟨.block (mergeTexts draft.nodes) (extentOf nodes), draft.diagnostics⟩

end Stencil.Template
