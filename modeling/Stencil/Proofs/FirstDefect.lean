import Stencil.Proofs.Lowering

/-!
# The first defect

Compiling stops at the first node that has no meaning where it stands. A template is looked through in
document order, each node before its content, the consequent of a conditional before its alternate; the
content of an element that may have none is not looked at. Whether a node is at fault depends on that
node and on whether it is the root, and the error says so of the first one that is.

No other error is ever raised: the check that elements are closed in order runs on every program, the
inner ones included, and finds nothing.
-/

namespace Stencil.Program

open Template (NodeKind)

/-- The error that a computation ends in, if it does. -/
def raised? {ε α : Type} : Except ε α → Option ε
  | .error e => some e
  | .ok _ => none

theorem raised?_eq_some {ε α : Type} {x : Except ε α} {e : ε} : raised? x = some e ↔ x = .error e := by
  cases x <;> simp [raised?]

theorem raised?_map {ε α β : Type} (f : α → β) (x : Except ε α) : raised? (x.map f) = raised? x := by
  cases x <;> rfl

/-- The second of two steps is taken only if the first raises nothing. -/
theorem raised?_bind {ε α β : Type} {x : Except ε α} {next : α → Except ε β}
    (later : Option ε) (hnext : ∀ a, x = .ok a → raised? (next a) = later) :
    raised? (x >>= next) = (raised? x).or later := by
  cases x with
  | error e => rfl
  | ok a => exact hnext a rfl

/-- A node that is looked at, and the kind of the node it stands in. -/
structure Visit where
  parent : NodeKind
  node : Template.Node

mutual

/-- The nodes that are looked at in a node, in document order. -/
def visits (parent : NodeKind) : Template.Node → List Visit
  | .block children span => ⟨parent, .block children span⟩ :: visitsIn .block children
  | .element name attrs content selfClosing spans =>
    ⟨parent, .element name attrs content selfClosing spans⟩ ::
      if selfClosing || Markup.isVoidName name then [] else visitsIn .element content
  | .conditional test consequent alternate spans =>
    ⟨parent, .conditional test consequent alternate spans⟩ ::
      (visitsIn .block consequent ++ visitsInAlternate alternate)
  | .iteration collection key value body spans =>
    ⟨parent, .iteration collection key value body spans⟩ :: visitsIn .block body
  | .text value span => [⟨parent, .text value span⟩]
  | .expression path span => [⟨parent, .expression path span⟩]
  | .hole => [⟨parent, .hole⟩]
  | .foreign kind typeName span => [⟨parent, .foreign kind typeName span⟩]

def visitsInAlternate : Option (List Template.Node) → List Visit
  | none => []
  | some nodes => visitsIn .block nodes

def visitsIn (parent : NodeKind) : List Template.Node → List Visit
  | [] => []
  | node :: rest => visits parent node ++ visitsIn parent rest

end

namespace Visit

/-- What is wrong with a node: an expression stands at the root, a node is missing or of no known kind,
the attributes of an element cannot be sorted, or it has content and may have none. -/
def fault? (key : Text) (v : Visit) : Option Fault :=
  match v.node with
  | .expression path _ => if v.parent = .none then some (.misplacedExpression path .none) else none
  | .hole => some .hole
  | .foreign _ typeName _ => some (.foreign typeName)
  | .element name attrs content selfClosing _ =>
    match Attribute.Plan.ofAttrs key attrs with
    | .error cause => some (.attributes name cause)
    | .ok _ =>
      if (selfClosing || Markup.isVoidName name) && !content.isEmpty then some (.voidContent name)
      else none
  | _ => none

/-- The kind of node that an error is said to be in; for an element that is an element. -/
def place (v : Visit) : NodeKind :=
  match v.node with
  | .element .. => .element
  | _ => v.parent

/-- The error about a node, if something is wrong with it. -/
def error? (key : Text) (v : Visit) : Option StructuralError :=
  (v.fault? key).map (StructuralError.ofNode v.node v.place)

/-- What makes the attributes of a node impossible to sort, if it is an element and they are. -/
def attrError? (key : Text) (v : Visit) : Option Attribute.AttrError :=
  match v.node with
  | .element _ attrs _ _ _ => raised? (Attribute.Plan.ofAttrs key attrs)
  | _ => none

theorem cause?_fault {key : Text} {v : Visit} {fault : Fault} (hfault : v.fault? key = some fault) :
    fault.cause? = v.attrError? key := by
  obtain ⟨parent, node⟩ := v
  cases node with
  | element name attrs content selfClosing spans =>
    simp only [fault?] at hfault
    simp only [attrError?]
    cases hplan : Attribute.Plan.ofAttrs key attrs with
    | error cause =>
      rw [hplan] at hfault
      cases hfault
      rfl
    | ok plan =>
      rw [hplan] at hfault
      dsimp only at hfault
      split at hfault
      · cases hfault
        rfl
      · cases hfault
  | expression path span =>
    simp only [fault?] at hfault
    split at hfault
    · cases hfault
      rfl
    · cases hfault
  | hole | foreign =>
    cases hfault
    rfl
  | block | text | conditional | iteration => cases hfault

/-- No node is to blame for elements that are not closed in order. -/
theorem fault?_ne_unbalanced (key : Text) (v : Visit) (tag : Text) :
    v.fault? key ≠ some (.unbalancedClose tag) ∧ v.fault? key ≠ some (.unclosed tag) := by
  obtain ⟨parent, node⟩ := v
  cases node with
  | element name attrs content selfClosing spans =>
    simp only [fault?]
    split
    · simp
    · split <;> simp
  | expression path span =>
    simp only [fault?]
    split <;> simp
  | _ => simp [fault?]

end Visit

/-! ### What compiling raises -/

theorem raised?_finish {ops : List Op} (hops : Balanced ops) : raised? (finish ops) = none := by
  rw [hops.finish_eq]
  rfl

/-- The error about the first node that has one. -/
def firstError? (key : Text) (vs : List Visit) : Option StructuralError :=
  vs.findSome? (Visit.error? key)

theorem firstError?_cons (key : Text) (v : Visit) (vs : List Visit) :
    firstError? key (v :: vs) = (v.error? key).or (firstError? key vs) := by
  rw [firstError?, List.findSome?_cons]
  cases v.error? key <;> rfl

theorem firstError?_append (key : Text) (vs ws : List Visit) :
    firstError? key (vs ++ ws) = (firstError? key vs).or (firstError? key ws) :=
  List.findSome?_append

variable {key : Text}

/-- A program inside another one is compiled and finished, and finishing raises nothing. -/
theorem raised?_inner (nodes : List Template.Node) {α : Type} {next : List Op → Except StructuralError α}
    (later : Option StructuralError) (hnext : ∀ program, raised? (next program) = later) :
    raised? (do next (← finish (← compileNodes key .block nodes))) =
      (raised? (compileNodes key .block nodes)).or later := by
  apply raised?_bind
  intro ops hops
  rw [raised?_bind later fun program _ => hnext program, raised?_finish (balanced_compileNodes hops)]
  rfl

mutual

theorem raised?_compileNode (parent : NodeKind) (hparent : parent = .none ∨ isInline parent = true)
    (node : Template.Node) :
    raised? (compileNode key parent node) = firstError? key (visits parent node) := by
  match node with
  | .block children span =>
    rw [compileNode, visits, firstError?_cons]
    exact raised?_compileNodes .block rfl children
  | .element name attrs content selfClosing spans =>
    rw [compileNode, visits, firstError?_cons, Visit.error?, Visit.fault?]
    dsimp only
    cases Attribute.Plan.ofAttrs key attrs with
    | error cause => rfl
    | ok plan =>
      cases selfClosing || Markup.isVoidName name with
      | true => cases content <;> rfl
      | false =>
        dsimp only
        rw [if_neg Bool.false_ne_true, if_neg Bool.false_ne_true, raised?_map]
        exact raised?_compileNodes .element rfl content
  | .text value span => rfl
  | .expression path span =>
    -- A template is entered at its root, and every other expression stands in a block or an element.
    rcases hparent with rfl | hinline
    · rfl
    · have hroot : parent ≠ .none := by
        rintro rfl
        cases hinline
      rw [compileNode, if_pos hinline, visits, firstError?_cons, Visit.error?, Visit.fault?]
      dsimp only
      rw [if_neg hroot]
      rfl
  | .conditional test consequent alternate spans =>
    rw [compileNode, visits, firstError?_cons, firstError?_append,
      raised?_inner consequent (raised? (compileAlternate key alternate)),
      raised?_compileNodes .block rfl consequent, raised?_compileAlternate alternate]
    · rfl
    · intro program
      cases compileAlternate key alternate <;> rfl
  | .iteration collection keyName valueName body spans =>
    rw [compileNode, visits, firstError?_cons, raised?_inner body none fun _ => rfl,
      raised?_compileNodes .block rfl body, Option.or_none]
    rfl
  | .hole => rfl
  | .foreign kind typeName span => rfl

theorem raised?_compileAlternate (nodes : Option (List Template.Node)) :
    raised? (compileAlternate key nodes) = firstError? key (visitsInAlternate nodes) := by
  match nodes with
  | none => rfl
  | some nodes =>
    rw [compileAlternate, raised?_inner nodes none fun _ => rfl, Option.or_none]
    exact raised?_compileNodes .block rfl nodes

theorem raised?_compileNodes (parent : NodeKind) (hinline : isInline parent = true)
    (nodes : List Template.Node) :
    raised? (compileNodes key parent nodes) = firstError? key (visitsIn parent nodes) := by
  match nodes with
  | [] => rfl
  | node :: rest =>
    rw [compileNodes, visitsIn, firstError?_append, ← raised?_compileNode parent (.inr hinline) node,
      ← raised?_compileNodes parent hinline rest]
    apply raised?_bind
    intro first _
    cases compileNodes key parent rest <;> rfl

end

theorem raised?_compile (root : Template.Node) :
    raised? (compile key root) = firstError? key (visits .none root) := by
  rw [compile, ← raised?_compileNode .none (.inl rfl) root]
  have hfinish : ∀ ops, compileNode key .none root = .ok ops → raised? (finish ops) = none :=
    fun ops hops => raised?_finish (balanced_compileNode hops)
  rw [raised?_bind none hfinish, Option.or_none]

/-- A template fails to compile exactly if something is wrong with one of its nodes. The error is that of
the first such node in document order, with its kind and place and, where the attributes are to blame,
their own error. It is never about elements that are not closed in order. -/
theorem compile_error_iff_first (key : Text) (root : Template.Node) :
    ((∃ e, compile key root = .error e) ↔ ∃ v ∈ visits .none root, ∃ fault, v.fault? key = some fault) ∧
    (∀ e, compile key root = .error e ↔
      ∃ before v after fault, visits .none root = before ++ v :: after ∧
        (∀ w ∈ before, w.fault? key = none) ∧ v.fault? key = some fault ∧
        fault.cause? = v.attrError? key ∧ e = ⟨v.node.kind, v.place, v.node.span, fault⟩) ∧
    ¬ ∃ e tag, compile key root = .error e ∧
        (e.fault = .unbalancedClose tag ∨ e.fault = .unclosed tag) := by
  have hfirst : ∀ e, compile key root = .error e ↔
      ∃ before v after fault, visits .none root = before ++ v :: after ∧
        (∀ w ∈ before, w.fault? key = none) ∧ v.fault? key = some fault ∧
        fault.cause? = v.attrError? key ∧ e = ⟨v.node.kind, v.place, v.node.span, fault⟩ := by
    intro e
    rw [← raised?_eq_some, raised?_compile, firstError?, List.findSome?_eq_some_iff]
    constructor
    · rintro ⟨before, v, after, hvisits, herror, hbefore⟩
      obtain ⟨fault, hfault, rfl⟩ := Option.map_eq_some_iff.mp herror
      refine ⟨before, v, after, fault, hvisits, ?_, hfault, Visit.cause?_fault hfault, rfl⟩
      intro w hw
      exact Option.map_eq_none_iff.mp (hbefore w hw)
    · rintro ⟨before, v, after, fault, hvisits, hbefore, hfault, -, rfl⟩
      refine ⟨before, v, after, hvisits, ?_, ?_⟩
      · rw [Visit.error?, hfault]
        rfl
      · intro w hw
        rw [Visit.error?, hbefore w hw]
        rfl
  refine ⟨?_, hfirst, ?_⟩
  · constructor
    · rintro ⟨e, he⟩
      obtain ⟨before, v, after, fault, hvisits, -, hfault, -⟩ := (hfirst e).mp he
      exact ⟨v, by simp [hvisits], fault, hfault⟩
    · rintro ⟨v, hv, fault, hfault⟩
      cases hraised : raised? (compile key root) with
      | some e => exact ⟨e, raised?_eq_some.mp hraised⟩
      | none =>
        rw [raised?_compile, firstError?, List.findSome?_eq_none_iff] at hraised
        have hnone := Option.map_eq_none_iff.mp (hraised v hv)
        rw [hfault] at hnone
        cases hnone
  · rintro ⟨e, tag, he, hfault⟩
    obtain ⟨-, v, -, fault, -, -, hwrong, -, rfl⟩ := (hfirst e).mp he
    obtain ⟨hclose, hopen⟩ := v.fault?_ne_unbalanced key tag
    rcases hfault with rfl | rfl
    · exact hclose hwrong
    · exact hopen hwrong

end Stencil.Program
