import Stencil.Program.Compile

/-!
# What compiling a node gives

Compiling either fails or gives operations of a known shape. The shapes are read off the compiler once,
one equivalence for each kind of node, and every later fact about programs starts from these.
-/

namespace Stencil

/-- Two steps one after the other succeed exactly if each does. -/
theorem ok_of_steps {ε α β : Type} {first : Except ε α} {next : α → Except ε β} {result : β} :
    first >>= next = .ok result ↔ ∃ a, first = .ok a ∧ next a = .ok result := by
  cases first with
  | error e => simp [bind, Except.bind]
  | ok a => simp [bind, Except.bind]

theorem ok_of_mapped {ε α β : Type} {first : Except ε α} {f : α → β} {result : β} :
    first.map f = .ok result ↔ ∃ a, first = .ok a ∧ f a = result := by
  cases first with
  | error e => simp [Except.map]
  | ok a => simp [Except.map]

namespace Program

open Template (NodeKind)

variable {key : Text} {parent : NodeKind}

theorem finish_eq_ok {ops program : List Op} :
    finish ops = .ok program ↔
      program = ops.filterMap prune? ∧ checkBalance [] (ops.filterMap prune?) = .ok () := by
  rw [finish, ok_of_mapped]
  constructor
  · rintro ⟨_, hbalance, rfl⟩
    exact ⟨rfl, hbalance⟩
  · rintro ⟨rfl, hbalance⟩
    exact ⟨(), hbalance, rfl⟩

theorem usefulAlternate_eq_some {alternate : Option (List Op)} {ops : List Op} :
    usefulAlternate alternate = some ops ↔ alternate = some ops ∧ ops ≠ [] := by
  cases alternate with
  | none => simp [usefulAlternate]
  | some others => cases others <;> grind [usefulAlternate]

theorem prune?_conditional_eq_some {test : Path} {consequent : List Op} {alternate : Option (List Op)}
    {span : Option Span} {kept : Op} :
    prune? (.conditional test consequent alternate span) = some kept ↔
      (usefulAlternate alternate = none → consequent ≠ []) ∧
        .conditional test consequent (usefulAlternate alternate) span = kept := by
  cases consequent with
  | nil => cases huseful : usefulAlternate alternate <;> simp [prune?, huseful]
  | cons op ops => simp [prune?]

theorem prune?_iteration_eq_some {collection : Path} {keyName valueName : Text} {body : List Op}
    {span : Option Span} {kept : Op} :
    prune? (.iteration collection keyName valueName body span) = some kept ↔
      body ≠ [] ∧ .iteration collection keyName valueName body span = kept := by
  cases body <;> simp [prune?]

theorem compileNodes_cons_eq_ok {node : Template.Node} {rest : List Template.Node}
    {ops : List Op} :
    compileNodes key parent (node :: rest) = .ok ops ↔
      ∃ first others, compileNode key parent node = .ok first ∧
        compileNodes key parent rest = .ok others ∧ first ++ others = ops := by
  simp only [compileNodes, ok_of_steps, pure, Except.pure, Except.ok.injEq]
  constructor
  · rintro ⟨first, hfirst, others, hothers, heq⟩
    exact ⟨first, others, hfirst, hothers, heq⟩
  · rintro ⟨first, others, hfirst, hothers, heq⟩
    exact ⟨first, hfirst, others, hothers, heq⟩

/-- An element without content is one operation. -/
theorem compileNode_void_eq_ok {name : Text} {attrs : List Template.Attr}
    {content : List Template.Node} {selfClosing : Bool} {spans : Template.ElementSpans}
    {ops : List Op} (hvoid : (selfClosing || Markup.isVoidName name) = true) :
    compileNode key parent (.element name attrs content selfClosing spans) = .ok ops ↔
      ∃ plan, Attribute.Plan.ofAttrs key attrs = .ok plan ∧ content = [] ∧
        [.void name plan spans.whole] = ops := by
  rw [compileNode]
  cases hplan : Attribute.Plan.ofAttrs key attrs with
  | error cause => simp
  | ok plan =>
    cases content with
    | nil => simp [hvoid]
    | cons node rest => simp [hvoid]

/-- An element with content is that content between an opening and a closing operation. -/
theorem compileNode_container_eq_ok {name : Text} {attrs : List Template.Attr}
    {content : List Template.Node} {selfClosing : Bool} {spans : Template.ElementSpans}
    {ops : List Op} (hvoid : (selfClosing || Markup.isVoidName name) = false) :
    compileNode key parent (.element name attrs content selfClosing spans) = .ok ops ↔
      ∃ plan inner, Attribute.Plan.ofAttrs key attrs = .ok plan ∧
        compileNodes key .element content = .ok inner ∧
        elementOps name plan inner spans = ops := by
  rw [compileNode]
  cases hplan : Attribute.Plan.ofAttrs key attrs with
  | error cause => simp
  | ok plan => simp [hvoid, ok_of_mapped]

theorem compileNode_expression_eq_ok {path : Path} {span : Option Span} {ops : List Op} :
    compileNode key parent (.expression path span) = .ok ops ↔
      isInline parent = true ∧ [.bound path span] = ops := by
  rw [compileNode]
  cases hinline : isInline parent with
  | false => simp
  | true => simp

theorem compileAlternate_some_eq_ok {nodes : List Template.Node} {alternate : Option (List Op)} :
    compileAlternate key (some nodes) = .ok alternate ↔
      ∃ ops program, compileNodes key .block nodes = .ok ops ∧ finish ops = .ok program ∧
        some program = alternate := by
  simp only [compileAlternate, ok_of_steps, pure, Except.pure, Except.ok.injEq]
  constructor
  · rintro ⟨ops, hops, program, hprogram, heq⟩
    exact ⟨ops, program, hops, hprogram, heq⟩
  · rintro ⟨ops, program, hops, hprogram, heq⟩
    exact ⟨ops, hops, program, hprogram, heq⟩

theorem compileNode_conditional_eq_ok {test : Path} {consequent : List Template.Node}
    {alternate : Option (List Template.Node)} {spans : Template.ConditionalSpans}
    {ops : List Op} :
    compileNode key parent (.conditional test consequent alternate spans) = .ok ops ↔
      ∃ inner first second, compileNodes key .block consequent = .ok inner ∧
        finish inner = .ok first ∧ compileAlternate key alternate = .ok second ∧
        [.conditional test first second spans.whole] = ops := by
  simp only [compileNode, ok_of_steps, pure, Except.pure, Except.ok.injEq]
  constructor
  · rintro ⟨inner, hinner, first, hfirst, second, hsecond, heq⟩
    exact ⟨inner, first, second, hinner, hfirst, hsecond, heq⟩
  · rintro ⟨inner, first, second, hinner, hfirst, hsecond, heq⟩
    exact ⟨inner, hinner, first, hfirst, second, hsecond, heq⟩

theorem compileNode_iteration_eq_ok {collection : Path} {keyName valueName : Text}
    {body : List Template.Node} {spans : Template.IterationSpans} {ops : List Op} :
    compileNode key parent (.iteration collection keyName valueName body spans) = .ok ops ↔
      ∃ inner program, compileNodes key .block body = .ok inner ∧ finish inner = .ok program ∧
        [.iteration collection (Template.nameOr Template.defaultKeyName keyName)
          (Template.nameOr Template.defaultValueName valueName) program spans.whole] = ops := by
  simp only [compileNode, ok_of_steps, pure, Except.pure, Except.ok.injEq]
  constructor
  · rintro ⟨inner, hinner, program, hprogram, heq⟩
    exact ⟨inner, program, hinner, hprogram, heq⟩
  · rintro ⟨inner, program, hinner, hprogram, heq⟩
    exact ⟨inner, hinner, program, hprogram, heq⟩

theorem compile_eq_ok {root : Template.Node} {program : List Op} :
    compile key root = .ok program ↔
      ∃ ops, compileNode key .none root = .ok ops ∧ finish ops = .ok program := by
  rw [compile, ok_of_steps]

/-! ### Balance

The check at the end of compiling never fails: whatever a node is compiled to closes what it opens,
before and after control flow that does nothing is dropped. -/

/-- Operations that leave the open elements as they were, whatever comes after them. -/
def Balanced (ops : List Op) : Prop :=
  ∀ opened rest, checkBalance opened (ops.filterMap prune? ++ rest) = checkBalance opened rest

theorem Balanced.nil : Balanced [] := by
  intro opened rest
  simp

theorem Balanced.append {first others : List Op} (hfirst : Balanced first)
    (hothers : Balanced others) : Balanced (first ++ others) := by
  intro opened rest
  rw [List.filterMap_append, List.append_assoc, hfirst, hothers]

theorem Balanced.elementOps {inner : List Op} (hinner : Balanced inner) (name : Text)
    (plan : Attribute.Plan) (spans : Template.ElementSpans) :
    Balanced (elementOps name plan inner spans) := by
  intro opened rest
  simp only [Program.elementOps, List.cons_append, List.filterMap_cons, prune?,
    List.filterMap_append, List.filterMap_nil, List.append_assoc, List.nil_append, checkBalance]
  rw [hinner, checkBalance, if_pos rfl]

theorem Balanced.finish_eq {ops : List Op} (hops : Balanced ops) :
    finish ops = .ok (ops.filterMap prune?) := by
  have hempty := hops [] []
  rw [List.append_nil] at hempty
  exact finish_eq_ok.mpr ⟨rfl, hempty⟩

/-- An operation that is neither the beginning nor the end of an element. -/
private theorem balanced_single {op : Op}
    (hop : ∀ opened rest, checkBalance opened ((prune? op).toList ++ rest) = checkBalance opened rest) :
    Balanced [op] := by
  intro opened rest
  have hlist : [op].filterMap prune? = (prune? op).toList := by
    cases hpruned : prune? op <;> simp [hpruned]
  rw [hlist]
  exact hop opened rest

private theorem balanced_conditional (test : Path) (consequent : List Op)
    (alternate : Option (List Op)) (span : Option Span) :
    Balanced [.conditional test consequent alternate span] := by
  apply balanced_single
  intro opened rest
  cases consequent with
  | nil => cases huseful : usefulAlternate alternate <;> simp [prune?, huseful, checkBalance]
  | cons op ops => simp [prune?, checkBalance]

private theorem balanced_iteration (collection : Path) (keyName valueName : Text) (body : List Op)
    (span : Option Span) : Balanced [.iteration collection keyName valueName body span] := by
  apply balanced_single
  intro opened rest
  cases body with
  | nil => simp [prune?]
  | cons op ops => simp [prune?, checkBalance]

mutual

theorem balanced_compileNode {node : Template.Node} {parent : NodeKind} {ops : List Op}
    (hops : compileNode key parent node = .ok ops) : Balanced ops := by
  match node with
  | .block children span =>
    rw [compileNode] at hops
    exact balanced_compileNodes hops
  | .element name attrs content selfClosing spans =>
    cases hvoid : (selfClosing || Markup.isVoidName name) with
    | true =>
      obtain ⟨plan, _, _, rfl⟩ := (compileNode_void_eq_ok hvoid).mp hops
      exact balanced_single fun opened rest => by simp [prune?, checkBalance]
    | false =>
      obtain ⟨plan, inner, _, hinner, rfl⟩ := (compileNode_container_eq_ok hvoid).mp hops
      exact (balanced_compileNodes hinner).elementOps name plan spans
  | .text value span =>
    simp only [compileNode, Except.ok.injEq] at hops
    subst hops
    exact balanced_single fun opened rest => by simp [prune?, checkBalance]
  | .expression path span =>
    obtain ⟨_, rfl⟩ := compileNode_expression_eq_ok.mp hops
    exact balanced_single fun opened rest => by simp [prune?, checkBalance]
  | .conditional test consequent alternate spans =>
    obtain ⟨_, first, second, _, _, _, rfl⟩ := compileNode_conditional_eq_ok.mp hops
    exact balanced_conditional test first second spans.whole
  | .iteration collection keyName valueName body spans =>
    obtain ⟨_, program, _, _, rfl⟩ := compileNode_iteration_eq_ok.mp hops
    exact balanced_iteration _ _ _ program spans.whole
  | .hole => simp [compileNode] at hops
  | .foreign kind typeName span => simp [compileNode] at hops

theorem balanced_compileNodes {nodes : List Template.Node} {parent : NodeKind} {ops : List Op}
    (hops : compileNodes key parent nodes = .ok ops) : Balanced ops := by
  match nodes with
  | [] =>
    simp only [compileNodes, Except.ok.injEq] at hops
    subst hops
    exact Balanced.nil
  | node :: rest =>
    obtain ⟨first, others, hfirst, hothers, rfl⟩ := compileNodes_cons_eq_ok.mp hops
    exact (balanced_compileNode hfirst).append (balanced_compileNodes hothers)

end

/-- The check at the end of compiling refuses nothing that a node was compiled to. -/
theorem compile_of_compileNode {root : Template.Node} {ops : List Op} (hops : compileNode key .none root = .ok ops) :
    compile key root = .ok (ops.filterMap prune?) :=
  compile_eq_ok.mpr ⟨ops, hops, (balanced_compileNode hops).finish_eq⟩

end Program

end Stencil
