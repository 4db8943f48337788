import Stencil.Proofs.Lowering

/-!
# What a template means

A template has a meaning of its own, read off its tree: the instructions of a node in a context, with no
program in between. Compiling keeps it. The argument follows the tree, and the context changes under
every loop, so the facts about a node are stated for all contexts at once.

Dropping control flow that does nothing is the one step at which a program differs from a plain
reading of the tree; `run_prune` says that it cannot be seen from outside.
-/

namespace Stencil.Program

open Template (NodeKind)

/-- What the attributes of an element are in a context. -/
def classify (key : Text) (attrs : List Template.Attr) (context : Value) :
    Except Attribute.AttrError Attribute.Evaluation :=
  (Attribute.Plan.ofAttrs key attrs).map fun plan => plan.evaluate context

/-- The names bound for one entry of a collection: a name that is not given is the usual one, and of two
equal names the one of the value counts. -/
def loopBindings (keyName valueName : Text) (entry : Value × Value) : Entries Value :=
  let k := if keyName = [] then Template.defaultKeyName else keyName
  let v := if valueName = [] then Template.defaultValueName else valueName
  if k = v then [(v, entry.2)] else [(k, entry.1), (v, entry.2)]

mutual

/-- The meaning of a node in a context. -/
def denote (key : Text) : Template.Node → (context : Value) → List Instruction
  | .block children _, context => denoteAll key children context
  | .element name attrs content selfClosing _, context =>
    match classify key attrs context with
    | .error _ => []
    | .ok r =>
      if selfClosing || Markup.isVoidName name then [.void ⟨name, r.key, r.static, r.dynamic⟩]
      else
        [.open ⟨name, r.key, r.static, r.dynamic⟩] ++ denoteAll key content context ++ [.close name]
  | .text value _, _ => [.text value]
  | .expression path _, context => [.text (Value.resolve path context).toText]
  | .conditional test consequent alternate _, context =>
    if (Value.resolve test context).isTruthy then denoteAll key consequent context
    else denoteAlternate key alternate context
  | .iteration collection keyName valueName body _, context =>
    (Value.resolve collection context).entries.flatMap fun entry =>
      denoteAll key body (.overlay context (some (loopBindings keyName valueName entry)))
  | .hole, _ => []
  | .foreign .., _ => []

/-- The meaning of the alternate of a conditional. -/
def denoteAlternate (key : Text) : Option (List Template.Node) → (context : Value) → List Instruction
  | none, _ => []
  | some nodes, context => denoteAll key nodes context

/-- The meaning of nodes one after the other. -/
def denoteAll (key : Text) : List Template.Node → (context : Value) → List Instruction
  | [], _ => []
  | node :: rest, context => denote key node context ++ denoteAll key rest context

end

/-! ### Running lists of operations -/

theorem run_append (first others : List Op) (context : Value) :
    run (first ++ others) context = run first context ++ run others context := by
  induction first with
  | nil => simp [run]
  | cons op ops ih => rw [List.cons_append, run, run, ih, List.append_assoc]

theorem run_singleton (op : Op) (context : Value) : run [op] context = runOp op context := by
  rw [run, run, List.append_nil]

theorem runAlternate_useful (alternate : Option (List Op)) (context : Value) :
    runAlternate (usefulAlternate alternate) context = runAlternate alternate context := by
  cases alternate with
  | none => rfl
  | some ops =>
    cases ops with
    | nil => simp [usefulAlternate, runAlternate, run]
    | cons op rest => rfl

/-- An operation runs as what is left of it, and one of which nothing is left does nothing. -/
theorem run_pruneOp (op : Op) (context : Value) :
    run (prune? op).toList context = runOp op context := by
  cases op with
  | conditional test consequent alternate span =>
    cases consequent with
    | nil =>
      cases huseful : usefulAlternate alternate with
      | none =>
        have halternate := runAlternate_useful alternate context
        rw [huseful, runAlternate] at halternate
        simp [prune?, huseful, run, runOp, ← halternate]
      | some ops =>
        have halternate := runAlternate_useful alternate context
        rw [huseful] at halternate
        simp [prune?, huseful, run_singleton, runOp, halternate]
    | cons first rest => simp [prune?, run_singleton, runOp, runAlternate_useful]
  | iteration collection keyName valueName body span =>
    cases body with
    | nil => simp [prune?, run, runOp]
    | cons first rest => simp [prune?, run_singleton]
  | _ => simp [prune?, run_singleton]

/-- Dropping control flow that does nothing changes nothing. -/
theorem run_prune (ops : List Op) (context : Value) :
    run (ops.filterMap prune?) context = run ops context := by
  induction ops with
  | nil => rfl
  | cons op rest ih =>
    have hsplit : (op :: rest).filterMap prune? = (prune? op).toList ++ rest.filterMap prune? := by
      cases hop : prune? op <;> simp [hop]
    rw [hsplit, run_append, run_pruneOp, ih, run]

theorem run_of_finish {ops program : List Op} (hfinish : finish ops = .ok program)
    (context : Value) : run program context = run ops context := by
  obtain ⟨rfl, _⟩ := finish_eq_ok.mp hfinish
  exact run_prune ops context

theorem entryContext_nameOr (context : Value) (keyName valueName : Text) (entry : Value × Value) :
    entryContext context (Template.nameOr Template.defaultKeyName keyName)
        (Template.nameOr Template.defaultValueName valueName) entry =
      .overlay context (some (loopBindings keyName valueName entry)) := by
  simp only [entryContext, loopBindings, Template.nameOr, List.isEmpty_iff, Entries.ofList,
    List.foldl_cons, List.foldl_nil, Entries.set]
  split <;> simp_all

/-! ### Compiling keeps the meaning -/

variable {key : Text}

theorem run_elementOps (name : Text) (plan : Attribute.Plan) (inner : List Op)
    (spans : Template.ElementSpans) (context : Value) :
    run (elementOps name plan inner spans) context =
      [.open (opening context name plan)] ++ run inner context ++ [.close name] := by
  simp only [elementOps, run, runOp, run_append, List.cons_append, List.nil_append, List.append_nil]

mutual

theorem run_compileNode {node : Template.Node} {parent : NodeKind} {ops : List Op}
    (hops : compileNode key parent node = .ok ops) (context : Value) :
    run ops context = denote key node context := by
  match node with
  | .block children span =>
    rw [compileNode] at hops
    rw [denote, run_compileNodes hops context]
  | .element name attrs content selfClosing spans =>
    cases hvoid : (selfClosing || Markup.isVoidName name) with
    | true =>
      obtain ⟨plan, hplan, _, rfl⟩ := (compileNode_void_eq_ok hvoid).mp hops
      simp [denote, classify, hplan, Except.map, hvoid, run_singleton, runOp, opening]
    | false =>
      obtain ⟨plan, inner, hplan, hinner, rfl⟩ := (compileNode_container_eq_ok hvoid).mp hops
      rw [run_elementOps, run_compileNodes hinner context]
      simp [denote, classify, hplan, Except.map, hvoid, opening]
  | .text value span =>
    simp only [compileNode, Except.ok.injEq] at hops
    rw [← hops, run_singleton, runOp, denote]
  | .expression path span =>
    obtain ⟨_, rfl⟩ := compileNode_expression_eq_ok.mp hops
    rw [run_singleton, runOp, denote]
  | .conditional test consequent alternate spans =>
    obtain ⟨inner, first, second, hinner, hfirst, hsecond, rfl⟩ :=
      compileNode_conditional_eq_ok.mp hops
    have hconsequent : run first context = denoteAll key consequent context :=
      (run_of_finish hfirst context).trans (run_compileNodes hinner context)
    rw [run_singleton, runOp, denote, hconsequent, run_compileAlternate hsecond context]
  | .iteration collection keyName valueName body spans =>
    obtain ⟨inner, program, hinner, hprogram, rfl⟩ := compileNode_iteration_eq_ok.mp hops
    -- The body runs in one context for each entry, so its meaning is needed in all of them.
    have hbody : ∀ c, run program c = denoteAll key body c := fun c =>
      (run_of_finish hprogram c).trans (run_compileNodes hinner c)
    simp only [run_singleton, runOp, denote, hbody, entryContext_nameOr]
  | .hole => simp [compileNode] at hops
  | .foreign kind typeName span => simp [compileNode] at hops

theorem run_compileAlternate {nodes : Option (List Template.Node)} {alternate : Option (List Op)}
    (halternate : compileAlternate key nodes = .ok alternate) (context : Value) :
    runAlternate alternate context = denoteAlternate key nodes context := by
  match nodes with
  | none =>
    simp only [compileAlternate, Except.ok.injEq] at halternate
    rw [← halternate, runAlternate, denoteAlternate]
  | some nodes =>
    obtain ⟨ops, program, hops, hprogram, rfl⟩ := compileAlternate_some_eq_ok.mp halternate
    rw [runAlternate, denoteAlternate, run_of_finish hprogram, run_compileNodes hops context]

theorem run_compileNodes {nodes : List Template.Node} {parent : NodeKind} {ops : List Op}
    (hops : compileNodes key parent nodes = .ok ops) (context : Value) :
    run ops context = denoteAll key nodes context := by
  match nodes with
  | [] =>
    simp only [compileNodes, Except.ok.injEq] at hops
    rw [← hops, run, denoteAll]
  | node :: rest =>
    obtain ⟨first, others, hfirst, hothers, rfl⟩ := compileNodes_cons_eq_ok.mp hops
    rw [run_append, denoteAll, run_compileNode hfirst context, run_compileNodes hothers context]

end

theorem run_compiled {root : Template.Node} {program : List Op}
    (hcompile : compile key root = .ok program) (context : Value) :
    run program context = denote key root context := by
  obtain ⟨ops, hops, hfinish⟩ := compile_eq_ok.mp hcompile
  rw [run_of_finish hfinish, run_compileNode hops]

/-- A compiled program gives in every context what its template means there, and dropping control flow
that does nothing is never seen. -/
theorem compile_keeps_meaning (key : Text) (root : Template.Node) (program : List Op)
    (hcompile : compile key root = .ok program) :
    (∀ context, run program context = denote key root context) ∧
      ∀ ops context, run (ops.filterMap prune?) context = run ops context :=
  ⟨run_compiled hcompile, run_prune⟩

/-- A list with an entry for each item, and after it a test that does nothing either way. -/
def itemList : Template.Node :=
  .block
    [.element "ul" []
      [.iteration ["items"] [] "x"
        [.element "li" [⟨"id", .path, "__key__", ⟨none, none, none⟩⟩] [.expression ["x"] none] false
          ⟨none, none, none, none⟩]
        ⟨none, none⟩]
      false ⟨none, none, none, none⟩,
      .conditional ["items"] [] (some []) ⟨none, none, none⟩] none

/-- The program of that list: the test is gone. -/
def itemListProgram : List Op :=
  [.open "ul" .empty none,
    .iteration ["items"] "__key__" "x"
      [.open "li" ⟨none, [⟨.static, "id", .bound ["__key__"]⟩]⟩ none, .bound ["x"] none,
        .close "li" none] none,
    .close "ul" none]

theorem itemListProgram_keeps_meaning :
    compile [] itemList = .ok itemListProgram ∧
      run itemListProgram (.map [("items", .list .any [.text "a", .text "b"])]) =
        denote [] itemList (.map [("items", .list .any [.text "a", .text "b"])]) :=
  ⟨rfl, (compile_keeps_meaning [] itemList itemListProgram rfl).1 _⟩

end Stencil.Program
