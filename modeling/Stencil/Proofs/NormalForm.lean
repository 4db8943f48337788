import Stencil.Proofs.Bracketing
import Stencil.Proofs.Meaning

/-!
# The normal form of programs

A program is finished by a single pass, which drops control flow that does nothing, and a check that its
elements are closed in order. The pass asks of a branch or a body only whether it is empty. That is enough at
every depth, because branches and bodies are finished before the program that they are part of: a loop that
loses its whole body is dropped in turn.
-/

namespace Stencil.Program

open Template (NodeKind)

namespace Op

/-- The branches of a conditional and the body of an iteration. -/
def parts : Op → List (List Op)
  | .conditional _ consequent alternate _ => consequent :: alternate.toList
  | .iteration _ _ _ body _ => [body]
  | _ => []

/-- A body is not empty, an alternate is not empty, and without an alternate the consequent is not empty. -/
def Useful : Op → Prop
  | .conditional _ consequent alternate _ => alternate ≠ some [] ∧ (alternate = none → consequent ≠ [])
  | .iteration _ _ _ body _ => body ≠ []
  | _ => True

/-- An opening or closing operation as a bracket. -/
def bracket? : Op → Option Markup.Bracket
  | .open tag _ _ => some (.opening (.element tag))
  | .close tag _ => some (.closing (.element tag))
  | _ => none

end Op

/-- A program is part of another one at any depth, or is that program. -/
inductive Within (inner : List Op) : List Op → Prop
  | self : Within inner inner
  | part {op : Op} {part program : List Op} (hop : op ∈ program) (hpart : part ∈ op.parts)
      (hinner : Within inner part) : Within inner program

/-- All control flow can do something, and each element is closed by its own tag, what is opened inside it
before. -/
structure Normal (program : List Op) : Prop where
  useful : ∀ op ∈ program, op.Useful
  nested : Markup.Dyck (program.filterMap Op.bracket?)

/-! ### Finishing a program -/

theorem useful_of_prune? {op kept : Op} (hkept : prune? op = some kept) : kept.Useful := by
  cases op with
  | conditional test consequent alternate span =>
    obtain ⟨hconsequent, rfl⟩ := prune?_conditional_eq_some.mp hkept
    exact ⟨fun hempty => (usefulAlternate_eq_some.mp hempty).2 rfl, hconsequent⟩
  | iteration collection keyName valueName body span =>
    obtain ⟨hbody, rfl⟩ := prune?_iteration_eq_some.mp hkept
    exact hbody
  | _ =>
    obtain rfl := Option.some.inj hkept
    trivial

theorem mem_parts_of_prune? {op kept : Op} (hkept : prune? op = some kept) {part : List Op}
    (hpart : part ∈ kept.parts) : part ∈ op.parts := by
  cases op with
  | conditional test consequent alternate span =>
    obtain ⟨_, rfl⟩ := prune?_conditional_eq_some.mp hkept
    rcases List.mem_cons.mp hpart with hconsequent | huseful
    · exact List.mem_cons.mpr (.inl hconsequent)
    · have halternate := (usefulAlternate_eq_some.mp (Option.mem_toList.mp huseful)).1
      exact List.mem_cons_of_mem _ (Option.mem_toList.mpr halternate)
  | iteration collection keyName valueName body span =>
    obtain ⟨_, rfl⟩ := prune?_iteration_eq_some.mp hkept
    exact hpart
  | _ =>
    obtain rfl := Option.some.inj hkept
    exact hpart

theorem followAll_of_checkBalance {opened : List (Text × Option Span)} {ops : List Op}
    (hcheck : checkBalance opened ops = .ok ()) :
    Markup.Bracket.followAll (opened.map fun o => .element o.1) (ops.filterMap Op.bracket?) = some [] := by
  induction ops generalizing opened with
  | nil =>
    cases opened with
    | nil => rfl
    | cons o outer => cases hcheck
  | cons op rest ih =>
    cases op with
    | «open» tag attrs span => exact ih hcheck
    | close tag span =>
      cases opened with
      | nil => cases hcheck
      | cons o outer =>
        rw [checkBalance] at hcheck
        split at hcheck
        · rename_i htag
          subst htag
          exact (Markup.Bracket.followAll_closing _ _ _).trans (ih hcheck)
        · cases hcheck
    | _ => exact ih hcheck

theorem normal_of_finish {ops program : List Op} (hfinish : finish ops = .ok program) : Normal program := by
  obtain ⟨rfl, hcheck⟩ := finish_eq_ok.mp hfinish
  refine ⟨fun op hop => ?_, Markup.Dyck.iff_followAll.mpr (followAll_of_checkBalance hcheck)⟩
  obtain ⟨_, _, hkept⟩ := List.mem_filterMap.mp hop
  exact useful_of_prune? hkept

/-! ### Every program inside -/

/-- Whatever is part of a program, at any depth, is in normal form. -/
def NormalWithin (program : List Op) : Prop := ∀ inner, Within inner program → Normal inner

/-- The programs that are parts of some operations are finished. -/
def PartsNormal (ops : List Op) : Prop := ∀ op ∈ ops, ∀ part ∈ op.parts, NormalWithin part

theorem PartsNormal.finish {ops program : List Op} (hops : PartsNormal ops)
    (hfinish : finish ops = .ok program) : NormalWithin program := by
  intro inner hinner
  cases hinner with
  | self => exact normal_of_finish hfinish
  | part hop hpart hwithin =>
    obtain ⟨rfl, _⟩ := finish_eq_ok.mp hfinish
    obtain ⟨before, hbefore, hkept⟩ := List.mem_filterMap.mp hop
    exact hops before hbefore _ (mem_parts_of_prune? hkept hpart) inner hwithin

theorem PartsNormal.append {first others : List Op} (hfirst : PartsNormal first)
    (hothers : PartsNormal others) : PartsNormal (first ++ others) := by
  intro op hop
  rcases List.mem_append.mp hop with hop | hop
  · exact hfirst op hop
  · exact hothers op hop

theorem PartsNormal.single {op : Op} (hop : ∀ part ∈ op.parts, NormalWithin part) : PartsNormal [op] := by
  intro other hother
  rw [List.mem_singleton.mp hother]
  exact hop

theorem PartsNormal.of_no_parts {op : Op} (hop : op.parts = []) : PartsNormal [op] := by
  refine single fun part hpart => ?_
  rw [hop] at hpart
  cases hpart

variable {key : Text}

mutual

theorem partsNormal_compileNode {node : Template.Node} {parent : NodeKind} {ops : List Op}
    (hops : compileNode key parent node = .ok ops) : PartsNormal ops := by
  match node with
  | .block children span =>
    rw [compileNode] at hops
    exact partsNormal_compileNodes hops
  | .element name attrs content selfClosing spans =>
    cases hvoid : (selfClosing || Markup.isVoidName name) with
    | true =>
      obtain ⟨plan, _, _, rfl⟩ := (compileNode_void_eq_ok hvoid).mp hops
      exact .of_no_parts rfl
    | false =>
      obtain ⟨plan, inner, _, hinner, rfl⟩ := (compileNode_container_eq_ok hvoid).mp hops
      exact ((PartsNormal.of_no_parts rfl).append (partsNormal_compileNodes hinner)).append
        (.of_no_parts rfl)
  | .text value span =>
    rw [compileNode] at hops
    obtain rfl := Except.ok.inj hops
    exact .of_no_parts rfl
  | .expression path span =>
    obtain ⟨_, rfl⟩ := compileNode_expression_eq_ok.mp hops
    exact .of_no_parts rfl
  | .conditional test consequent alternate spans =>
    obtain ⟨inner, first, second, hinner, hfirst, hsecond, rfl⟩ := compileNode_conditional_eq_ok.mp hops
    refine .single fun part hpart => ?_
    rcases List.mem_cons.mp hpart with rfl | halternate
    · exact (partsNormal_compileNodes hinner).finish hfirst
    · exact normalWithin_compileAlternate hsecond (Option.mem_toList.mp halternate)
  | .iteration collection keyName valueName body spans =>
    obtain ⟨inner, program, hinner, hprogram, rfl⟩ := compileNode_iteration_eq_ok.mp hops
    refine .single fun part hpart => ?_
    rw [List.mem_singleton.mp hpart]
    exact (partsNormal_compileNodes hinner).finish hprogram
  | .hole => simp [compileNode] at hops
  | .foreign kind typeName span => simp [compileNode] at hops

theorem normalWithin_compileAlternate {nodes : Option (List Template.Node)} {alternate : Option (List Op)}
    (halternate : compileAlternate key nodes = .ok alternate) {program : List Op}
    (hprogram : alternate = some program) : NormalWithin program := by
  match nodes with
  | none =>
    rw [compileAlternate] at halternate
    rw [← Except.ok.inj halternate] at hprogram
    cases hprogram
  | some nodes =>
    obtain ⟨ops, finished, hops, hfinished, rfl⟩ := compileAlternate_some_eq_ok.mp halternate
    obtain rfl := Option.some.inj hprogram
    exact (partsNormal_compileNodes hops).finish hfinished

theorem partsNormal_compileNodes {nodes : List Template.Node} {parent : NodeKind} {ops : List Op}
    (hops : compileNodes key parent nodes = .ok ops) : PartsNormal ops := by
  match nodes with
  | [] =>
    rw [compileNodes] at hops
    obtain rfl := Except.ok.inj hops
    intro op hop
    cases hop
  | node :: rest =>
    obtain ⟨first, others, hfirst, hothers, rfl⟩ := compileNodes_cons_eq_ok.mp hops
    exact (partsNormal_compileNode hfirst).append (partsNormal_compileNodes hothers)

end

/-- Every program inside a compiled program, and that program itself, is in normal form. -/
theorem compiled_normal_within (key : Text) (root : Template.Node) (program : List Op)
    (hcompile : compile key root = .ok program) (inner : List Op) (hinner : Within inner program) :
    Normal inner := by
  obtain ⟨ops, hops, hfinish⟩ := compile_eq_ok.mp hcompile
  exact (partsNormal_compileNode hops).finish hfinish inner hinner

/-- A loop over a loop over nothing, a conditional that is left with its alternate, and one that is left with
an empty alternate. -/
def hollowLoops : Template.Node :=
  .block
    [.iteration ["rows"] [] [] [.iteration ["cells"] [] [] [] ⟨none, none⟩] ⟨none, none⟩,
      .conditional ["rows"] [.iteration ["cells"] [] [] [] ⟨none, none⟩]
        (some [.element "p" [] [.conditional ["note"] [.text "x" none] (some []) ⟨none, none, none⟩] false
          ⟨none, none, none, none⟩])
        ⟨none, none, none⟩] none

/-- The paragraph of the alternate. -/
def hollowParagraph : List Op :=
  [.open "p" .empty none, .conditional ["note"] [.literal "x" none] none none, .close "p" none]

/-- The program of the whole: of the loops nothing is left. -/
def hollowLoopsProgram : List Op := [.conditional ["rows"] [] (some hollowParagraph) none]

theorem hollowLoops_normal :
    compile [] hollowLoops = .ok hollowLoopsProgram ∧ Within hollowParagraph hollowLoopsProgram ∧
      Normal hollowLoopsProgram ∧ Normal hollowParagraph := by
  have hcompile : compile [] hollowLoops = .ok hollowLoopsProgram := rfl
  have hwithin : Within hollowParagraph hollowLoopsProgram :=
    .part List.mem_cons_self (List.mem_cons_of_mem _ List.mem_cons_self) .self
  exact ⟨hcompile, hwithin, compiled_normal_within _ _ _ hcompile _ .self,
    compiled_normal_within _ _ _ hcompile _ hwithin⟩

end Stencil.Program
