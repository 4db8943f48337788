import Stencil.Proofs.LoopHeaders
import Stencil.Proofs.SourceMarkup

/-!
# Valid markup

When markup is valid is said here node by node, in terms of the node and the siblings before it:
attributes and interpolations that have to be paths are paths, a block has the parameters it needs, and an
`else` block comes after an `if` block. `accepted_iff_valid` says that these are all the problems there are
when the markup of a source is turned into a template.

The two sides do not go through the siblings alike. An `if` block takes the `else` block behind it with it,
together with what stands between the two, and where it has no test its content is not looked at. The
induction is therefore on lists of siblings that begin with no `else` block of an `if` block before them.
-/

namespace Stencil.Template

/-! ### What is valid -/

/-- A text can be read as a path. -/
def IsPath (t : Text) : Prop := ∃ path, Path.parse t = .ok path

/-- A text can be read as a path, and is not blank. -/
def IsGivenPath (t : Text) : Prop := t.isBlank = false ∧ IsPath t

/-- An attribute spreads a path, or its value is a path where it has to be one. -/
structure AttrValid (a : Markup.Attr) : Prop where
  spread : Attribute.isSpread a.name = true →
    a.hasValue = false ∧ IsGivenPath (Attribute.spreadSource a.name)
  unquoted : Attribute.isSpread a.name = false → a.hasValue = true → a.quoted = false → IsPath a.value
  event : Attribute.isEvent a.name = true → a.hasValue = true → a.quoted = true →
    a.value.isBlank = false → IsPath a.value

/-- The parameters of a block are those that a block of this name has. -/
structure HeaderValid (name : Text) (parameters : List Markup.Parameter) : Prop where
  conditional : name = Text.ofString "if" → ∃ p, parameters = [p] ∧ IsPath p.expression
  iteration : name = Text.ofString "for" →
    ∃ p loop, parameters = [p] ∧ LoopHeader.Says p.expression loop
  alternate : name = Text.ofString "else" → parameters = []

def isIf : Markup.Node → Bool
  | .block name _ _ _ => name == Text.ofString "if"
  | _ => false

/-- Of the siblings before a node, nearest first, the first that is neither a comment nor blank is an `if`
block. -/
def followsIf (before : List Markup.Node) : Bool := (before.find? fun n => !isBetween n).any isIf

mutual

def NodeValid : Markup.Node → Prop
  | .element _ attrs children _ _ => (∀ a ∈ attrs, AttrValid a) ∧ ValidIn [] children
  | .text _ tokens _ => ∀ t ∈ tokens, ∀ e, t.lexeme = .interpolation e → IsGivenPath e
  | .comment .. => True
  | .block name parameters children _ => HeaderValid name parameters ∧ ValidIn [] children

/-- Siblings are valid and so is what they contain; `before` are the siblings before them, nearest first. -/
def ValidIn (before : List Markup.Node) : List Markup.Node → Prop
  | [] => True
  | n :: rest =>
    NodeValid n ∧ (isContinuation n = true → followsIf before = true) ∧ ValidIn (n :: before) rest

end

/-! ### An `if` block and its `else` block -/

theorem alternateOfMarkup?_between {n : Markup.Node} (hn : isBetween n = true)
    (rest : List Markup.Node) : alternateOfMarkup? (n :: rest) = alternateOfMarkup? rest := by
  cases n with
  | comment => rw [alternateOfMarkup?]
  | text value tokens span =>
    have hblank : value.isBlank = true := hn
    rw [alternateOfMarkup?, if_pos hblank]
  | element => cases hn
  | block => cases hn

/-- What comes behind an `if` block: no `else` block of it, or one with nothing but comments and blank
texts before it. -/
inductive Continuation : List Markup.Node → Prop
  | none {nodes : List Markup.Node} (hcount : connectedCount 0 nodes = 0)
      (hnone : alternateOfMarkup? nodes = none) : Continuation nodes
  | block {gap : List Markup.Node} (hgap : ∀ n ∈ gap, isBetween n = true) {name : Text}
      (hname : isConnected name = true) (parameters : List Markup.Parameter)
      (children : List Markup.Node) (spans : Markup.BlockSpans) (later : List Markup.Node) :
      Continuation (gap ++ .block name parameters children spans :: later)

theorem Continuation.between {n : Markup.Node} (hn : isBetween n = true) {rest : List Markup.Node}
    (hrest : Continuation rest) : Continuation (n :: rest) := by
  cases hrest with
  | none hcount hnone =>
    refine .none ?_ ((alternateOfMarkup?_between hn rest).trans hnone)
    rw [connectedCount_between hn, if_pos hcount]
  | @block gap hgap name hname parameters children spans later =>
    exact @block (n :: gap) (List.forall_mem_cons.mpr ⟨hn, hgap⟩) name hname _ _ _ _

theorem continuation (nodes : List Markup.Node) : Continuation nodes := by
  induction nodes with
  | nil =>
    refine .none rfl ?_
    rw [alternateOfMarkup?]
  | cons n rest ih =>
    cases n with
    | element name attrs children selfClosing spans =>
      refine .none (connectedCount_other rfl rfl rest 0) ?_
      rw [alternateOfMarkup?]
    | comment body span => exact .between rfl ih
    | text value tokens span =>
      cases hblank : isBetween (.text value tokens span) with
      | true => exact .between hblank ih
      | false =>
        have hvalue : value.isBlank = false := hblank
        refine .none (connectedCount_other hblank rfl rest 0) ?_
        rw [alternateOfMarkup?, if_neg (by simp [hvalue])]
    | block name parameters children spans =>
      cases hcontinues : isContinuation (.block name parameters children spans) with
      | true => exact @Continuation.block [] (by simp) name hcontinues _ _ _ _
      | false =>
        have hname : isConnected name = false := hcontinues
        refine .none (connectedCount_other rfl hcontinues rest 0) ?_
        rw [alternateOfMarkup?, if_neg (by simp [hname])]

section Gap

variable {gap : List Markup.Node} (hgap : ∀ n ∈ gap, isBetween n = true) {name : Text}
  (hname : isConnected name = true) {parameters : List Markup.Parameter} {children : List Markup.Node}
  {spans : Markup.BlockSpans} {later : List Markup.Node}
include hgap

theorem elseProblems_gap (first : Bool) (rest : List Markup.Node) :
    elseProblems first (gap ++ rest) = elseProblems first rest := by
  induction gap with
  | nil => rfl
  | cons n gap ih =>
    obtain ⟨hn, hgap⟩ := List.forall_mem_cons.mp hgap
    rw [List.cons_append, elseProblems_between hn, ih hgap]

include hname

theorem connectedCount_gap :
    connectedCount 0 (gap ++ .block name parameters children spans :: later) =
      gap.length + (connectedCount 0 later + 1) := by
  induction gap with
  | nil =>
    have hcontinues : isContinuation (.block name parameters children spans) = true := hname
    rw [List.nil_append, connectedCount_continuation hcontinues, List.length_nil, Nat.zero_add]
  | cons n gap ih =>
    obtain ⟨hn, hgap⟩ := List.forall_mem_cons.mp hgap
    rw [List.cons_append, connectedCount_between hn, ih hgap, if_neg (by omega), List.length_cons]
    omega

theorem alternateOfMarkup?_gap :
    alternateOfMarkup? (gap ++ .block name parameters children spans :: later) =
      some ⟨nodesOfMarkup 0 children, spans.whole⟩ := by
  induction gap with
  | nil => rw [List.nil_append, alternateOfMarkup?, if_pos hname]
  | cons n gap ih =>
    obtain ⟨hn, hgap⟩ := List.forall_mem_cons.mp hgap
    rw [List.cons_append, alternateOfMarkup?_between hn, ih hgap]

end Gap

theorem nodesOfMarkup_skip (passed : List Markup.Node) (skip : Nat) (rest : List Markup.Node) :
    nodesOfMarkup (passed.length + skip) (passed ++ rest) = nodesOfMarkup skip rest := by
  induction passed with
  | nil => rw [List.nil_append, List.length_nil, Nat.zero_add]
  | cons n passed ih => rw [List.cons_append, List.length_cons, Nat.succ_add, nodesOfMarkup, ih]

section If

variable {parameters : List Markup.Parameter} {children : List Markup.Node} {spans : Markup.BlockSpans}

/-- An `if` block by itself. -/
theorem nodesOfMarkup_if_alone {rest : List Markup.Node} (hcount : connectedCount 0 rest = 0)
    (hnone : alternateOfMarkup? rest = none) :
    nodesOfMarkup 0 (.block (Text.ofString "if") parameters children spans :: rest) =
      conditionalOfMarkup (testOfMarkup parameters spans.header) [] (nodesOfMarkup 0 children) none
        spans.whole ++ nodesOfMarkup 0 rest := by
  rw [nodesOfMarkup, if_pos (by decide), hcount, hnone]
  rfl

/-- An `if` block with an `else` block behind it. -/
theorem nodesOfMarkup_if_else {gap : List Markup.Node} (hgap : ∀ n ∈ gap, isBetween n = true)
    {other : Text} (hother : isConnected other = true) {others : List Markup.Parameter}
    {alternate : List Markup.Node} {place : Markup.BlockSpans} {later : List Markup.Node} :
    nodesOfMarkup 0 (.block (Text.ofString "if") parameters children spans ::
        (gap ++ .block other others alternate place :: later)) =
      conditionalOfMarkup (testOfMarkup parameters spans.header)
        ((if others.isEmpty then [] else [⟨.elseParameters, place.whole⟩]) ++
          elseProblems false (later.take (connectedCount 0 later)))
        (nodesOfMarkup 0 children) (some ⟨nodesOfMarkup 0 alternate, place.whole⟩) spans.whole ++
        nodesOfMarkup (connectedCount 0 later) later := by
  rw [nodesOfMarkup, if_pos (by decide)]
  dsimp only
  rw [connectedCount_gap hgap hother, alternateOfMarkup?_gap hgap hother, nodesOfMarkup_skip,
    nodesOfMarkup, List.take_length_add_append, List.take_succ_cons, elseProblems_gap hgap]
  rfl

end If

theorem sizeOf_le_append (passed rest : List Markup.Node) : sizeOf rest ≤ sizeOf (passed ++ rest) := by
  induction passed with
  | nil => exact Nat.le_refl _
  | cons n passed ih =>
    rw [List.cons_append, List.cons.sizeOf_spec]
    omega

/-- Induction on the siblings of a source. An `if` block that has an `else` block is one case with it, so
that an `else` block is only met by itself if no `if` block before it has taken it. -/
@[elab_as_elim]
theorem siblings_induction {motive : List Markup.Node → Prop} (nil : motive [])
    (element : ∀ {name attrs children selfClosing spans rest},
      (∀ a ∈ attrs, a.hasValue = false → a.value = []) → motive children → motive rest →
        motive (.element name attrs children selfClosing spans :: rest))
    (text : ∀ {value tokens span rest}, (Markup.Node.text value tokens span).FromSource → motive rest →
      motive (.text value tokens span :: rest))
    (comment : ∀ {body span rest}, motive rest → motive (.comment body span :: rest))
    (alone : ∀ {parameters children spans rest}, connectedCount 0 rest = 0 →
      alternateOfMarkup? rest = none → motive children → motive rest →
        motive (.block (Text.ofString "if") parameters children spans :: rest))
    (connected : ∀ {parameters children spans gap others alternate place later},
      (∀ n ∈ gap, isBetween n = true) → (∀ n ∈ gap, n.FromSource) → motive children →
        motive alternate → motive later →
        motive (.block (Text.ofString "if") parameters children spans ::
          (gap ++ .block (Text.ofString "else") others alternate place :: later)))
    (stray : ∀ {parameters children spans rest},
      motive (.block (Text.ofString "else") parameters children spans :: rest))
    (loop : ∀ {parameters children spans rest}, motive children → motive rest →
      motive (.block (Text.ofString "for") parameters children spans :: rest))
    {nodes : List Markup.Node} (hsource : Markup.FromSourceIn nodes) : motive nodes := by
  induction hsize : sizeOf nodes using Nat.strongRecOn generalizing nodes with
  | ind size ih =>
    subst hsize
    have hsmaller : ∀ others : List Markup.Node, Markup.FromSourceIn others →
        sizeOf others < sizeOf nodes → motive others :=
      fun others hothers hless => ih _ hless hothers rfl
    match nodes with
    | [] => exact nil
    | .element name attrs children selfClosing spans :: rest =>
      rw [List.cons.sizeOf_spec, Markup.Node.element.sizeOf_spec] at hsmaller
      exact element hsource.1.1 (hsmaller children hsource.1.2 (by omega))
        (hsmaller rest hsource.2 (by omega))
    | .text value tokens span :: rest =>
      rw [List.cons.sizeOf_spec] at hsmaller
      exact text hsource.1 (hsmaller rest hsource.2 (by omega))
    | .comment body span :: rest =>
      rw [List.cons.sizeOf_spec] at hsmaller
      exact comment (hsmaller rest hsource.2 (by omega))
    | .block name parameters children spans :: rest =>
      rw [List.cons.sizeOf_spec, Markup.Node.block.sizeOf_spec] at hsmaller
      have hchildren := hsmaller children hsource.1.2 (by omega)
      have hrest := hsmaller rest hsource.2 (by omega)
      obtain ⟨s, hs, rfl⟩ := hsource.1.1
      simp only [Markup.blockNames, List.mem_cons, List.not_mem_nil, or_false] at hs
      rcases hs with rfl | rfl | rfl
      · cases continuation rest with
        | none hcount hnone => exact alone hcount hnone hchildren hrest
        | @block gap hgap other hother others alternate place later =>
          obtain rfl : other = Text.ofString "else" := beq_iff_eq.mp hother
          obtain ⟨hbetween, hbehind⟩ := List.forall_mem_append.mp (Markup.fromSourceIn_iff.mp hsource.2)
          obtain ⟨helse, hlater⟩ := List.forall_mem_cons.mp hbehind
          have hsize := sizeOf_le_append gap (.block (Text.ofString "else") others alternate place :: later)
          rw [List.cons.sizeOf_spec, Markup.Node.block.sizeOf_spec] at hsize
          exact connected hgap hbetween hchildren (hsmaller alternate helse.2 (by omega))
            (hsmaller later (Markup.fromSourceIn_iff.mpr hlater) (by omega))
      · exact stray
      · exact loop hchildren hrest

/-! ### Attributes and texts -/

theorem exists_spreadOfMarkup_iff {a : Markup.Attr} :
    (∃ attr, spreadOfMarkup a = .ok attr) ↔
      a.hasValue = false ∧ IsGivenPath (Attribute.spreadSource a.name) := by
  rw [spreadOfMarkup]
  cases a.hasValue with
  | true => simp
  | false =>
    rw [if_neg (by decide), IsGivenPath, IsPath]
    cases hparse : Path.parse (Attribute.spreadSource a.name) with
    | error e => simp [hparse]
    | ok path => cases hblank : (Attribute.spreadSource a.name).isBlank <;> simp [hparse, hblank]

theorem needsPath_iff {a : Markup.Attr} :
    needsPath a = true ↔ a.hasValue = true ∧
      (a.quoted = true → Attribute.isEvent a.name = true ∧ a.value.isBlank = false) := by
  rw [needsPath, formOf]
  cases a.hasValue <;> cases a.quoted <;> simp

theorem exists_attrOfMarkup_iff {a : Markup.Attr} : (∃ attr, attrOfMarkup a = .ok attr) ↔ AttrValid a := by
  rw [attrOfMarkup]
  cases hspread : Attribute.isSpread a.name with
  | true =>
    rw [if_pos rfl, exists_spreadOfMarkup_iff]
    constructor
    · intro hgiven
      refine ⟨fun _ => hgiven, fun hplain => ?_, fun _ hvalue => ?_⟩
      · cases hspread.symm.trans hplain
      · cases hgiven.1.symm.trans hvalue
    · intro hvalid
      exact hvalid.spread hspread
  | false =>
    have hread : (∃ attr, attrOfMarkup a = .ok attr) ↔ (needsPath a = true → IsPath a.value) := by
      rw [attrOfMarkup, hspread, if_neg (by decide), IsPath]
      dsimp only
      cases needsPath a with
      | false => simp
      | true => cases Path.parse a.value <;> simp
    rw [attrOfMarkup, hspread] at hread
    rw [hread, needsPath_iff]
    constructor
    · intro hpath
      refine ⟨fun h => ?_, fun _ hvalue hquoted => ?_, fun hevent hvalue _ hblank => ?_⟩
      · cases hspread.symm.trans h
      · exact hpath ⟨hvalue, fun h => absurd (hquoted.symm.trans h) (by decide)⟩
      · exact hpath ⟨hvalue, fun _ => ⟨hevent, hblank⟩⟩
    · rintro hvalid ⟨hvalue, hquotes⟩
      cases hquoted : a.quoted with
      | false => exact hvalid.unquoted hspread hvalue hquoted
      | true =>
        obtain ⟨hevent, hblank⟩ := hquotes hquoted
        exact hvalid.event hevent hvalue hquoted hblank

theorem attrsOfMarkup_eq_nil_iff {attrs : List Markup.Attr} :
    (attrsOfMarkup attrs).2 = [] ↔ ∀ a ∈ attrs, AttrValid a := by
  induction attrs with
  | nil => simp [attrsOfMarkup]
  | cons a rest ih =>
    rw [attrsOfMarkup, List.forall_mem_cons, ← ih, ← exists_attrOfMarkup_iff]
    cases attrOfMarkup a <;> simp

theorem expressionOfMarkup_eq_nil_iff {source : Text} {span : Span} :
    (expressionOfMarkup source span).diagnostics = [] ↔ IsGivenPath source := by
  rw [expressionOfMarkup, IsGivenPath, IsPath]
  cases source.isBlank with
  | true => simp [Draft.problem]
  | false => cases Path.parse source <;> simp [Draft.problem, Draft.ofNode]

theorem tokenOfMarkup_eq_nil_iff {t : Markup.Token} :
    (tokenOfMarkup t).diagnostics = [] ↔ ∀ e, t.lexeme = .interpolation e → IsGivenPath e := by
  rw [tokenOfMarkup]
  split
  · rename_i source hlexeme
    rw [expressionOfMarkup_eq_nil_iff, hlexeme]
    simp
  · rename_i hother
    have hnone : ∀ e, t.lexeme ≠ .interpolation e := fun e he => hother e he
    split <;> simp [Draft.empty, Draft.ofNode, hnone]

theorem tokensOfMarkup_eq_nil_iff {tokens : List Markup.Token} :
    (tokensOfMarkup tokens).diagnostics = [] ↔
      ∀ t ∈ tokens, ∀ e, t.lexeme = .interpolation e → IsGivenPath e := by
  induction tokens with
  | nil => simp [tokensOfMarkup, Draft.empty]
  | cons t rest ih =>
    rw [tokensOfMarkup, Draft.diagnostics_append_eq_nil_iff, tokenOfMarkup_eq_nil_iff, ih,
      List.forall_mem_cons]

/-! ### Headers -/

theorem testOfMarkup_eq_nil_iff {parameters : List Markup.Parameter} {header : Span} :
    (testOfMarkup parameters header).2 = [] ↔ ∃ p, parameters = [p] ∧ IsPath p.expression := by
  cases parameters with
  | nil => simp [testOfMarkup]
  | cons p extra =>
    rw [testOfMarkup]
    cases hparse : Path.parse p.expression with
    | error e => simp_all [IsPath]
    | ok path =>
      rw [List.map_eq_nil_iff]
      constructor
      · rintro rfl
        exact ⟨p, rfl, path, hparse⟩
      · rintro ⟨q, hsingle, -⟩
        exact (List.cons.inj hsingle).2

theorem loopOfMarkup_eq_nil_iff {parameters : List Markup.Parameter} {header : Span} :
    (loopOfMarkup parameters header).2 = [] ↔
      ∃ p loop, parameters = [p] ∧ LoopHeader.Says p.expression loop := by
  simp only [← loopOfText_eq_ok]
  cases parameters with
  | nil => simp [loopOfMarkup]
  | cons p extra =>
    rw [loopOfMarkup]
    cases hloop : loopOfText p.expression with
    | error e => simp_all
    | ok loop =>
      rw [List.map_eq_nil_iff]
      constructor
      · rintro rfl
        exact ⟨p, loop, rfl, hloop⟩
      · rintro ⟨q, other, hsingle, -⟩
        exact (List.cons.inj hsingle).2

theorem conditionalOfMarkup_eq_nil_iff {parameters : List Markup.Parameter} {header : Span}
    {elses : List Diagnostic} {consequent : Draft} {alternate : Option Alternate} {span : Span} :
    (conditionalOfMarkup (testOfMarkup parameters header) elses consequent alternate
        span).diagnostics = [] ↔
      (∃ p, parameters = [p] ∧ IsPath p.expression) ∧ consequent.diagnostics = [] ∧
        (∀ a ∈ alternate, a.content.diagnostics = []) ∧ elses = [] := by
  have hproblem := @testOfMarkup_problem parameters header
  rw [← @testOfMarkup_eq_nil_iff parameters header]
  revert hproblem
  obtain ⟨test, problems⟩ := testOfMarkup parameters header
  intro hproblem
  cases test with
  | none => simp_all [conditionalOfMarkup]
  | some path => cases alternate <;> simp [conditionalOfMarkup] <;> grind

theorem iterationOfMarkup_eq_nil_iff {parameters : List Markup.Parameter} {header : Span} {body : Draft}
    {span : Span} :
    (iterationOfMarkup (loopOfMarkup parameters header) body span).diagnostics = [] ↔
      (∃ p loop, parameters = [p] ∧ LoopHeader.Says p.expression loop) ∧ body.diagnostics = [] := by
  have hproblem := @loopOfMarkup_problem parameters header
  rw [← @loopOfMarkup_eq_nil_iff parameters header]
  revert hproblem
  obtain ⟨loop, problems⟩ := loopOfMarkup parameters header
  intro hproblem
  cases loop with
  | none => simp_all [iterationOfMarkup]
  | some l => simp [iterationOfMarkup, and_comm]

theorem headerValid_if {parameters : List Markup.Parameter} :
    HeaderValid (Text.ofString "if") parameters ↔ ∃ p, parameters = [p] ∧ IsPath p.expression :=
  ⟨fun h => h.conditional rfl, fun h => ⟨fun _ => h, by rintro ⟨⟩, by rintro ⟨⟩⟩⟩

theorem headerValid_for {parameters : List Markup.Parameter} :
    HeaderValid (Text.ofString "for") parameters ↔
      ∃ p loop, parameters = [p] ∧ LoopHeader.Says p.expression loop :=
  ⟨fun h => h.iteration rfl, fun h => ⟨by rintro ⟨⟩, fun _ => h, by rintro ⟨⟩⟩⟩

theorem headerValid_else {parameters : List Markup.Parameter} :
    HeaderValid (Text.ofString "else") parameters ↔ parameters = [] :=
  ⟨fun h => h.alternate rfl, fun h => ⟨by rintro ⟨⟩, by rintro ⟨⟩, fun _ => h⟩⟩

/-! ### Siblings -/

section Siblings

variable {before : List Markup.Node}

theorem followsIf_cons (n : Markup.Node) :
    followsIf (n :: before) = if isBetween n then followsIf before else isIf n := by
  rw [followsIf, followsIf]
  cases hn : isBetween n <;> simp [hn]

/-- What stands between an `if` block and its `else` block is valid. -/
theorem nodeValid_of_isBetween {n : Markup.Node} (hsource : n.FromSource) (hn : isBetween n = true) :
    NodeValid n := by
  cases n with
  | comment => trivial
  | text value tokens span =>
    intro t ht e he
    exact absurd he (Markup.not_interpolation_of_isBlank hsource hn t ht e)
  | element => cases hn
  | block => cases hn

theorem not_isContinuation_of_isBetween {n : Markup.Node} (hn : isBetween n = true) :
    isContinuation n = false := by
  cases n with
  | block => cases hn
  | _ => rfl

theorem validIn_gap {gap : List Markup.Node} (hgap : ∀ n ∈ gap, isBetween n = true)
    (hsource : ∀ n ∈ gap, n.FromSource) (rest : List Markup.Node) :
    ∃ between, followsIf between = followsIf before ∧
      (ValidIn before (gap ++ rest) ↔ ValidIn between rest) := by
  induction gap generalizing before with
  | nil => exact ⟨before, rfl, Iff.rfl⟩
  | cons n gap ih =>
    obtain ⟨hn, hgap⟩ := List.forall_mem_cons.mp hgap
    obtain ⟨hnode, hsource⟩ := List.forall_mem_cons.mp hsource
    obtain ⟨between, hfollows, hvalid⟩ := @ih (n :: before) hgap hsource
    refine ⟨between, ?_, ?_⟩
    · rw [hfollows, followsIf_cons, if_pos hn]
    · rw [List.cons_append, ValidIn, hvalid]
      simp [nodeValid_of_isBetween hnode hn, not_isContinuation_of_isBetween hn]

theorem validIn_if_else {parameters others : List Markup.Parameter}
    {children gap alternate later : List Markup.Node} {spans place : Markup.BlockSpans}
    (hgap : ∀ n ∈ gap, isBetween n = true) (hsource : ∀ n ∈ gap, n.FromSource) :
    ∃ between, ValidIn before (.block (Text.ofString "if") parameters children spans ::
          (gap ++ .block (Text.ofString "else") others alternate place :: later)) ↔
        ((∃ p, parameters = [p] ∧ IsPath p.expression) ∧ ValidIn [] children) ∧
          (others = [] ∧ ValidIn [] alternate) ∧
          ValidIn (.block (Text.ofString "else") others alternate place :: between) later := by
  have hif : isIf (.block (Text.ofString "if") parameters children spans) = true := beq_iff_eq.mpr rfl
  have hplain : isConnected (Text.ofString "if") = false := by decide
  obtain ⟨between, hfollows, hvalid⟩ := @validIn_gap
    (.block (Text.ofString "if") parameters children spans :: before) gap hgap hsource
    (.block (Text.ofString "else") others alternate place :: later)
  have hfollowed : followsIf between = true := hfollows.trans hif
  refine ⟨between, ?_⟩
  rw [ValidIn, NodeValid, headerValid_if, hvalid, ValidIn, NodeValid, headerValid_else]
  simp [isContinuation, hplain, hfollowed]

/-- Siblings that do not begin with an `else` block of an `if` block before them are still so after one of
them that is no `if` block itself. -/
theorem apart_cons {n : Markup.Node} {rest : List Markup.Node} (hn : isIf n = false)
    (hapart : followsIf before = true → connectedCount 0 (n :: rest) = 0) :
    followsIf (n :: before) = true → connectedCount 0 rest = 0 := by
  intro hfollows
  rw [followsIf_cons] at hfollows
  cases hbetween : isBetween n with
  | true =>
    rw [hbetween, if_pos rfl] at hfollows
    have hcount := hapart hfollows
    rw [connectedCount_between hbetween] at hcount
    by_cases hzero : connectedCount 0 rest = 0
    · exact hzero
    · rw [if_neg hzero] at hcount
      cases hcount
  | false =>
    rw [hbetween, if_neg (by decide), hn] at hfollows
    cases hfollows

/-- Valid siblings that do not follow an `if` block do not begin with an `else` block. -/
theorem connectedCount_of_validIn {nodes : List Markup.Node} (hvalid : ValidIn before nodes)
    (hfollows : followsIf before = false) : connectedCount 0 nodes = 0 := by
  induction nodes generalizing before with
  | nil => rfl
  | cons n rest ih =>
    cases hbetween : isBetween n with
    | true =>
      rw [connectedCount_between hbetween, if_pos]
      refine ih hvalid.2.2 ?_
      rw [followsIf_cons, if_pos hbetween, hfollows]
    | false =>
      cases hcontinues : isContinuation n with
      | true => cases hfollows.symm.trans (hvalid.2.1 hcontinues)
      | false => exact connectedCount_other hbetween hcontinues rest 0

end Siblings

/-- What follows the `else` block of an `if` block: another one is a problem in either view. -/
theorem later_eq_nil_iff {before later : List Markup.Node} (hbefore : followsIf before = false)
    (hlater : connectedCount 0 later = 0 →
      ((nodesOfMarkup 0 later).diagnostics = [] ↔ ValidIn before later)) :
    elseProblems false (later.take (connectedCount 0 later)) = [] ∧
        (nodesOfMarkup (connectedCount 0 later) later).diagnostics = [] ↔ ValidIn before later := by
  constructor
  · rintro ⟨helses, hdiagnostics⟩
    have hcount := connectedCount_of_elseProblems helses
    rw [hcount] at hdiagnostics
    exact (hlater hcount).mp hdiagnostics
  · intro hvalid
    have hcount := connectedCount_of_validIn hvalid hbefore
    rw [hcount]
    exact ⟨rfl, (hlater hcount).mpr hvalid⟩

/-- Siblings are turned into a template without problems exactly if they are valid. Those that follow an
`if` block must not begin with its `else` block. -/
theorem nodesOfMarkup_eq_nil_iff {nodes : List Markup.Node} (hsource : Markup.FromSourceIn nodes)
    (before : List Markup.Node) (hapart : followsIf before = true → connectedCount 0 nodes = 0) :
    (nodesOfMarkup 0 nodes).diagnostics = [] ↔ ValidIn before nodes := by
  revert before
  refine siblings_induction ?nil ?element ?text ?comment ?alone ?connected ?stray ?loop hsource
  case nil =>
    intro before _
    rw [nodesOfMarkup]
    exact iff_of_true rfl trivial
  case element =>
    intro name attrs children selfClosing spans rest _ hchildren hrest before hapart
    rw [nodesOfMarkup, Draft.diagnostics_append_eq_nil_iff, hrest _ (apart_cons rfl hapart), ValidIn,
      NodeValid, ← attrsOfMarkup_eq_nil_iff, ← hchildren [] (by rintro ⟨⟩)]
    simp [elementOfMarkup, isContinuation]
  case text =>
    intro value tokens span rest _ hrest before hapart
    rw [nodesOfMarkup, Draft.diagnostics_append_eq_nil_iff, hrest _ (apart_cons rfl hapart),
      tokensOfMarkup_eq_nil_iff, ValidIn, NodeValid]
    simp [isContinuation]
  case comment =>
    intro body span rest hrest before hapart
    rw [nodesOfMarkup, hrest _ (apart_cons rfl hapart), ValidIn, NodeValid]
    simp [isContinuation]
  case alone =>
    intro parameters children spans rest hcount hnone hchildren hrest before _
    have hplain : isConnected (Text.ofString "if") = false := by decide
    have hbehind := hrest (.block (Text.ofString "if") parameters children spans :: before) fun _ => hcount
    rw [nodesOfMarkup_if_alone hcount hnone, Draft.diagnostics_append_eq_nil_iff, hbehind,
      conditionalOfMarkup_eq_nil_iff, hchildren [] (by rintro ⟨⟩), ValidIn, NodeValid, headerValid_if]
    simp [isContinuation, hplain]
  case connected =>
    intro parameters children spans gap others alternate place later hgap hbetween hchildren halternate
      hlater before _
    obtain ⟨between, hvalid⟩ := @validIn_if_else before parameters others children gap alternate later spans
      place hgap hbetween
    have hbehind := later_eq_nil_iff
      (show followsIf (.block (Text.ofString "else") others alternate place :: between) = false from rfl)
      fun hcount => hlater _ fun _ => hcount
    rw [nodesOfMarkup_if_else hgap (by decide), Draft.diagnostics_append_eq_nil_iff,
      conditionalOfMarkup_eq_nil_iff, hchildren [] (by rintro ⟨⟩), List.append_eq_nil_iff, hvalid, ← hbehind,
      ← halternate [] (by rintro ⟨⟩)]
    simp [and_assoc, and_left_comm]
  case stray =>
    intro parameters children spans rest before hapart
    have hcontinues : isContinuation (.block (Text.ofString "else") parameters children spans) = true :=
      beq_iff_eq.mpr rfl
    refine iff_of_false ?_ ?_
    · rw [nodesOfMarkup, if_neg (by decide), if_neg (by decide), Draft.diagnostics_append_eq_nil_iff]
      rintro ⟨⟨⟩, -⟩
    · intro hvalid
      have hcount := hapart (hvalid.2.1 hcontinues)
      rw [connectedCount_continuation hcontinues] at hcount
      cases hcount
  case loop =>
    intro parameters children spans rest hchildren hrest before hapart
    have hplain : isConnected (Text.ofString "for") = false := by decide
    have hother : isIf (.block (Text.ofString "for") parameters children spans) = false :=
      beq_eq_false_iff_ne.mpr (by decide)
    rw [nodesOfMarkup, if_neg (by decide), if_pos (by decide), Draft.diagnostics_append_eq_nil_iff,
      hrest _ (apart_cons hother hapart), iterationOfMarkup_eq_nil_iff, hchildren [] (by rintro ⟨⟩),
      ValidIn, NodeValid, headerValid_for]
    simp [isContinuation, hplain]

theorem fromSourceIn_treat (scan : Markup.ScanOptions) (o : Options) (text : Text) :
    Markup.FromSourceIn (o.treat (Markup.Tree.ofText scan text).nodes) := by
  have hread := Markup.Tree.ofText_fromSource scan text
  rw [Options.treat]
  split
  · exact hread
  · exact Markup.removeBlanks_fromSource hread

/-- The markup of a source, with its blanks or without them, is turned into a template without problems
exactly if it is valid. -/
theorem accepted_iff_valid (scan : Markup.ScanOptions) (o : Options) (text : Text) :
    (ofMarkup (o.treat (Markup.Tree.ofText scan text).nodes)).diagnostics = [] ↔
      ValidIn [] (o.treat (Markup.Tree.ofText scan text).nodes) :=
  nodesOfMarkup_eq_nil_iff (fromSourceIn_treat scan o text) [] (by rintro ⟨⟩)

end Stencil.Template
