import Stencil.Proofs.TemplateInk

/-!
# Removing blanks

Blanks are dropped in two places by two measures. Removal drops the collapsible blanks of the markup; the
search for an `else` block passes over texts that are white space. If nothing but white space separates
every `else` block from what comes before it, an `if` block reaches equally far with the blanks and
without them, and the template is the same but for its blanks. A template that keeps its blanks and has
no problem is of that kind. The converse fails: a text of collapsible blanks that are no white space
keeps an `else` block away as long as it is there.
-/

namespace Stencil

namespace Template

/-! ### Where `else` blocks stand -/

/-- Whether the texts since the last element or block are blank, after one more node. -/
def blankAfter (blank : Bool) : Markup.Node → Bool
  | .text value _ _ => blank && value.isBlank
  | .comment .. => blank
  | _ => true

mutual

/-- Inside a node, nothing but comments and white space separates an `else` block from the element or
block before it. -/
def elsesAdjoinWithin : Markup.Node → Bool
  | .element _ _ children _ _ => elsesAdjoin true children
  | .block _ _ children _ => elsesAdjoin true children
  | _ => true

/-- Among siblings and inside them, nothing but comments and white space separates an `else` block from
the element or block before it. `blank` says so of the texts before these siblings. -/
def elsesAdjoin (blank : Bool) : List Markup.Node → Bool
  | [] => true
  | n :: rest =>
    elsesAdjoinWithin n && (blank || !isContinuation n) && elsesAdjoin (blankAfter blank n) rest

end

theorem elsesAdjoin_cons {blank : Bool} {n : Markup.Node} {rest : List Markup.Node} :
    elsesAdjoin blank (n :: rest) = true ↔
      elsesAdjoinWithin n = true ∧ (blank = true ∨ isContinuation n = false) ∧
        elsesAdjoin (blankAfter blank n) rest = true := by
  rw [elsesAdjoin, Bool.and_eq_true, Bool.and_eq_true, Bool.or_eq_true, Bool.not_eq_true', and_assoc]

theorem elsesAdjoin_mono {blank : Bool} {nodes : List Markup.Node}
    (h : elsesAdjoin blank nodes = true) : elsesAdjoin true nodes = true := by
  induction nodes generalizing blank with
  | nil => rfl
  | cons n rest ih =>
    obtain ⟨hwithin, _, hrest⟩ := elsesAdjoin_cons.mp h
    refine elsesAdjoin_cons.mpr ⟨hwithin, .inl rfl, ?_⟩
    cases blank with
    | true => exact hrest
    | false =>
      cases n with
      | text value tokens span =>
        cases hvalue : value.isBlank with
        | true =>
          rw [blankAfter, hvalue]
          exact ih hrest
        | false =>
          rw [blankAfter, hvalue]
          exact hrest
      | comment => exact ih hrest
      | element => exact hrest
      | block => exact hrest

/-! ### How far an `if` block reaches -/

/-- The nodes passed already count only if there is more to come. -/
theorem connectedCount_passed (passed : Nat) (nodes : List Markup.Node) :
    connectedCount passed nodes =
      if connectedCount 0 nodes = 0 then 0 else passed + connectedCount 0 nodes := by
  induction nodes generalizing passed with
  | nil => rfl
  | cons n rest ih =>
    rw [connectedCount, connectedCount]
    by_cases hbetween : isBetween n = true
    · rw [if_pos hbetween, if_pos hbetween, ih (passed + 1), ih (0 + 1)]
      by_cases hzero : connectedCount 0 rest = 0
      · simp only [hzero, if_true]
      · rw [if_neg hzero, if_neg hzero, if_neg (by omega)]
        omega
    · rw [if_neg hbetween, if_neg hbetween]
      by_cases hcontinues : isContinuation n = true
      · rw [if_pos hcontinues, if_pos hcontinues, if_neg (by omega)]
        omega
      · rw [if_neg hcontinues, if_neg hcontinues]
        rfl

theorem connectedCount_between {n : Markup.Node} (hn : isBetween n = true)
    (rest : List Markup.Node) :
    connectedCount 0 (n :: rest) =
      if connectedCount 0 rest = 0 then 0 else connectedCount 0 rest + 1 := by
  rw [connectedCount, if_pos hn, connectedCount_passed, Nat.zero_add, Nat.add_comm 1]

theorem connectedCount_continuation {n : Markup.Node} (hn : isContinuation n = true)
    (rest : List Markup.Node) : connectedCount 0 (n :: rest) = connectedCount 0 rest + 1 := by
  have hbetween : ¬ isBetween n = true := by
    cases n with
    | block => simp [isBetween]
    | _ => cases hn
  rw [connectedCount, if_neg hbetween, if_pos hn, Nat.zero_add, Nat.add_comm]

theorem connectedCount_other {n : Markup.Node} (hbetween : isBetween n = false)
    (hcontinues : isContinuation n = false) (rest : List Markup.Node) (passed : Nat) :
    connectedCount passed (n :: rest) = 0 := by
  rw [connectedCount, if_neg (by simp [hbetween]), if_neg (by simp [hcontinues])]

/-! ### Removing blanks between blocks -/

open Markup (removeBlanks)

theorem isBlank_collapseBlanks {t : Text} (ht : t.isBlank = true) :
    (Markup.collapseBlanks t).isBlank = true := by
  have hwhite : ∀ g ∈ Markup.collapseBlanksAfter .none t.glyphs,
      g.IsRead ∧ CharClass.isWhiteSpace g.char = true := by
    intro g hg
    rcases Markup.of_mem_collapseBlanksAfter hg with hg | hnone | rfl
    · exact ⟨Text.isRead_of_mem_glyphs hg, Text.isBlank_iff.mp ht g hg⟩
    · cases hnone
    · exact ⟨Markup.isRead_space, by decide⟩
  have hglyphs : Text.glyphs (Markup.collapseBlanks t) = Markup.collapseBlanksAfter .none t.glyphs := by
    apply Text.glyphs_ofGlyphs
    intro g hg
    apply (hwhite g hg).1.isWhole
    intro hchar
    have hblank := (hwhite g hg).2
    rw [hchar] at hblank
    revert hblank
    decide
  rw [Text.isBlank_iff, hglyphs]
  exact fun g hg => (hwhite g hg).2

theorem isBetween_removeBlanks {n m : Markup.Node} (hm : n.removeBlanks = some m)
    (hn : isBetween n = true) : isBetween m = true := by
  cases n with
  | element => cases hn
  | block => cases hn
  | comment body span =>
    rw [Markup.Node.removeBlanks] at hm
    cases hm
    rfl
  | text value tokens span =>
    rw [Markup.Node.removeBlanks] at hm
    split at hm
    · cases hm
    · cases hm
      exact isBlank_collapseBlanks hn

theorem removeBlanks_cons_none {n : Markup.Node} (hn : n.removeBlanks = none)
    (rest : List Markup.Node) : removeBlanks (n :: rest) = removeBlanks rest := by
  rw [Markup.removeBlanks, hn]
  rfl

theorem removeBlanks_cons_some {n m : Markup.Node} (hn : n.removeBlanks = some m)
    (rest : List Markup.Node) : removeBlanks (n :: rest) = m :: removeBlanks rest := by
  rw [Markup.removeBlanks, hn]
  rfl

theorem removeBlanks_cons_element (name : Text) (attrs : List Markup.Attr)
    (children : List Markup.Node) (selfClosing : Bool) (spans : Markup.ElementSpans)
    (rest : List Markup.Node) :
    removeBlanks (.element name attrs children selfClosing spans :: rest) =
      .element name attrs (if Markup.keepsBlanks name then children else removeBlanks children)
        selfClosing spans :: removeBlanks rest :=
  removeBlanks_cons_some (by rw [Markup.Node.removeBlanks]) rest

theorem removeBlanks_cons_comment (body : Text) (span : Span) (rest : List Markup.Node) :
    removeBlanks (.comment body span :: rest) = .comment body span :: removeBlanks rest :=
  removeBlanks_cons_some (by rw [Markup.Node.removeBlanks]) rest

theorem removeBlanks_cons_block (name : Text) (parameters : List Markup.Parameter)
    (children : List Markup.Node) (spans : Markup.BlockSpans) (rest : List Markup.Node) :
    removeBlanks (.block name parameters children spans :: rest) =
      .block name parameters (removeBlanks children) spans :: removeBlanks rest :=
  removeBlanks_cons_some (by rw [Markup.Node.removeBlanks]) rest

/-- A text is dropped or stays a text. -/
theorem removeBlanks_cons_text (value : Text) (tokens : List Markup.Token) (span : Span)
    (rest : List Markup.Node) :
    tokens.all Markup.Token.isBlank = true ∧
        removeBlanks (.text value tokens span :: rest) = removeBlanks rest ∨
      removeBlanks (.text value tokens span :: rest) =
        .text (Markup.collapseBlanks value) (tokens.map Markup.Token.collapseBlanks) span ::
          removeBlanks rest := by
  by_cases hblank : tokens.all Markup.Token.isBlank = true
  · exact .inl ⟨hblank, removeBlanks_cons_none (by rw [Markup.Node.removeBlanks, if_pos hblank]) rest⟩
  · exact .inr (removeBlanks_cons_some (by rw [Markup.Node.removeBlanks, if_neg hblank]) rest)

/-- Behind a text that is not blank no `else` block is reached, whatever is removed. -/
theorem unconnected_removeBlanks {nodes : List Markup.Node} (h : elsesAdjoin false nodes = true) :
    Unconnected (removeBlanks nodes) := by
  induction nodes with
  | nil => trivial
  | cons n rest ih =>
    obtain ⟨_, hcontinues, hrest⟩ := elsesAdjoin_cons.mp h
    cases n with
    | element => trivial
    | comment => exact ih hrest
    | text value tokens span =>
      rcases removeBlanks_cons_text value tokens span rest with ⟨_, hdropped⟩ | hkept
      · rw [hdropped]
        exact ih hrest
      · rw [hkept]
        exact ih hrest
    | block name parameters children spans => exact hcontinues.resolve_left (by simp)

theorem unconnected_removeBlanks_text {value : Text} (hvalue : value.isBlank = false)
    {tokens : List Markup.Token} {span : Span} {rest : List Markup.Node}
    (h : elsesAdjoin true (.text value tokens span :: rest) = true) :
    Unconnected (removeBlanks (.text value tokens span :: rest)) := by
  obtain ⟨_, _, hrest⟩ := elsesAdjoin_cons.mp h
  rw [blankAfter, hvalue] at hrest
  apply unconnected_removeBlanks
  exact elsesAdjoin_cons.mpr ⟨rfl, .inr rfl, hrest⟩

/-- An `if` block reaches as far without the blanks as with them. -/
theorem connectedCount_removeBlanks {nodes : List Markup.Node} (h : elsesAdjoin true nodes = true) :
    (connectedCount 0 (removeBlanks nodes) = 0 ↔ connectedCount 0 nodes = 0) ∧
      connectedCount 0 (removeBlanks nodes) =
        (removeBlanks (nodes.take (connectedCount 0 nodes))).length := by
  induction nodes with
  | nil => exact ⟨Iff.rfl, rfl⟩
  | cons n rest ih =>
    obtain ⟨_, _, hrest⟩ := elsesAdjoin_cons.mp h
    by_cases hbetween : isBetween n = true
    · have hblank : blankAfter true n = true := by
        cases n with
        | text value tokens span => exact hbetween
        | _ => rfl
      rw [hblank] at hrest
      obtain ⟨hzero, hcount⟩ := ih hrest
      rw [connectedCount_between hbetween]
      cases hkept : n.removeBlanks with
      | none =>
        rw [removeBlanks_cons_none hkept]
        by_cases hnone : connectedCount 0 rest = 0
        · rw [if_pos hnone]
          exact ⟨by simp [hzero.mpr hnone], by rw [hzero.mpr hnone]; rfl⟩
        · rw [if_neg hnone, List.take_succ_cons, removeBlanks_cons_none hkept]
          exact ⟨by simp [hzero, hnone], hcount⟩
      | some m =>
        have hkeeps := isBetween_removeBlanks hkept hbetween
        rw [removeBlanks_cons_some hkept, connectedCount_between hkeeps]
        by_cases hnone : connectedCount 0 rest = 0
        · rw [if_pos hnone, if_pos (hzero.mpr hnone)]
          exact ⟨Iff.rfl, rfl⟩
        · rw [if_neg hnone, if_neg (mt hzero.mp hnone), List.take_succ_cons,
            removeBlanks_cons_some hkept, List.length_cons, hcount]
          exact ⟨by simp, rfl⟩
    · rw [Bool.not_eq_true] at hbetween
      cases n with
      | comment => cases hbetween
      | text value tokens span =>
        -- A text that is not blank keeps an `else` block away, and so does what is left of it.
        have hunconnected := unconnected_removeBlanks_text hbetween h
        rw [connectedCount_other hbetween rfl, connectedCount_eq_zero hunconnected]
        exact ⟨Iff.rfl, rfl⟩
      | element =>
        rw [connectedCount_other hbetween rfl,
          removeBlanks_cons_element, connectedCount_other rfl rfl]
        exact ⟨Iff.rfl, rfl⟩
      | block name parameters children spans =>
        rw [removeBlanks_cons_block]
        cases hname : isConnected name with
        | true =>
          obtain ⟨_, hcount⟩ := ih hrest
          rw [connectedCount_continuation (n := .block name parameters children spans) hname,
            connectedCount_continuation (n := .block name parameters (removeBlanks children) spans)
              hname, List.take_succ_cons, removeBlanks_cons_block, List.length_cons, hcount]
          exact ⟨by simp, rfl⟩
        | false =>
          rw [connectedCount_other (n := .block name parameters children spans) hbetween hname,
            connectedCount_other (n := .block name parameters (removeBlanks children) spans) rfl hname]
          exact ⟨Iff.rfl, rfl⟩

theorem elseProblems_removeBlanks (first : Bool) (nodes : List Markup.Node) :
    elseProblems first (removeBlanks nodes) = elseProblems first nodes := by
  induction nodes generalizing first with
  | nil => rfl
  | cons n rest ih =>
    cases n with
    | text value tokens span =>
      rcases removeBlanks_cons_text value tokens span rest with ⟨_, hdropped⟩ | hkept
      · rw [hdropped]
        exact ih first
      · rw [hkept]
        exact ih first
    | element => exact ih first
    | comment => exact ih first
    | block => exact congrArg (_ ++ ·) (ih false)

theorem removeBlanks_append (nodes others : List Markup.Node) :
    removeBlanks (nodes ++ others) = removeBlanks nodes ++ removeBlanks others := by
  induction nodes with
  | nil => rfl
  | cons n rest ih =>
    rw [List.cons_append, Markup.removeBlanks, Markup.removeBlanks, ih, List.append_assoc]

theorem take_removeBlanks (count : Nat) (nodes : List Markup.Node) :
    (removeBlanks nodes).take (removeBlanks (nodes.take count)).length =
      removeBlanks (nodes.take count) := by
  have hsplit := removeBlanks_append (nodes.take count) (nodes.drop count)
  rw [List.take_append_drop] at hsplit
  rw [hsplit, List.take_left]

/-! ### Removing blanks from a template -/

mutual

theorem nodesOfMarkup_removeBlanks (skip : Nat) (nodes : List Markup.Node)
    (h : elsesAdjoin true nodes = true) :
    (nodesOfMarkup skip nodes).SameInk
      (nodesOfMarkup (removeBlanks (nodes.take skip)).length (removeBlanks nodes)) := by
  match skip, nodes with
  | skip, [] =>
    rw [List.take_nil, Markup.removeBlanks, nodesOfMarkup, nodesOfMarkup]
    exact .refl _
  | skip + 1, n :: rest =>
    obtain ⟨_, _, hrest⟩ := elsesAdjoin_cons.mp h
    have hlater := nodesOfMarkup_removeBlanks skip rest (elsesAdjoin_mono hrest)
    rw [nodesOfMarkup, List.take_succ_cons]
    cases hkept : n.removeBlanks with
    | none =>
      rw [removeBlanks_cons_none hkept, removeBlanks_cons_none hkept]
      exact hlater
    | some m =>
      rw [removeBlanks_cons_some hkept, removeBlanks_cons_some hkept, List.length_cons, nodesOfMarkup]
      exact hlater
  | 0, .element name attrs children selfClosing spans :: rest =>
    obtain ⟨hwithin, _, hrest⟩ := elsesAdjoin_cons.mp h
    have hlater := nodesOfMarkup_removeBlanks 0 rest hrest
    have hcontent : (nodesOfMarkup 0 children).SameInk
        (nodesOfMarkup 0 (if Markup.keepsBlanks name then children else removeBlanks children)) := by
      split
      · exact .refl _
      · exact nodesOfMarkup_removeBlanks 0 children hwithin
    rw [List.take_zero] at hlater ⊢
    rw [removeBlanks_cons_element, nodesOfMarkup]
    change Draft.SameInk _ (nodesOfMarkup 0 _)
    rw [nodesOfMarkup]
    exact (hcontent.element name attrs selfClosing spans).append hlater
  | 0, .text value tokens span :: rest =>
    obtain ⟨_, _, hrest⟩ := elsesAdjoin_cons.mp h
    have hlater := nodesOfMarkup_removeBlanks 0 rest (elsesAdjoin_mono hrest)
    rw [List.take_zero] at hlater ⊢
    rw [nodesOfMarkup]
    change Draft.SameInk _ (nodesOfMarkup 0 _)
    rcases removeBlanks_cons_text value tokens span rest with ⟨hblank, hdropped⟩ | hkept
    · rw [hdropped]
      exact (tokensOfMarkup_blank hblank).append hlater
    · rw [hkept, nodesOfMarkup]
      exact (tokensOfMarkup_collapseBlanks tokens).append hlater
  | 0, .comment body span :: rest =>
    obtain ⟨_, _, hrest⟩ := elsesAdjoin_cons.mp h
    have hlater := nodesOfMarkup_removeBlanks 0 rest hrest
    rw [List.take_zero] at hlater ⊢
    rw [removeBlanks_cons_comment, nodesOfMarkup]
    change Draft.SameInk _ (nodesOfMarkup 0 _)
    rw [nodesOfMarkup]
    exact hlater
  | 0, .block name parameters children spans :: rest =>
    obtain ⟨hwithin, _, hrest⟩ := elsesAdjoin_cons.mp h
    have hchildren := nodesOfMarkup_removeBlanks 0 children hwithin
    have hlater := nodesOfMarkup_removeBlanks 0 rest hrest
    rw [List.take_zero] at hlater hchildren ⊢
    rw [removeBlanks_cons_block, nodesOfMarkup]
    change Draft.SameInk _ (nodesOfMarkup 0 _)
    rw [nodesOfMarkup]
    split
    · have hreach := nodesOfMarkup_removeBlanks (connectedCount 0 rest) rest hrest
      have hcount := (connectedCount_removeBlanks hrest).2
      have helses :
          elseProblems true ((removeBlanks rest).take (connectedCount 0 (removeBlanks rest))) =
            elseProblems true (rest.take (connectedCount 0 rest)) := by
        rw [hcount, take_removeBlanks, elseProblems_removeBlanks]
      dsimp only
      rw [helses]
      rw [← hcount] at hreach
      exact (hchildren.conditional (alternateOfMarkup_removeBlanks rest hrest) _ _ _).append hreach
    · split
      · exact (hchildren.iteration _ _).append hlater
      · exact (Draft.SameInk.refl _).append hlater

theorem alternateOfMarkup_removeBlanks (nodes : List Markup.Node)
    (h : elsesAdjoin true nodes = true) :
    Alternate.SameInk (alternateOfMarkup? nodes) (alternateOfMarkup? (removeBlanks nodes)) := by
  match nodes with
  | [] =>
    rw [Markup.removeBlanks, alternateOfMarkup?]
    exact .none
  | .comment body span :: rest =>
    obtain ⟨_, _, hrest⟩ := elsesAdjoin_cons.mp h
    rw [removeBlanks_cons_comment, alternateOfMarkup?,
      alternateOfMarkup?]
    exact alternateOfMarkup_removeBlanks rest hrest
  | .text value tokens span :: rest =>
    obtain ⟨_, _, hrest⟩ := elsesAdjoin_cons.mp h
    cases hvalue : value.isBlank with
    | true =>
      rw [blankAfter, hvalue] at hrest
      have hlater := alternateOfMarkup_removeBlanks rest hrest
      rw [alternateOfMarkup?, if_pos hvalue]
      rcases removeBlanks_cons_text value tokens span rest with ⟨_, hdropped⟩ | hkept
      · rw [hdropped]
        exact hlater
      · rw [hkept, alternateOfMarkup?, if_pos (isBlank_collapseBlanks hvalue)]
        exact hlater
    | false =>
      have hunconnected := unconnected_removeBlanks_text hvalue h
      rw [alternateOfMarkup?, if_neg (by simp [hvalue]), alternateOfMarkup?_eq_none hunconnected]
      exact .none
  | .block name parameters children spans :: rest =>
    obtain ⟨hwithin, _, _⟩ := elsesAdjoin_cons.mp h
    rw [removeBlanks_cons_block, alternateOfMarkup?,
      alternateOfMarkup?]
    split
    · exact .some (nodesOfMarkup_removeBlanks 0 children hwithin) rfl
    · exact .none
  | .element .. :: rest =>
    rw [removeBlanks_cons_element, alternateOfMarkup?,
      alternateOfMarkup?]
    exact .none

end

/-! ### Templates without problems -/

theorem Draft.diagnostics_append_eq_nil_iff {a b : Draft} :
    (a ++ b).diagnostics = [] ↔ a.diagnostics = [] ∧ b.diagnostics = [] := List.append_eq_nil_iff

theorem testOfMarkup_problem {parameters : List Markup.Parameter} {header : Span}
    (hnone : (testOfMarkup parameters header).1 = none) : (testOfMarkup parameters header).2 ≠ [] := by
  cases parameters with
  | nil => simp [testOfMarkup]
  | cons p extra =>
    rw [testOfMarkup] at hnone ⊢
    cases hparse : Path.parse p.expression with
    | error e => simp
    | ok path =>
      rw [hparse] at hnone
      cases hnone

theorem loopOfMarkup_problem {parameters : List Markup.Parameter} {header : Span}
    (hnone : (loopOfMarkup parameters header).1 = none) : (loopOfMarkup parameters header).2 ≠ [] := by
  cases parameters with
  | nil => simp [loopOfMarkup]
  | cons p extra =>
    rw [loopOfMarkup] at hnone ⊢
    cases hparse : loopOfText p.expression with
    | error e => simp
    | ok loop =>
      rw [hparse] at hnone
      cases hnone

/-- Without a problem, the content of an `if` block was looked at and has none either. -/
theorem conditionalOfMarkup_eq_nil {parameters : List Markup.Parameter} {header : Span}
    {elses : List Diagnostic} {consequent : Draft} {alternate : Option Alternate} {span : Span}
    (h : (conditionalOfMarkup (testOfMarkup parameters header) elses consequent alternate
      span).diagnostics = []) :
    (∀ a ∈ alternate, a.content.diagnostics = []) ∧ consequent.diagnostics = [] ∧ elses = [] := by
  have hproblem := @testOfMarkup_problem parameters header
  revert h hproblem
  obtain ⟨test, problems⟩ := testOfMarkup parameters header
  intro h hproblem
  cases test with
  | none =>
    simp only [conditionalOfMarkup, List.append_eq_nil_iff] at h
    exact absurd h.1.2 (hproblem rfl)
  | some path =>
    simp only [conditionalOfMarkup, List.append_eq_nil_iff] at h
    refine ⟨?_, h.1.1.2, h.2⟩
    intro a ha
    rw [Option.mem_def] at ha
    subst ha
    exact h.1.1.1

theorem iterationOfMarkup_eq_nil {parameters : List Markup.Parameter} {header : Span} {body : Draft}
    {span : Span}
    (h : (iterationOfMarkup (loopOfMarkup parameters header) body span).diagnostics = []) :
    body.diagnostics = [] := by
  have hproblem := @loopOfMarkup_problem parameters header
  revert h hproblem
  obtain ⟨loop, problems⟩ := loopOfMarkup parameters header
  intro h hproblem
  cases loop with
  | none => exact absurd h (hproblem rfl)
  | some l =>
    simp only [iterationOfMarkup, List.append_eq_nil_iff] at h
    exact h.1

theorem elseProblems_between {n : Markup.Node} (hn : isBetween n = true) (first : Bool)
    (rest : List Markup.Node) : elseProblems first (n :: rest) = elseProblems first rest := by
  cases n with
  | block => cases hn
  | _ => rfl

/-- A second `else` block is a problem. -/
theorem connectedCount_of_elseProblems {nodes : List Markup.Node}
    (h : elseProblems false (nodes.take (connectedCount 0 nodes)) = []) :
    connectedCount 0 nodes = 0 := by
  induction nodes with
  | nil => rfl
  | cons n rest ih =>
    by_cases hbetween : isBetween n = true
    · rw [connectedCount_between hbetween] at h ⊢
      by_cases hzero : connectedCount 0 rest = 0
      · rw [if_pos hzero]
      · rw [if_neg hzero, List.take_succ_cons, elseProblems_between hbetween] at h
        exact absurd (ih h) hzero
    · rw [Bool.not_eq_true] at hbetween
      cases hcontinues : isContinuation n with
      | false => exact connectedCount_other hbetween hcontinues rest 0
      | true =>
        rw [connectedCount_continuation hcontinues, List.take_succ_cons] at h
        cases n with
        | block => cases h
        | _ => cases hcontinues

theorem not_isConnected_if {name : Text} (hname : (name == Text.ofString "if") = true) :
    isConnected name = false := by
  rw [eq_of_beq hname]
  decide

theorem not_isConnected_for {name : Text} (hname : (name == Text.ofString "for") = true) :
    isConnected name = false := by
  rw [eq_of_beq hname]
  decide

mutual

/-- Where nothing is wrong, every `else` block was reached, so only white space stands before it. -/
theorem elsesAdjoin_of_diagnostics (skip : Nat) (nodes : List Markup.Node)
    (h : (nodesOfMarkup skip nodes).diagnostics = []) : elsesAdjoin false (nodes.drop skip) = true := by
  match skip, nodes with
  | skip, [] =>
    rw [List.drop_nil]
    rfl
  | skip + 1, n :: rest =>
    rw [nodesOfMarkup] at h
    exact elsesAdjoin_of_diagnostics skip rest h
  | 0, .element name attrs children selfClosing spans :: rest =>
    rw [nodesOfMarkup] at h
    obtain ⟨helement, hrest⟩ := Draft.diagnostics_append_eq_nil_iff.mp h
    have hcontent := (List.append_eq_nil_iff.mp helement).2
    exact elsesAdjoin_cons.mpr ⟨elsesAdjoin_mono (elsesAdjoin_of_diagnostics 0 children hcontent),
      .inr rfl, elsesAdjoin_mono (elsesAdjoin_of_diagnostics 0 rest hrest)⟩
  | 0, .text value tokens span :: rest =>
    rw [nodesOfMarkup] at h
    obtain ⟨_, hrest⟩ := Draft.diagnostics_append_eq_nil_iff.mp h
    exact elsesAdjoin_cons.mpr ⟨rfl, .inr rfl, elsesAdjoin_of_diagnostics 0 rest hrest⟩
  | 0, .comment body span :: rest =>
    rw [nodesOfMarkup] at h
    exact elsesAdjoin_cons.mpr ⟨rfl, .inr rfl, elsesAdjoin_of_diagnostics 0 rest h⟩
  | 0, .block name parameters children spans :: rest =>
    rw [nodesOfMarkup] at h
    split at h
    · rename_i hname
      obtain ⟨hconditional, hrest⟩ := Draft.diagnostics_append_eq_nil_iff.mp h
      obtain ⟨halternate, hconsequent, helses⟩ := conditionalOfMarkup_eq_nil hconditional
      have htail := elsesAdjoin_of_diagnostics (connectedCount 0 rest) rest hrest
      exact elsesAdjoin_cons.mpr
        ⟨elsesAdjoin_mono (elsesAdjoin_of_diagnostics 0 children hconsequent),
          .inr (not_isConnected_if hname), elsesAdjoin_of_alternate rest halternate helses htail⟩
    · split at h
      · rename_i hname
        obtain ⟨hiteration, hrest⟩ := Draft.diagnostics_append_eq_nil_iff.mp h
        have hbody := iterationOfMarkup_eq_nil hiteration
        exact elsesAdjoin_cons.mpr
          ⟨elsesAdjoin_mono (elsesAdjoin_of_diagnostics 0 children hbody),
            .inr (not_isConnected_for hname),
            elsesAdjoin_mono (elsesAdjoin_of_diagnostics 0 rest hrest)⟩
      · cases (Draft.diagnostics_append_eq_nil_iff.mp h).1

theorem elsesAdjoin_of_alternate (nodes : List Markup.Node)
    (halternate : ∀ a ∈ alternateOfMarkup? nodes, a.content.diagnostics = [])
    (helses : elseProblems true (nodes.take (connectedCount 0 nodes)) = [])
    (htail : elsesAdjoin false (nodes.drop (connectedCount 0 nodes)) = true) :
    elsesAdjoin true nodes = true := by
  by_cases hreach : connectedCount 0 nodes = 0
  · rw [hreach] at htail
    exact elsesAdjoin_mono htail
  match nodes with
  | [] => rfl
  | .comment body span :: rest =>
    rw [connectedCount_between rfl] at hreach helses htail
    have hmore : ¬ connectedCount 0 rest = 0 := fun hzero => hreach (if_pos hzero)
    rw [if_neg hmore] at helses htail
    rw [alternateOfMarkup?] at halternate
    exact elsesAdjoin_cons.mpr
      ⟨rfl, .inl rfl, elsesAdjoin_of_alternate rest halternate helses htail⟩
  | .text value tokens span :: rest =>
    cases hblank : isBetween (.text value tokens span) with
    | false => exact absurd (connectedCount_other hblank rfl rest 0) hreach
    | true =>
      rw [connectedCount_between hblank] at hreach helses htail
      have hmore : ¬ connectedCount 0 rest = 0 := fun hzero => hreach (if_pos hzero)
      rw [if_neg hmore] at helses htail
      have hvalue : value.isBlank = true := hblank
      rw [alternateOfMarkup?, if_pos hvalue] at halternate
      refine elsesAdjoin_cons.mpr ⟨rfl, .inl rfl, ?_⟩
      rw [blankAfter, hvalue]
      exact elsesAdjoin_of_alternate rest halternate helses htail
  | .block name parameters children spans :: rest =>
    cases hcontinues : isContinuation (.block name parameters children spans) with
    | false => exact absurd (connectedCount_other rfl hcontinues rest 0) hreach
    | true =>
      rw [connectedCount_continuation hcontinues] at helses htail
      -- It is the only `else` block: another one would be a problem.
      have hlast := connectedCount_of_elseProblems (List.append_eq_nil_iff.mp helses).2
      rw [hlast] at htail
      have hname : isConnected name = true := hcontinues
      rw [alternateOfMarkup?, if_pos hname] at halternate
      have hchildren := elsesAdjoin_of_diagnostics 0 children (halternate _ rfl)
      exact elsesAdjoin_cons.mpr ⟨elsesAdjoin_mono hchildren, .inl rfl, elsesAdjoin_mono htail⟩
  | .element .. :: rest => exact absurd (connectedCount_other rfl rfl rest 0) hreach

end

/-- Without problems, nothing but white space separates an `else` block from what comes before it. -/
theorem elsesAdjoin_of_ofMarkup {nodes : List Markup.Node} (h : (ofMarkup nodes).diagnostics = []) :
    elsesAdjoin true nodes = true :=
  elsesAdjoin_mono (elsesAdjoin_of_diagnostics 0 nodes h)

/-- Then the template is the same without the blanks of the markup, its own blanks and places aside. -/
theorem ofMarkup_removeBlanks {nodes : List Markup.Node} (h : elsesAdjoin true nodes = true) :
    (ofMarkup nodes).root.unplaced.erased Text.ink =
        (ofMarkup (removeBlanks nodes)).root.unplaced.erased Text.ink ∧
      (ofMarkup nodes).diagnostics = (ofMarkup (removeBlanks nodes)).diagnostics := by
  have hsame := nodesOfMarkup_removeBlanks 0 nodes h
  refine ⟨?_, hsame.diagnostics⟩
  simp only [ofMarkup, Node.unplaced, Node.erased]
  rw [hsame.content]
  rfl

end Template

theorem parse_eq_ok_iff {o : Options} {text : Text} {root : Template.Node} :
    parse o text = .ok root ↔ (Markup.Tree.ofText ⟨false⟩ text).diagnostics = [] ∧
      (Template.ofMarkup (o.treat (Markup.Tree.ofText ⟨false⟩ text).nodes)).diagnostics = [] ∧
      (Template.ofMarkup (o.treat (Markup.Tree.ofText ⟨false⟩ text).nodes)).root = root := by
  have hoption : parse o text = .ok root ↔ (parse o text).toOption = some root := by
    cases parse o text <;> simp [Except.toOption]
  rw [hoption, toOption_parse, ← List.isEmpty_iff, ← List.isEmpty_iff]
  simp [and_assoc]

theorem isOk_parse_iff {o : Options} {text : Text} :
    (parse o text).isOk = true ↔ (Markup.Tree.ofText ⟨false⟩ text).diagnostics = [] ∧
      (Template.ofMarkup (o.treat (Markup.Tree.ofText ⟨false⟩ text).nodes)).diagnostics = [] := by
  have hroot : (parse o text).isOk = true ↔ ∃ root, parse o text = .ok root := by
    cases parse o text <;> simp [Except.isOk, Except.toBool]
  rw [hroot]
  simp only [parse_eq_ok_iff]
  constructor
  · rintro ⟨_, htree, htemplate, _⟩
    exact ⟨htree, htemplate⟩
  · rintro ⟨htree, htemplate⟩
    exact ⟨_, htree, htemplate, rfl⟩

/-- A source is accepted with its blanks if it is accepted without them and nothing but white space
separates its `else` blocks from what comes before them. -/
theorem accepted_with_blanks_iff (o : Options) (text : Text) :
    (parse { o with preserve := true } text).isOk = true ↔
      (parse { o with preserve := false } text).isOk = true ∧
        Template.elsesAdjoin true (Markup.Tree.ofText ⟨false⟩ text).nodes = true := by
  rw [isOk_parse_iff, isOk_parse_iff]
  change _ ∧ (Template.ofMarkup (Markup.Tree.ofText ⟨false⟩ text).nodes).diagnostics = [] ↔
    (_ ∧ (Template.ofMarkup
      (Markup.removeBlanks (Markup.Tree.ofText ⟨false⟩ text).nodes)).diagnostics = []) ∧ _
  constructor
  · rintro ⟨htree, htemplate⟩
    have hadjoin := Template.elsesAdjoin_of_ofMarkup htemplate
    rw [(Template.ofMarkup_removeBlanks hadjoin).2] at htemplate
    exact ⟨⟨htree, htemplate⟩, hadjoin⟩
  · rintro ⟨⟨htree, htemplate⟩, hadjoin⟩
    rw [← (Template.ofMarkup_removeBlanks hadjoin).2] at htemplate
    exact ⟨htree, htemplate⟩

/-- A byte order mark is a collapsible blank and no white space, so it separates an `else` block from its
`if` block unless it is removed. -/
theorem separated_else_rejected :
    (parse ⟨[], false, []⟩ "@if (a) \x7bx\x7d\uFEFF@else \x7by\x7d").isOk = true ∧
      (parse ⟨[], true, []⟩ "@if (a) \x7bx\x7d\uFEFF@else \x7by\x7d").isOk = false := by
  decide +kernel

end Stencil
