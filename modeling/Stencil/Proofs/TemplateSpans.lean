import Stencil.Proofs.KeptContent
import Stencil.Proofs.MarkupSpans

/-!
# Where the parts of a template stand

A template keeps, for each node, where it stands in the source, and where its tags, its content and its
branches do. These stretches are put together from the ends of others: texts are joined, an `if` block
reaches to the end of its `else` block, and the content of an element reaches from its start tag to its end
tag. `places_fit_unless_empty` says that they fit into the source, with one exception. An element that takes
no content has its start tag for an end tag too, so its content begins where the tag ends and ends where the
tag begins.
-/

namespace Stencil

/-- From the end of a stretch back to its start. -/
def Span.reversed (s : Span) : Span := ⟨s.stop, s.start⟩

namespace Template

/-! ### Places -/

/-- The places of an attribute; without a value it has no place for one. -/
def Attr.places (a : Attr) : List (Option Span) :=
  [a.spans.whole, a.spans.name] ++ a.spans.value.toList.map some

mutual

/-- The places of a node and of all it contains: its own, and those of its tags, content and branches. The
content of an element that takes none is left out. -/
def Node.places : Node → List (Option Span)
  | .block children span => span.toList.map some ++ placesIn children
  | .element _ attrs content selfClosing spans =>
    attrs.flatMap Attr.places ++ (([spans.whole, spans.startTag, spans.endTag] ++
      if selfClosing then [] else [spans.content]) ++ placesIn content)
  | .text _ span => [span]
  | .expression _ span => [span]
  | .conditional _ consequent alternate spans =>
    [spans.whole, spans.consequent] ++
      (placesIn consequent ++ placesInAlternate spans.alternate alternate)
  | .iteration _ _ _ body spans => [spans.whole, spans.body] ++ placesIn body
  | .hole => []
  | .foreign _ _ span => [span]

def placesInAlternate (span : Option Span) : Option (List Node) → List (Option Span)
  | none => span.toList.map some
  | some nodes => [span] ++ placesIn nodes

def placesIn : List Node → List (Option Span)
  | [] => []
  | n :: rest => n.places ++ placesIn rest

end

mutual

/-- The elements in a node that take no content, by where they stand. -/
def Node.emptyElements : Node → List ElementSpans
  | .block children _ => emptyElementsIn children
  | .element _ _ content selfClosing spans =>
    (if selfClosing then [spans] else []) ++ emptyElementsIn content
  | .text .. => []
  | .expression .. => []
  | .conditional _ consequent alternate _ => emptyElementsIn consequent ++ emptyElementsInAlternate alternate
  | .iteration _ _ _ body _ => emptyElementsIn body
  | .hole => []
  | .foreign .. => []

def emptyElementsInAlternate : Option (List Node) → List ElementSpans
  | none => []
  | some nodes => emptyElementsIn nodes

def emptyElementsIn : List Node → List ElementSpans
  | [] => []
  | n :: rest => n.emptyElements ++ emptyElementsIn rest

end

variable {size lo mid hi : Nat}

/-- The content of an element begins where the element ends, and ends where it begins. -/
def ElementSpans.IsReversed (spans : ElementSpans) : Prop :=
  ∃ tag, spans.whole = some tag ∧ spans.content = some tag.reversed ∧ tag.start.offset < tag.stop.offset

/-- The places are known and fit, and the elements have their content reversed. -/
structure Fitting (size : Nat) (places : List (Option Span)) (elements : List ElementSpans) : Prop where
  fits : ∀ p ∈ places, ∃ s, p = some s ∧ s.Fits size
  reversed : ∀ spans ∈ elements, spans.IsReversed

namespace Fitting

theorem append {places others : List (Option Span)} {elements more : List ElementSpans}
    (h : Fitting size places elements) (hothers : Fitting size others more) :
    Fitting size (places ++ others) (elements ++ more) where
  fits := List.forall_mem_append.mpr ⟨h.fits, hothers.fits⟩
  reversed := List.forall_mem_append.mpr ⟨h.reversed, hothers.reversed⟩

theorem of_fits {places : List (Option Span)} (h : ∀ p ∈ places, ∃ s, p = some s ∧ s.Fits size) :
    Fitting size places [] :=
  ⟨h, by simp⟩

theorem one {s : Span} (hs : s.Fits size) : Fitting size [some s] [] :=
  of_fits (List.forall_mem_singleton.mpr ⟨s, rfl, hs⟩)

theorem two {s t : Span} (hs : s.Fits size) (ht : t.Fits size) : Fitting size [some s, some t] [] :=
  (one hs).append (one ht)

theorem known {span : Option Span} (h : ∀ s ∈ span, s.Fits size) :
    Fitting size (span.toList.map some) [] :=
  of_fits (List.forall_mem_map.mpr fun s hs => ⟨s, rfl, h s (Option.mem_toList.mp hs)⟩)

end Fitting

theorem fitting_placesIn {nodes : List Node} (h : ∀ n ∈ nodes, Fitting size n.places n.emptyElements) :
    Fitting size (placesIn nodes) (emptyElementsIn nodes) := by
  induction nodes with
  | nil => exact .of_fits (by simp [placesIn])
  | cons n rest ih =>
    obtain ⟨hn, hrest⟩ := List.forall_mem_cons.mp h
    exact hn.append (ih hrest)

/-! ### Siblings -/

/-- The places in some nodes fit, and the nodes stand one behind the other between two offsets. -/
def InPlace (size lo hi : Nat) : List Node → Prop
  | [] => lo ≤ hi
  | n :: rest =>
    Fitting size n.places n.emptyElements ∧
      ∃ s, n.span = some s ∧ lo ≤ s.start.offset ∧ s.start.offset ≤ s.stop.offset ∧
        InPlace size s.stop.offset hi rest

namespace InPlace

variable {nodes others : List Node}

theorem mono {lo' : Nat} (h : InPlace size lo hi nodes) (hlo : lo' ≤ lo) : InPlace size lo' hi nodes := by
  cases nodes with
  | nil => exact Nat.le_trans hlo h
  | cons n rest =>
    obtain ⟨hn, s, hs, hstart, hrest⟩ := h
    exact ⟨hn, s, hs, Nat.le_trans hlo hstart, hrest⟩

theorem append (h : InPlace size lo mid nodes) (hothers : InPlace size mid hi others) :
    InPlace size lo hi (nodes ++ others) := by
  induction nodes generalizing lo with
  | nil => exact hothers.mono h
  | cons n rest ih =>
    obtain ⟨hn, s, hs, hstart, hordered, hrest⟩ := h
    exact ⟨hn, s, hs, hstart, hordered, ih hrest⟩

theorem single {n : Node} (hn : Fitting size n.places n.emptyElements) {s : Span} (hs : n.span = some s)
    (hspan : InOrder lo hi [s]) : InPlace size lo hi [n] :=
  ⟨hn, s, hs, hspan⟩

theorem le (h : InPlace size lo hi nodes) : lo ≤ hi := by
  induction nodes generalizing lo with
  | nil => exact h
  | cons n rest ih =>
    obtain ⟨-, s, -, hstart, hordered, hrest⟩ := h
    exact Nat.le_trans hstart (Nat.le_trans hordered (ih hrest))

theorem fitting (h : InPlace size lo hi nodes) : Fitting size (placesIn nodes) (emptyElementsIn nodes) := by
  apply fitting_placesIn
  induction nodes generalizing lo with
  | nil => simp
  | cons n rest ih =>
    obtain ⟨hn, s, -, -, -, hrest⟩ := h
    exact List.forall_mem_cons.mpr ⟨hn, ih hrest⟩

theorem consMerged {n : Node} (h : InPlace size lo hi (n :: nodes)) (hhi : hi ≤ size) :
    InPlace size lo hi (consMerged n nodes) := by
  fun_cases Template.consMerged n nodes with
  | case1 a s b t rest =>
    obtain ⟨-, s, hs, hstart, hordered, -, t, ht, hnext, hordered', hrest⟩ := h
    cases hs
    cases ht
    have hmerged : (s.to t).start.offset ≤ (s.to t).stop.offset :=
      Nat.le_trans hordered (Nat.le_trans hnext hordered')
    exact ⟨.one ⟨hmerged, Nat.le_trans hrest.le hhi⟩, s.to t, rfl, hstart, hmerged, hrest⟩
  | case2 => exact h

theorem mergeTexts (h : InPlace size lo hi nodes) (hhi : hi ≤ size) :
    InPlace size lo hi (mergeTexts nodes) := by
  induction nodes generalizing lo with
  | nil => exact h
  | cons n rest ih =>
    obtain ⟨hn, s, hs, hstart, hordered, hrest⟩ := h
    refine InPlace.consMerged ⟨hn, s, hs, hstart, hordered, ?_⟩ hhi
    exact ih hrest

end InPlace

/-! ### From markup -/

theorem spans_of_attrOfMarkup {a : Markup.Attr} {attr : Attr} (hread : attrOfMarkup a = .ok attr) :
    attr.spans.whole = some a.span ∧ attr.spans.name = some a.nameSpan ∧
      ∀ v ∈ attr.spans.value, v ∈ a.valueSpan := by
  rw [attrOfMarkup] at hread
  split at hread
  · rw [spreadOfMarkup] at hread
    dsimp only at hread
    split at hread
    · cases hread
    split at hread
    · cases hread
    split at hread
    · cases hread
    · cases hread
      exact ⟨rfl, rfl, by simp⟩
  · dsimp only at hread
    split at hread
    · split at hread
      · cases hread
      · cases hread
        exact ⟨rfl, rfl, fun _ hv => hv⟩
    · cases hread
      exact ⟨rfl, rfl, fun _ hv => hv⟩

theorem fitting_attrsOfMarkup {attrs : List Markup.Attr} (hattrs : ∀ a ∈ attrs, a.Fits size) :
    Fitting size ((attrsOfMarkup attrs).1.flatMap Attr.places) [] := by
  induction attrs with
  | nil => exact .of_fits (by simp [attrsOfMarkup])
  | cons a rest ih =>
    obtain ⟨ha, hrest⟩ := List.forall_mem_cons.mp hattrs
    rw [attrsOfMarkup]
    cases hread : attrOfMarkup a with
    | error d => exact ih hrest
    | ok attr =>
      obtain ⟨hwhole, hname, hvalue⟩ := spans_of_attrOfMarkup hread
      have hattr : Fitting size attr.places [] := by
        rw [Attr.places, hwhole, hname]
        exact (Fitting.two ha.whole ha.name).append (.known fun v hv => ha.value v (hvalue v hv))
      exact hattr.append (ih hrest)

/-- The places of an element, by those it has in the markup. -/
def elementSpansOfMarkup (spans : Markup.ElementSpans) : ElementSpans :=
  ⟨some spans.whole, some spans.startTag, spans.endTag,
    spans.endTag.map fun e => ⟨spans.startTag.stop, e.start⟩⟩

theorem fitting_tags {isEmpty : Bool} {spans : Markup.ElementSpans} (hspans : spans.Placed size isEmpty)
    (hwhole : spans.whole.Fits size) :
    Fitting size ([some spans.whole, some spans.startTag, spans.endTag] ++
        if isEmpty then [] else [(elementSpansOfMarkup spans).content])
      (if isEmpty then [elementSpansOfMarkup spans] else []) := by
  have hopened := Fitting.two hwhole hspans.startTag
  cases isEmpty with
  | false =>
    obtain ⟨e, he, hfits, hbehind⟩ := hspans.closed rfl
    rw [elementSpansOfMarkup, he]
    exact hopened.append (.two hfits ⟨hbehind, Nat.le_trans hfits.ordered hfits.within⟩)
  | true =>
    obtain ⟨he, hsame, hopens⟩ := hspans.empty rfl
    have hplaces := hopened.append (.one hspans.startTag)
    rw [elementSpansOfMarkup, he, hsame]
    rw [hsame] at hplaces
    exact ⟨hplaces.fits, List.forall_mem_singleton.mpr ⟨spans.startTag, rfl, rfl, hopens⟩⟩

theorem elementOfMarkup_inPlace {name : Text} {attrs : List Markup.Attr} {content : Draft}
    {selfClosing : Bool} {spans : Markup.ElementSpans} (hattrs : ∀ a ∈ attrs, a.Fits size)
    (hspans : spans.Placed size (selfClosing || Markup.isVoidName name))
    (hcontent : InPlace size 0 size content.nodes) (hwhole : InOrder lo hi [spans.whole]) (hhi : hi ≤ size) :
    InPlace size lo hi (elementOfMarkup name attrs content selfClosing spans).nodes := by
  refine .single ?_ rfl hwhole
  refine (fitting_attrsOfMarkup hattrs).append (.append (fitting_tags hspans ?_) ?_)
  · exact ⟨hwhole.2.1, Nat.le_trans hwhole.2.2 hhi⟩
  · exact (hcontent.mergeTexts (Nat.le_refl _)).fitting

theorem tokenOfMarkup_inPlace {t : Markup.Token} (ht : InOrder lo hi [t.span]) (hhi : hi ≤ size) :
    InPlace size lo hi (tokenOfMarkup t).nodes := by
  have hfits : t.span.Fits size := ⟨ht.2.1, Nat.le_trans ht.2.2 hhi⟩
  rw [tokenOfMarkup]
  split
  · rw [expressionOfMarkup]
    split
    · exact ht.le
    · split
      · exact ht.le
      · exact .single (.one hfits) rfl ht
  · split
    · exact ht.le
    · exact .single (.one hfits) rfl ht

theorem tokensOfMarkup_inPlace {tokens : List Markup.Token}
    (htokens : InOrder lo hi (tokens.map Markup.Token.span)) (hhi : hi ≤ size) :
    InPlace size lo hi (tokensOfMarkup tokens).nodes := by
  induction tokens generalizing lo with
  | nil => exact htokens
  | cons t rest ih =>
    obtain ⟨hstart, hordered, hrest⟩ := htokens
    refine InPlace.append (tokenOfMarkup_inPlace ⟨hstart, hordered, Nat.le_refl _⟩ ?_) (ih hrest)
    exact Nat.le_trans hrest.le hhi

section Blocks

variable {span : Span} (hspan : span.Fits size)
include hspan

theorem conditionalOfMarkup_inPlace (test : Option Path × List Diagnostic) (elses : List Diagnostic)
    {consequent : Draft} {alternate : Option Alternate} (hconsequent : InPlace size 0 size consequent.nodes)
    (halternate : ∀ a ∈ alternate, a.span.Fits size ∧ InPlace size 0 size a.content.nodes)
    (hwhole : InOrder lo hi [span.to ((alternate.map Alternate.span).getD span)]) (hhi : hi ≤ size) :
    InPlace size lo hi (conditionalOfMarkup test elses consequent alternate span).nodes := by
  rw [conditionalOfMarkup]
  split
  · exact hwhole.le
  · refine .single ?_ rfl hwhole
    refine (Fitting.two ⟨hwhole.2.1, Nat.le_trans hwhole.2.2 hhi⟩ hspan).append (Fitting.append ?_ ?_)
    · exact (hconsequent.mergeTexts (Nat.le_refl _)).fitting
    · cases alternate with
      | none => exact .of_fits (by simp [placesInAlternate])
      | some a =>
        obtain ⟨hplace, hcontent⟩ := halternate a rfl
        exact (Fitting.one hplace).append (hcontent.mergeTexts (Nat.le_refl _)).fitting

theorem iterationOfMarkup_inPlace (loop : Option Loop × List Diagnostic) {body : Draft}
    (hbody : InPlace size 0 size body.nodes) (hwhole : InOrder lo hi [span]) :
    InPlace size lo hi (iterationOfMarkup loop body span).nodes := by
  rw [iterationOfMarkup]
  split
  · exact hwhole.le
  · refine .single ?_ rfl hwhole
    exact (Fitting.two hspan hspan).append (hbody.mergeTexts (Nat.le_refl _)).fitting

end Blocks

/-- Siblings that are turned into a template without problems stay in place. -/
theorem nodesOfMarkup_inPlace {nodes : List Markup.Node} (hsource : Markup.FromSourceIn nodes)
    (lo hi : Nat) (hplaced : Markup.Siblings size lo hi nodes) (hhi : hi ≤ size)
    (hproblems : (nodesOfMarkup 0 nodes).diagnostics = []) :
    InPlace size lo hi (nodesOfMarkup 0 nodes).nodes := by
  revert hproblems
  revert lo hi
  refine siblings_induction ?nil ?element ?text ?comment ?alone ?connected ?stray ?loop hsource
  case nil =>
    intro lo hi hplaced _ _
    rw [nodesOfMarkup]
    exact hplaced.ordered
  case element =>
    intro name attrs children selfClosing spans rest _ hchildren hrest lo hi hplaced hhi hproblems
    obtain ⟨⟨hstart, hordered, hbehind⟩, ⟨hattrs, hspans, hinner, hcontent⟩, hothers⟩ := hplaced
    rw [nodesOfMarkup] at hproblems ⊢
    obtain ⟨helement, hlater⟩ := Draft.diagnostics_append_eq_nil_iff.mp hproblems
    refine InPlace.append (elementOfMarkup_inPlace hattrs hspans ?_ ⟨hstart, hordered, Nat.le_refl _⟩ ?_)
      (hrest _ _ ⟨hbehind, hothers⟩ hhi hlater)
    · exact hchildren 0 size ⟨hinner, hcontent⟩ (Nat.le_refl _) (List.append_eq_nil_iff.mp helement).2
    · exact Nat.le_trans hbehind.le hhi
  case text =>
    intro value tokens span rest _ hrest lo hi hplaced hhi hproblems
    obtain ⟨⟨hstart, hordered, hbehind⟩, htokens, hothers⟩ := hplaced
    rw [nodesOfMarkup] at hproblems ⊢
    obtain ⟨-, hlater⟩ := Draft.diagnostics_append_eq_nil_iff.mp hproblems
    refine InPlace.append ((tokensOfMarkup_inPlace htokens ?_).mono hstart)
      (hrest _ _ ⟨hbehind, hothers⟩ hhi hlater)
    exact Nat.le_trans hbehind.le hhi
  case comment =>
    intro body span rest hrest lo hi hplaced hhi hproblems
    obtain ⟨⟨hstart, hordered, hbehind⟩, -, hothers⟩ := hplaced
    rw [nodesOfMarkup] at hproblems ⊢
    exact (hrest _ _ ⟨hbehind, hothers⟩ hhi hproblems).mono (Nat.le_trans hstart hordered)
  case alone =>
    intro parameters children spans rest hcount hnone hchildren hrest lo hi hplaced hhi hproblems
    obtain ⟨⟨hstart, hordered, hbehind⟩, ⟨hinner, hcontent⟩, hothers⟩ := hplaced
    rw [nodesOfMarkup_if_alone hcount hnone] at hproblems ⊢
    obtain ⟨hconditional, hlater⟩ := Draft.diagnostics_append_eq_nil_iff.mp hproblems
    obtain ⟨-, hconsequent, -⟩ := conditionalOfMarkup_eq_nil_iff.mp hconditional
    have hwithin := Nat.le_trans hbehind.le hhi
    refine InPlace.append (conditionalOfMarkup_inPlace ⟨hordered, hwithin⟩ _ _ ?_ (by simp)
      ⟨hstart, hordered, Nat.le_refl _⟩ hwithin) (hrest _ _ ⟨hbehind, hothers⟩ hhi hlater)
    exact hchildren 0 size ⟨hinner, hcontent⟩ (Nat.le_refl _) hconsequent
  case connected =>
    intro parameters children spans gap others alternate place later hgap _ hchildren halternate hlater
      lo hi hplaced hhi hproblems
    obtain ⟨⟨hstart, hordered, hbehind⟩, ⟨hinner, hcontent⟩, hothers⟩ := hplaced
    rw [List.map_append] at hbehind
    obtain ⟨mid, hbetween, hnext, hordered', hbehind'⟩ := hbehind.split
    obtain ⟨-, hfollowing⟩ := List.forall_mem_append.mp (Markup.placedIn_iff.mp hothers)
    obtain ⟨⟨hinner', hcontent'⟩, hlast⟩ := List.forall_mem_cons.mp hfollowing
    rw [nodesOfMarkup_if_else hgap (by decide)] at hproblems ⊢
    obtain ⟨hconditional, hrest⟩ := Draft.diagnostics_append_eq_nil_iff.mp hproblems
    obtain ⟨-, hconsequent, helse, helses⟩ := conditionalOfMarkup_eq_nil_iff.mp hconditional
    have hcount := connectedCount_of_elseProblems (List.append_eq_nil_iff.mp helses).2
    rw [hcount] at hrest ⊢
    have hwithin := Nat.le_trans hbehind'.le hhi
    have hmid := Nat.le_trans hbetween.le hnext
    have hwhole : (spans.whole.to place.whole).start.offset ≤ (spans.whole.to place.whole).stop.offset :=
      Nat.le_trans hordered (Nat.le_trans hmid hordered')
    refine InPlace.append (conditionalOfMarkup_inPlace ⟨hordered, ?_⟩ _ _ ?_ ?_
      ⟨hstart, hwhole, Nat.le_refl _⟩ hwithin) (hlater _ _ ⟨hbehind', Markup.placedIn_iff.mpr hlast⟩ hhi hrest)
    · exact Nat.le_trans hmid (Nat.le_trans hordered' hwithin)
    · exact hchildren 0 size ⟨hinner, hcontent⟩ (Nat.le_refl _) hconsequent
    · rintro _ ⟨⟩
      exact ⟨⟨hordered', hwithin⟩,
        halternate 0 size ⟨hinner', hcontent'⟩ (Nat.le_refl _) (helse _ rfl)⟩
  case stray =>
    intro parameters children spans rest lo hi _ _ hproblems
    rw [nodesOfMarkup, if_neg (by decide), if_neg (by decide)] at hproblems
    cases (Draft.diagnostics_append_eq_nil_iff.mp hproblems).1
  case loop =>
    intro parameters children spans rest hchildren hrest lo hi hplaced hhi hproblems
    obtain ⟨⟨hstart, hordered, hbehind⟩, ⟨hinner, hcontent⟩, hothers⟩ := hplaced
    rw [nodesOfMarkup, if_neg (by decide), if_pos (by decide)] at hproblems ⊢
    obtain ⟨hiteration, hlater⟩ := Draft.diagnostics_append_eq_nil_iff.mp hproblems
    obtain ⟨-, hbody⟩ := iterationOfMarkup_eq_nil_iff.mp hiteration
    have hwithin := Nat.le_trans hbehind.le hhi
    refine InPlace.append (iterationOfMarkup_inPlace ⟨hordered, hwithin⟩ _ ?_
      ⟨hstart, hordered, Nat.le_refl _⟩) (hrest _ _ ⟨hbehind, hothers⟩ hhi hlater)
    exact hchildren 0 size ⟨hinner, hcontent⟩ (Nat.le_refl _) hbody

theorem fits_of_mem_extentOf {nodes : List Markup.Node} (h : InOrder lo hi (nodes.map Markup.Node.span)) :
    ∀ s ∈ extentOf nodes, s.Fits hi := by
  intro s hs
  cases nodes with
  | nil => cases hs
  | cons first rest =>
    rw [extentOf, List.head?_cons, List.getLast?_cons] at hs
    cases hs
    suffices hmem : rest.getLast?.getD first ∈ first :: rest from
      h.to_fits (List.mem_map.mpr ⟨_, hmem, rfl⟩)
    cases hlast : rest.getLast? with
    | none => exact List.mem_cons_self
    | some last => exact List.mem_cons_of_mem first (List.mem_of_getLast? hlast)

theorem siblings_treat (o : Options) {text : Text}
    (hproblems : (Markup.Tree.ofText ⟨false⟩ text).diagnostics = []) :
    Markup.Siblings text.length 0 text.length (o.treat (Markup.Tree.ofText ⟨false⟩ text).nodes) := by
  have hread := Markup.Tree.ofText_placed hproblems
  rw [Options.treat]
  split
  · exact hread
  · exact hread.removeBlanks

/-- Every place of a template that was read is known and fits into the source, except for the content of
the elements that take none: that goes from the end of the element back to its start, and does not fit. -/
theorem places_fit_unless_empty (o : Options) (text : Text) (root : Node) (hparse : parse o text = .ok root) :
    (∀ p ∈ root.places, ∃ s, p = some s ∧ s.Fits text.length) ∧
      ∀ spans ∈ root.emptyElements, ∃ tag, spans.whole = some tag ∧
        spans.content = some tag.reversed ∧ ¬ tag.reversed.Fits text.length := by
  obtain ⟨nodes, hmarkup, hnone, rfl⟩ := parse_eq_ok hparse
  obtain ⟨hproblems, rfl⟩ := parseMarkup_eq_ok hmarkup
  have hplaced := siblings_treat o hproblems
  have hnodes := nodesOfMarkup_inPlace (fromSourceIn_treat ⟨false⟩ o text) 0 text.length hplaced
    (Nat.le_refl _) hnone
  have hfitting := (Fitting.known (fits_of_mem_extentOf hplaced.ordered)).append
    (hnodes.mergeTexts (Nat.le_refl _)).fitting
  refine ⟨hfitting.fits, fun spans hspans => ?_⟩
  obtain ⟨tag, hwhole, hcontent, hopens⟩ := hfitting.reversed spans hspans
  exact ⟨tag, hwhole, hcontent, fun hfits => absurd hfits.ordered (Nat.not_le_of_lt hopens)⟩

/-- Texts cut by a comment, an `else` block behind blanks, a loop, and elements that take no content. -/
def scatteredMarkup : Text :=
  "<p a=b>x<!-- c -->y<br></p>@if (t) \x7b1\x7d @else \x7b<i/>\x7d\n@for (xs) \x7b\x7b\x7bv\x7d\x7d\x7d"

theorem scatteredMarkup_fits :
    ∃ root, parse .default scatteredMarkup = .ok root ∧ root.places.length = 22 ∧
      root.emptyElements.map ElementSpans.whole =
        [some ⟨⟨19, 0, 19⟩, ⟨23, 0, 23⟩⟩, some ⟨⟨46, 0, 46⟩, ⟨50, 0, 50⟩⟩] ∧
      (∀ p ∈ root.places, ∃ s, p = some s ∧ s.Fits scatteredMarkup.length) ∧
      ∀ spans ∈ root.emptyElements, ∃ tag, spans.whole = some tag ∧
        spans.content = some tag.reversed ∧ ¬ tag.reversed.Fits scatteredMarkup.length := by
  have hread : ∃ root, parse .default scatteredMarkup = .ok root ∧ root.places.length = 22 ∧
      root.emptyElements.map ElementSpans.whole =
        [some ⟨⟨19, 0, 19⟩, ⟨23, 0, 23⟩⟩, some ⟨⟨46, 0, 46⟩, ⟨50, 0, 50⟩⟩] :=
    ⟨_, parse_eq_ok_iff.mpr ⟨by decide +kernel, by decide +kernel, rfl⟩, by decide +kernel,
      by decide +kernel⟩
  obtain ⟨root, hparse, hplaces, helements⟩ := hread
  exact ⟨root, hparse, hplaces, helements, places_fit_unless_empty .default scatteredMarkup root hparse⟩

/-- The content of a line break begins behind its tag and ends before it. -/
theorem lineBreak_reversed :
    ∃ root, parse .default "<br>" = .ok root ∧
      root.emptyElements.map ElementSpans.content = [some ⟨⟨4, 0, 4⟩, ⟨0, 0, 0⟩⟩] := by
  refine ⟨_, parse_eq_ok_iff.mpr ⟨by decide +kernel, by decide +kernel, rfl⟩, ?_⟩
  decide +kernel

end Template

end Stencil
