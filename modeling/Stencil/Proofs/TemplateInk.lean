import Stencil.Proofs.Acceptance
import Stencil.Proofs.BlankErasure
import Stencil.Proofs.TemplateMarkup

/-!
# Templates without their blanks

A template with the blanks of its texts erased, and the texts dropped of which nothing is left. Texts that
are neighbours are joined when a template is put together, and a blank may be cut in two where they meet,
so erasing is done while nodes are put together, from the last to the first. Two drafts that do the same
to every such list of nodes are the same, blanks and places aside, and stay so under everything that is
made of drafts.
-/

namespace Stencil

namespace Template

mutual

/-- A node with every text replaced by what `erase` leaves of it, and dropped if that is nothing. -/
def Node.erased (erase : Text → Text) : Node → List Node
  | .block children span => [.block (erasedAll erase children) span]
  | .element name attrs content selfClosing spans =>
    [.element name attrs (erasedAll erase content) selfClosing spans]
  | .text value span => if (erase value).isEmpty then [] else [.text (erase value) span]
  | .expression path span => [.expression path span]
  | .conditional test consequent alternate spans =>
    [.conditional test (erasedAll erase consequent) (erasedAlternate erase alternate) spans]
  | .iteration collection key value body spans =>
    [.iteration collection key value (erasedAll erase body) spans]
  | .hole => [.hole]
  | .foreign kind typeName span => [.foreign kind typeName span]

def erasedAlternate (erase : Text → Text) : Option (List Node) → Option (List Node)
  | none => none
  | some nodes => some (erasedAll erase nodes)

def erasedAll (erase : Text → Text) : List Node → List Node
  | [] => []
  | node :: rest => node.erased erase ++ erasedAll erase rest

end

/-! ### The ink of sibling nodes -/

/-- A node in front of nodes whose blanks are gone. -/
def consInked (node : Node) (ink : List Node) : List Node :=
  match consMerged node ink with
  | [] => []
  | first :: rest => first.erased Text.ink ++ rest

/-- Nodes in front of nodes whose blanks are gone. -/
def inkOnto (nodes ink : List Node) : List Node :=
  nodes.foldr (fun node => consInked node.unplaced) ink

/-- Nodes whose blanks are gone: a text at their front is all ink, and no other text follows it. -/
inductive Settled : List Node → Prop
  | text {value : Text} {rest : List Node} (hink : Text.ink value = value) (hne : value ≠ [])
      (hrest : startsWithText rest = false) : Settled (.text value none :: rest)
  | other {nodes : List Node} (hnodes : startsWithText nodes = false) : Settled nodes

theorem consInked_text_text (a b : Text) (span : Option Span) (rest : List Node) :
    consInked (.text a none) (.text b span :: rest) =
      Node.erased Text.ink (.text (a ++ b) none) ++ rest := rfl

theorem consInked_of_startsWithText {node : Node} {nodes : List Node}
    (hnodes : startsWithText [node] = true → startsWithText nodes = false) :
    consInked node nodes = node.erased Text.ink ++ nodes := by
  rw [consInked, consMerged_eq_cons hnodes]

theorem settled_erased {node : Node} {rest : List Node}
    (hrest : startsWithText [node] = true → startsWithText rest = false) :
    Settled (node.unplaced.erased Text.ink ++ rest) := by
  cases node with
  | text value span =>
    rw [Node.unplaced, Node.erased]
    split
    · exact .other (hrest rfl)
    · rename_i hink
      exact .text (Text.ink_ink value) (fun hnil => hink (by rw [hnil]; rfl)) (hrest rfl)
  | _ => exact .other rfl

theorem settled_consInked {ink : List Node} (hink : Settled ink) (node : Node) :
    Settled (consInked node.unplaced ink) := by
  cases hnode : startsWithText [node] with
  | false =>
    have hfree : ∀ nodes : List Node, startsWithText [node] = true → startsWithText nodes = false := by
      intro nodes htext
      rw [hnode] at htext
      cases htext
    rw [consInked_of_startsWithText (startsWithText_unplaced [node] ▸ hfree ink)]
    exact settled_erased (hfree ink)
  | true =>
    cases node with
    | text a span =>
      cases hink with
      | @text b rest hink hne hrest => exact @settled_erased (.text (a ++ b) none) rest fun _ => hrest
      | other hstart =>
        rw [consInked_of_startsWithText fun _ => hstart]
        exact settled_erased fun _ => hstart
    | _ => cases hnode

theorem settled_inkOnto {ink : List Node} (hink : Settled ink) (nodes : List Node) :
    Settled (inkOnto nodes ink) := by
  induction nodes with
  | nil => exact hink
  | cons node rest ih => exact settled_consInked ih node

/-- A text of blanks leaves nothing. -/
theorem consInked_blank {value : Text} (hvalue : Text.ink value = []) {ink : List Node}
    (hink : Settled ink) : consInked (.text value none) ink = ink := by
  cases hink with
  | @text b rest hb hne hrest =>
    rw [consInked_text_text, Node.erased, Text.ink_append_of_nil hvalue, hb,
      if_neg (by rwa [List.isEmpty_iff]), List.singleton_append]
  | other hstart =>
    rw [consInked_of_startsWithText fun _ => hstart, Node.erased, hvalue]
    rfl

/-- Of a text nothing but its ink matters. -/
theorem consInked_congr {a b : Text} (hab : Text.ink a = Text.ink b) (ink : List Node) :
    consInked (.text a none) ink = consInked (.text b none) ink := by
  cases hstart : startsWithText ink with
  | false =>
    rw [consInked_of_startsWithText fun _ => hstart, consInked_of_startsWithText fun _ => hstart,
      Node.erased, Node.erased, hab]
  | true =>
    match ink with
    | .text c span :: rest =>
      rw [consInked_text_text, consInked_text_text, Node.erased, Node.erased,
        Text.ink_append_congr hab]

theorem startsWithText_erasedAll {nodes : List Node} (hnodes : startsWithText nodes = false) :
    startsWithText (erasedAll Text.ink nodes) = false := by
  match nodes with
  | [] => rfl
  | node :: rest =>
    cases node with
    | text => cases hnodes
    | _ => rfl

/-- After joining, no text follows a text at the front. -/
theorem startsWithText_of_mergeTexts {nodes : List Node} {value : Text} {span : Option Span}
    {rest : List Node} (hmerged : mergeTexts nodes = .text value span :: rest) :
    startsWithText rest = false := by
  induction nodes generalizing value span rest with
  | nil => cases hmerged
  | cons node others ih =>
    change consMerged node (mergeTexts others) = _ at hmerged
    cases hstart : startsWithText (mergeTexts others) with
    | false =>
      rw [consMerged_eq_cons fun _ => hstart] at hmerged
      rw [← (List.cons.inj hmerged).2]
      exact hstart
    | true =>
      cases hothers : mergeTexts others with
      | nil =>
        rw [hothers] at hstart
        cases hstart
      | cons next later =>
        rw [hothers] at hstart hmerged
        cases next with
        | text b place =>
          cases node with
          | text a span =>
            rw [← (List.cons.inj hmerged).2]
            exact ih hothers
          | _ => cases (List.cons.inj hmerged).1
        | _ => cases hstart

theorem erasedAll_consMerged (node : Node) {nodes : List Node}
    (hnodes : ∀ value span rest, nodes = .text value span :: rest → startsWithText rest = false) :
    erasedAll Text.ink (consMerged node.unplaced nodes) =
      consInked node.unplaced (erasedAll Text.ink nodes) := by
  by_cases hjoin : startsWithText [node.unplaced] = true ∧ startsWithText nodes = true
  · match node, nodes with
    | .text a _, .text b span :: rest =>
      have hrest := startsWithText_erasedAll (hnodes b span rest rfl)
      change Node.erased Text.ink (.text (a ++ b) none) ++ erasedAll Text.ink rest =
        consInked (.text a none) (Node.erased Text.ink (.text b span) ++ erasedAll Text.ink rest)
      by_cases hb : (Text.ink b).isEmpty = true
      · -- The text behind is dropped, so the one in front meets what comes after it.
        have hgone : Text.ink b = [] := List.isEmpty_iff.mp hb
        have hfront : Text.ink (a ++ b) = Text.ink a := by
          rw [← Text.ink_append_ink, hgone, List.append_nil]
        have hdropped : Node.erased Text.ink (.text b span) = [] := by rw [Node.erased, if_pos hb]
        rw [hdropped, List.nil_append, consInked_of_startsWithText fun _ => hrest, Node.erased,
          Node.erased, hfront]
      · have hkept : Node.erased Text.ink (.text b span) = [.text (Text.ink b) span] := by
          rw [Node.erased, if_neg hb]
        rw [hkept, List.singleton_append, consInked_text_text, Node.erased, Node.erased,
          Text.ink_append_ink]
  · have hseparate : startsWithText [node.unplaced] = true → startsWithText nodes = false := by
      intro htext
      rw [← Bool.not_eq_true]
      exact fun hnext => hjoin ⟨htext, hnext⟩
    rw [consMerged_eq_cons hseparate,
      consInked_of_startsWithText fun htext => startsWithText_erasedAll (hseparate htext), erasedAll]

/-- The nodes of a template, their texts joined and their blanks gone, from the last to the first. -/
theorem erasedAll_mergeTexts (nodes : List Node) :
    erasedAll Text.ink (unplacedAll (mergeTexts nodes)) = inkOnto nodes [] := by
  rw [unplacedAll_eq_map, mergeTexts_unplaced]
  induction nodes with
  | nil => rfl
  | cons node rest ih =>
    have hmerge : mergeTexts ((node :: rest).map Node.unplaced) =
        consMerged node.unplaced (mergeTexts (rest.map Node.unplaced)) := rfl
    have hink : inkOnto (node :: rest) [] = consInked node.unplaced (inkOnto rest []) := rfl
    rw [hmerge, hink, ← ih]
    exact erasedAll_consMerged node fun _ _ _ hmerged => startsWithText_of_mergeTexts hmerged

/-! ### Drafts -/

/-- Drafts that, blanks and places aside, put the same nodes in front of others and have the same
problems. -/
structure Draft.SameInk (a b : Draft) : Prop where
  nodes (ink : List Node) (hink : Settled ink) : inkOnto a.nodes ink = inkOnto b.nodes ink
  diagnostics : a.diagnostics = b.diagnostics

namespace Draft.SameInk

theorem refl (a : Draft) : a.SameInk a := ⟨fun _ _ => rfl, rfl⟩

theorem append {a a' b b' : Draft} (ha : a.SameInk a') (hb : b.SameInk b') :
    (a ++ b).SameInk (a' ++ b') := by
  constructor
  · intro ink hink
    change inkOnto (a.nodes ++ b.nodes) ink = inkOnto (a'.nodes ++ b'.nodes) ink
    rw [inkOnto, inkOnto, List.foldr_append, List.foldr_append]
    change inkOnto a.nodes (inkOnto b.nodes ink) = inkOnto a'.nodes (inkOnto b'.nodes ink)
    rw [hb.nodes ink hink, ha.nodes _ (settled_inkOnto hink b'.nodes)]
  · change a.diagnostics ++ b.diagnostics = a'.diagnostics ++ b'.diagnostics
    rw [ha.diagnostics, hb.diagnostics]

/-- The content made of such drafts differs in blanks and places only. -/
theorem content {a b : Draft} (h : a.SameInk b) :
    erasedAll Text.ink (unplacedAll (mergeTexts a.nodes)) =
      erasedAll Text.ink (unplacedAll (mergeTexts b.nodes)) := by
  rw [erasedAll_mergeTexts, erasedAll_mergeTexts, h.nodes [] (.other rfl)]

theorem element {content content' : Draft} (hcontent : content.SameInk content') (name : Text)
    (attrs : List Markup.Attr) (selfClosing : Bool) (spans : Markup.ElementSpans) :
    (elementOfMarkup name attrs content selfClosing spans).SameInk
      (elementOfMarkup name attrs content' selfClosing spans) := by
  constructor
  · intro ink _
    simp only [elementOfMarkup, inkOnto, List.foldr_cons, List.foldr_nil, Node.unplaced, consInked,
      consMerged, Node.erased, hcontent.content]
  · simp only [elementOfMarkup, hcontent.diagnostics]

theorem iteration {body body' : Draft} (hbody : body.SameInk body')
    (loop : Option Loop × List Diagnostic) (span : Span) :
    (iterationOfMarkup loop body span).SameInk (iterationOfMarkup loop body' span) := by
  obtain ⟨loop, problems⟩ := loop
  cases loop with
  | none => exact refl _
  | some l =>
    constructor
    · intro ink _
      simp only [iterationOfMarkup, inkOnto, List.foldr_cons, List.foldr_nil, Node.unplaced,
        consInked, consMerged, Node.erased, hbody.content]
    · simp only [iterationOfMarkup, hbody.diagnostics]

end Draft.SameInk

/-- Alternates that differ in blanks only, or none on either side. -/
inductive Alternate.SameInk : Option Alternate → Option Alternate → Prop
  | none : SameInk none none
  | some {a b : Alternate} (hcontent : a.content.SameInk b.content) (hspan : a.span = b.span) :
    SameInk (some a) (some b)

theorem Draft.SameInk.conditional {consequent consequent' : Draft}
    {alternate alternate' : Option Alternate} (hconsequent : consequent.SameInk consequent')
    (halternate : Alternate.SameInk alternate alternate') (test : Option Path × List Diagnostic)
    (elses : List Diagnostic) (span : Span) :
    (conditionalOfMarkup test elses consequent alternate span).SameInk
      (conditionalOfMarkup test elses consequent' alternate' span) := by
  obtain ⟨test, problems⟩ := test
  cases halternate with
  | none =>
    cases test with
    | none => exact refl _
    | some path =>
      constructor
      · intro ink _
        simp only [conditionalOfMarkup, inkOnto, List.foldr_cons, List.foldr_nil, Node.unplaced,
          consInked, consMerged, Node.erased, hconsequent.content, Option.map_none]
      · simp only [conditionalOfMarkup, hconsequent.diagnostics]
  | some hcontent hspan =>
    cases test with
    | none =>
      constructor
      · intro ink _
        rfl
      · simp only [conditionalOfMarkup, Option.map_some, hcontent.diagnostics]
    | some path =>
      constructor
      · intro ink _
        simp only [conditionalOfMarkup, inkOnto, List.foldr_cons, List.foldr_nil, Node.unplaced,
          consInked, consMerged, Node.erased, hconsequent.content, Option.map_some,
          unplacedAlternate, erasedAlternate, hcontent.content]
      · simp only [conditionalOfMarkup, Option.map_some, hcontent.diagnostics,
          hconsequent.diagnostics]

/-! ### Texts -/

theorem inkOnto_text (value : Text) (span : Span) {ink : List Node} (hink : Settled ink) :
    inkOnto (tokenOfMarkup ⟨.text value, span⟩).nodes ink = consInked (.text value none) ink := by
  have hcontent : (Markup.Lexeme.text value).content = value := List.append_nil value
  simp only [tokenOfMarkup, hcontent]
  by_cases hempty : value.isEmpty = true
  · have hnil : value = [] := List.isEmpty_iff.mp hempty
    subst hnil
    exact (consInked_blank rfl hink).symm
  · rw [if_neg hempty]
    rfl

theorem diagnostics_text (value : Text) (span : Span) :
    (tokenOfMarkup ⟨.text value, span⟩).diagnostics = [] := by
  simp only [tokenOfMarkup]
  split <;> rfl

theorem tokenOfMarkup_collapseBlanks (t : Markup.Token) :
    (tokenOfMarkup t).SameInk (tokenOfMarkup t.collapseBlanks) := by
  obtain ⟨lexeme, span⟩ := t
  cases lexeme with
  | text value =>
    constructor
    · intro ink hink
      rw [Markup.Token.collapseBlanks, inkOnto_text value span hink, inkOnto_text _ span hink]
      exact consInked_congr (Markup.ink_collapseBlanks value).symm ink
    · rw [Markup.Token.collapseBlanks, diagnostics_text, diagnostics_text]
  | _ => exact .refl _

theorem tokensOfMarkup_collapseBlanks (tokens : List Markup.Token) :
    (tokensOfMarkup tokens).SameInk (tokensOfMarkup (tokens.map Markup.Token.collapseBlanks)) := by
  induction tokens with
  | nil => exact .refl _
  | cons t rest ih => exact (tokenOfMarkup_collapseBlanks t).append ih

theorem tokenOfMarkup_blank {t : Markup.Token} (ht : t.isBlank = true) :
    (tokenOfMarkup t).SameInk .empty := by
  obtain ⟨lexeme, span⟩ := t
  cases lexeme with
  | text value =>
    have hblank : Text.ink value = [] := by
      apply Text.ink_of_blank
      intro g hg
      exact List.all_eq_true.mp ht g.char (List.mem_map_of_mem hg)
    constructor
    · intro ink hink
      rw [inkOnto_text value span hink]
      exact consInked_blank hblank hink
    · exact diagnostics_text value span
  | _ => cases ht

theorem tokensOfMarkup_blank {tokens : List Markup.Token}
    (htokens : tokens.all Markup.Token.isBlank = true) : (tokensOfMarkup tokens).SameInk .empty := by
  induction tokens with
  | nil => exact .refl _
  | cons t rest ih =>
    rw [List.all_cons, Bool.and_eq_true] at htokens
    exact (tokenOfMarkup_blank htokens.1).append (ih htokens.2)

end Template

end Stencil
