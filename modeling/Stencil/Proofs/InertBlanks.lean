import Stencil.Proofs.BlankRemoval
import Stencil.Proofs.Utf8
import Stencil.Proofs.Spelling

/-!
# Removing blanks changes nothing else

A source that is accepted with its blanks is accepted without them, and the two templates differ in blanks
and places only. What that means is said by dropping the blanks of every text on both sides. One pass is
enough where the source is UTF-8, since its texts are UTF-8 then, and stay so when blanks are removed and
texts are joined. Where it is not, a dropped blank may leave the bytes of another behind.
-/

namespace Stencil

/-! ### Texts of a source in UTF-8 -/

namespace Markup

/-- A token of a text, and UTF-8 unless it is an expression. -/
def Token.IsUtf8 (t : Token) : Prop :=
  match t.lexeme with
  | .text value => value.isUtf8 = true
  | .rawText value => value.isUtf8 = true
  | .interpolation _ => True
  | _ => False

mutual

/-- All texts in a node are UTF-8. -/
def Node.TextsUtf8 : Node → Prop
  | .element _ _ children _ _ => TextsUtf8In children
  | .text _ tokens _ => ∀ t ∈ tokens, t.IsUtf8
  | .comment .. => True
  | .block _ _ children _ => TextsUtf8In children

def TextsUtf8In : List Node → Prop
  | [] => True
  | node :: rest => node.TextsUtf8 ∧ TextsUtf8In rest

end

theorem textsUtf8In_iff {nodes : List Node} : TextsUtf8In nodes ↔ ∀ node ∈ nodes, node.TextsUtf8 := by
  induction nodes with
  | nil => simp [TextsUtf8In]
  | cons node rest ih => simp [TextsUtf8In, ih]

theorem closes_textsUtf8 : Closes (fun _ => True) Node.TextsUtf8 := by
  intro c _ children hchildren close
  cases c with
  | element => exact textsUtf8In_iff.mpr hchildren
  | block => exact textsUtf8In_iff.mpr hchildren

namespace Piece

theorem takeAttrs_isSuffix (tokens : List Token) : (takeAttrs tokens).2 <:+ tokens := by
  fun_induction takeAttrs tokens with
  | case1 _ _ _ _ _ _ _ _ rest _ ih => exact ih.trans ⟨_ :: _ :: _ :: [_], rfl⟩
  | case2 _ _ _ _ _ _ rest _ _ ih => exact ih.trans ⟨_ :: _ :: [_], rfl⟩
  | case3 _ _ _ _ _ _ rest _ ih => exact ih.trans ⟨_ :: _ :: [_], rfl⟩
  | case4 _ _ _ _ rest _ _ _ _ ih => exact ih.trans ⟨_ :: [_], rfl⟩
  | case5 _ _ _ _ rest _ ih => exact ih.trans ⟨_ :: [_], rfl⟩
  | case6 _ _ rest _ _ _ _ _ _ ih => exact ih.trans ⟨[_], rfl⟩
  | case7 => exact List.suffix_rfl

theorem takeParameters_isSuffix (tokens : List Token) : (takeParameters tokens).2 <:+ tokens := by
  fun_induction takeParameters tokens with
  | case1 _ _ rest _ ih => exact ih.trans (List.suffix_cons _ _)
  | case2 => exact List.suffix_rfl

/-- What a piece takes from the tokens it is gathered from. -/
def IsFrom (tokens : List Token) : Piece → Prop
  | .startTag name attrs _ _ =>
    (∃ t ∈ tokens, t.lexeme = .tagOpenStart name) ∧
      ∃ others, others <:+ tokens ∧ attrs = (takeAttrs others).1
  | .text first rest => ∀ t ∈ first :: rest, t ∈ tokens ∧ isTextual t = true
  | .blockOpen name _ _ _ => ∃ t ∈ tokens, t.lexeme = .blockOpenStart name
  | _ => True

theorem IsFrom.of_isSuffix {tokens others : List Token} {piece : Piece} (h : piece.IsFrom others)
    (hothers : others <:+ tokens) : piece.IsFrom tokens := by
  cases piece with
  | startTag name attrs ending span =>
    obtain ⟨⟨t, ht, hname⟩, more, hmore, hattrs⟩ := h
    exact ⟨⟨t, hothers.mem ht, hname⟩, more, hmore.trans hothers, hattrs⟩
  | text first rest => exact fun t ht => ⟨hothers.mem (h t ht).1, (h t ht).2⟩
  | blockOpen name parameters nameSpan span =>
    obtain ⟨t, ht, hname⟩ := h
    exact ⟨t, hothers.mem ht, hname⟩
  | endTag | comment | blockClose => trivial

theorem takeStartTag_spec {name : Text} {token : Token} (htoken : token.lexeme = .tagOpenStart name)
    (tokens : List Token) :
    (takeStartTag name token.span tokens).2 <:+ tokens ∧
      (takeStartTag name token.span tokens).1.IsFrom (token :: tokens) := by
  have hattrs := takeAttrs_isSuffix tokens
  have hfrom : ∀ ending span,
      (Piece.startTag name (takeAttrs tokens).1 ending span).IsFrom (token :: tokens) :=
    fun _ _ => ⟨⟨token, List.mem_cons_self, htoken⟩, tokens, List.suffix_cons _ _, rfl⟩
  rw [takeStartTag]
  split
  · rename_i s rest hrest
    rw [hrest] at hattrs
    exact ⟨(List.suffix_cons _ _).trans hattrs, hfrom _ _⟩
  · rename_i s rest hrest
    rw [hrest] at hattrs
    exact ⟨(List.suffix_cons _ _).trans hattrs, hfrom _ _⟩
  · exact ⟨hattrs, hfrom _ _⟩

theorem takeBlockHeader_spec {name : Text} {token : Token}
    (htoken : token.lexeme = .blockOpenStart name) (tokens : List Token) :
    (takeBlockHeader name token.span tokens).2 <:+ tokens ∧
      (takeBlockHeader name token.span tokens).1.IsFrom (token :: tokens) := by
  have hparameters := takeParameters_isSuffix tokens
  rw [takeBlockHeader]
  split
  · rename_i s rest hrest
    rw [hrest] at hparameters
    exact ⟨(List.suffix_cons _ _).trans hparameters, token, List.mem_cons_self, htoken⟩
  · exact ⟨hparameters, token, List.mem_cons_self, htoken⟩

theorem isFrom_run {token : Token} (htoken : isTextual token = true) (others : List Token) :
    (Piece.text token (others.takeWhile isTextual)).IsFrom (token :: others) := by
  intro t ht
  rcases List.mem_cons.mp ht with rfl | ht
  · exact ⟨List.mem_cons_self, htoken⟩
  · exact ⟨List.mem_cons_of_mem _ ((List.takeWhile_prefix _).mem ht),
      List.all_eq_true.mp List.all_takeWhile t ht⟩

/-- Pieces take what they hold from the tokens they are gathered from. -/
theorem isFrom_of_mem_gather {fuel : Nat} {tokens : List Token} :
    ∀ piece ∈ gather fuel tokens, piece.IsFrom tokens := by
  have hcons {first : Piece} {pieces : List Piece} {tokens others : List Token}
      (hfirst : first.IsFrom tokens) (hothers : others <:+ tokens)
      (ih : ∀ piece ∈ pieces, piece.IsFrom others) : ∀ piece ∈ first :: pieces, piece.IsFrom tokens := by
    intro piece hpiece
    rcases List.mem_cons.mp hpiece with rfl | hpiece
    · exact hfirst
    · exact (ih piece hpiece).of_isSuffix hothers
  have hdropped (token : Token) (others : List Token) :
      others.dropWhile isTextual <:+ token :: others :=
    (List.dropWhile_suffix _).trans (List.suffix_cons _ _)
  fun_induction gather fuel tokens with
  | case1 => simp
  | case2 => simp
  | case3 => simp
  | case4 fuel token others name hlexeme found ih =>
    obtain ⟨hsuffix, hfrom⟩ := takeStartTag_spec hlexeme others
    exact hcons hfrom (hsuffix.trans (List.suffix_cons _ _)) ih
  | case5 fuel token others name _ ih => exact hcons trivial (List.suffix_cons _ _) ih
  | case6 fuel token others value hlexeme ih
  | case7 fuel token others value hlexeme ih
  | case8 fuel token others e hlexeme ih =>
    exact hcons (isFrom_run (by rw [isTextual, hlexeme]) others) (hdropped token others) ih
  | case9 fuel token others body _ ih => exact hcons trivial (List.suffix_cons _ _) ih
  | case10 fuel token others name hlexeme found ih =>
    obtain ⟨hsuffix, hfrom⟩ := takeBlockHeader_spec hlexeme others
    exact hcons hfrom (hsuffix.trans (List.suffix_cons _ _)) ih
  | case11 fuel token others _ ih => exact hcons trivial (List.suffix_cons _ _) ih
  | case12 fuel token others _ _ _ _ _ _ _ _ _ ih =>
    exact fun piece hpiece => (ih piece hpiece).of_isSuffix (List.suffix_cons _ _)

end Piece

theorem lineEndings_isUtf8 {options : ScanOptions} {t : Text} (ht : t.isUtf8 = true) :
    (Scan.lineEndings options t).isUtf8 = true := by
  rw [Scan.lineEndings]
  split
  · exact ht
  · exact Text.isUtf8_normalizeLineEndings ht

/-- The texts of a source in UTF-8 are in UTF-8 themselves. -/
theorem isUtf8_of_mem_ofText {options : ScanOptions} {source : Text} (hsource : source.isUtf8 = true)
    {t : Token} (ht : t ∈ (TokenStream.ofText options source).tokens)
    (htextual : Piece.isTextual t = true) : t.IsUtf8 := by
  obtain ⟨d, _, hlaid⟩ := @TokenStream.readFrom_laid options source source.glyphs.length
    (.ofText source) List.suffix_rfl (Nat.le_refl _) none
  obtain ⟨before, after, htokens⟩ := List.append_of_mem ht
  obtain ⟨gs, hs, e, f, hgs, hhs, _, hspell⟩ := hlaid.spells htokens
  have hslice : (Text.ofGlyphs hs).isUtf8 = true := by
    apply Text.isUtf8_ofGlyphs
    intro g hg
    have hmem := hhs.mem (hgs.isSuffix List.suffix_rfl) g hg
    exact Text.isUtf8_iff.mp hsource g hmem
  obtain ⟨lexeme, span⟩ := t
  cases lexeme with
  | text value =>
    have hvalue : value = Scan.decoded options (Text.ofGlyphs hs) := hspell
    change value.isUtf8 = true
    rw [hvalue]
    exact Reference.isUtf8_decode (lineEndings_isUtf8 hslice)
  | rawText value =>
    have hvalue : value = Scan.lineEndings options (Text.ofGlyphs hs) := hspell
    change value.isUtf8 = true
    rw [hvalue]
    exact lineEndings_isUtf8 hslice
  | interpolation => trivial
  | _ => cases htextual

/-- A line feed at the front of a text may go. -/
theorem firstToken_isUtf8 {t : Token} (ht : t.IsUtf8) (nest : Nest) : (nest.firstToken t).IsUtf8 := by
  rw [Nest.firstToken.eq_def]
  split
  · rename_i value name attrs startTag frames hlexeme _
    split
    · rw [Token.IsUtf8, hlexeme] at ht
      exact Text.isUtf8_of_cons (by decide) ht
    · exact ht
  · exact ht

theorem Tree.ofText_textsUtf8 {options : ScanOptions} {source : Text}
    (hsource : source.isUtf8 = true) : TextsUtf8In (Tree.ofText options source).nodes := by
  apply textsUtf8In_iff.mpr
  refine Tree.ofTokens_good closes_textsUtf8 ?_
  intro piece hpiece
  cases piece with
  | startTag name attrs ending span =>
    rw [Piece.Fits]
    split <;> trivial
  | text first rest =>
    have htextual := Piece.isFrom_of_mem_gather _ hpiece
    have hutf8 : ∀ t ∈ first :: rest, t.IsUtf8 := fun t ht =>
      isUtf8_of_mem_ofText hsource (htextual t ht).1 (htextual t ht).2
    intro nest span t ht
    rcases List.mem_cons.mp ht with rfl | ht
    · exact firstToken_isUtf8 (hutf8 first List.mem_cons_self) nest
    · exact hutf8 t (List.mem_cons_of_mem _ ht)
  | endTag | comment | blockOpen | blockClose => trivial

/-! ### Removing blanks -/

theorem isUtf8_collapseBlanks {t : Text} (ht : t.isUtf8 = true) :
    (collapseBlanks t).isUtf8 = true := by
  apply Text.isUtf8_ofGlyphs
  intro g hg
  rcases of_mem_collapseBlanksAfter hg with hg | hnone | rfl
  · exact Text.isUtf8_iff.mp ht g hg
  · cases hnone
  · exact Glyph.isWhole_ascii (b := 0x20) (by decide)

theorem Token.collapseBlanks_isUtf8 {t : Token} (ht : t.IsUtf8) : t.collapseBlanks.IsUtf8 := by
  obtain ⟨lexeme, span⟩ := t
  cases lexeme with
  | text value => exact isUtf8_collapseBlanks ht
  | _ => exact ht

theorem outlasts_textsUtf8 : Outlasts Node.TextsUtf8 where
  element hnode := ⟨textsUtf8In_iff.mp hnode, textsUtf8In_iff.mpr⟩
  text hnode := List.forall_mem_map.mpr fun t ht => Token.collapseBlanks_isUtf8 (hnode t ht)
  block hnode := ⟨textsUtf8In_iff.mp hnode, textsUtf8In_iff.mpr⟩

theorem removeBlanks_textsUtf8 {nodes : List Node} (hnodes : TextsUtf8In nodes) :
    TextsUtf8In (removeBlanks nodes) :=
  textsUtf8In_iff.mpr (outlasts_textsUtf8.nodes (textsUtf8In_iff.mp hnodes))

end Markup

/-! ### Templates -/

namespace Template

mutual

/-- All texts in a node are UTF-8. -/
def Node.TextsUtf8 : Node → Prop
  | .block children _ => TextsUtf8In children
  | .element _ _ content _ _ => TextsUtf8In content
  | .text value _ => value.isUtf8 = true
  | .expression .. => True
  | .conditional _ consequent alternate _ => TextsUtf8In consequent ∧ TextsUtf8Alternate alternate
  | .iteration _ _ _ body _ => TextsUtf8In body
  | .hole => True
  | .foreign .. => True

def TextsUtf8Alternate : Option (List Node) → Prop
  | none => True
  | some nodes => TextsUtf8In nodes

def TextsUtf8In : List Node → Prop
  | [] => True
  | node :: rest => node.TextsUtf8 ∧ TextsUtf8In rest

end

theorem textsUtf8In_append {first others : List Node} (hfirst : TextsUtf8In first)
    (hothers : TextsUtf8In others) : TextsUtf8In (first ++ others) := by
  induction first with
  | nil => exact hothers
  | cons node rest ih => exact ⟨hfirst.1, ih hfirst.2⟩

theorem textsUtf8In_consMerged {node : Node} {nodes : List Node} (hnode : node.TextsUtf8)
    (hnodes : TextsUtf8In nodes) : TextsUtf8In (consMerged node nodes) := by
  by_cases hjoin : startsWithText [node] = true ∧ startsWithText nodes = true
  · match node, nodes with
    | .text a _, .text b _ :: rest => exact ⟨Text.isUtf8_append hnode hnodes.1, hnodes.2⟩
  · rw [consMerged_eq_cons]
    · exact ⟨hnode, hnodes⟩
    · intro htext
      rw [← Bool.not_eq_true]
      exact fun hnext => hjoin ⟨htext, hnext⟩

theorem textsUtf8In_mergeTexts {nodes : List Node} (hnodes : TextsUtf8In nodes) :
    TextsUtf8In (mergeTexts nodes) := by
  induction nodes with
  | nil => trivial
  | cons node rest ih => exact textsUtf8In_consMerged hnodes.1 (ih hnodes.2)

theorem tokenOfMarkup_textsUtf8 {t : Markup.Token} (ht : t.IsUtf8) :
    TextsUtf8In (tokenOfMarkup t).nodes := by
  obtain ⟨lexeme, span⟩ := t
  have hplain {value : Text} (hvalue : value.isUtf8 = true) : TextsUtf8In
      (if value.isEmpty then Draft.empty else .ofNode (.text value (some span))).nodes := by
    split
    · trivial
    · exact ⟨hvalue, trivial⟩
  cases lexeme with
  | text value =>
    have hcontent : (Markup.Lexeme.text value).content = value := List.append_nil value
    simp only [tokenOfMarkup, hcontent]
    exact hplain ht
  | rawText value =>
    have hcontent : (Markup.Lexeme.rawText value).content = value := List.append_nil value
    simp only [tokenOfMarkup, hcontent]
    exact hplain ht
  | interpolation source =>
    simp only [tokenOfMarkup, expressionOfMarkup]
    split
    · trivial
    · split
      · trivial
      · exact ⟨trivial, trivial⟩
  | _ => cases ht

theorem tokensOfMarkup_textsUtf8 {tokens : List Markup.Token} (htokens : ∀ t ∈ tokens, t.IsUtf8) :
    TextsUtf8In (tokensOfMarkup tokens).nodes := by
  induction tokens with
  | nil => trivial
  | cons t rest ih =>
    exact textsUtf8In_append (tokenOfMarkup_textsUtf8 (htokens t List.mem_cons_self))
      (ih fun u hu => htokens u (List.mem_cons_of_mem t hu))

theorem iterationOfMarkup_textsUtf8 {body : Draft} (hbody : TextsUtf8In body.nodes)
    (loop : Option Loop × List Diagnostic) (span : Span) :
    TextsUtf8In (iterationOfMarkup loop body span).nodes := by
  rw [iterationOfMarkup]
  split
  · trivial
  · exact ⟨textsUtf8In_mergeTexts hbody, trivial⟩

theorem conditionalOfMarkup_textsUtf8 {consequent : Draft} {alternate : Option Alternate}
    (hconsequent : TextsUtf8In consequent.nodes)
    (halternate : ∀ a ∈ alternate, TextsUtf8In a.content.nodes)
    (test : Option Path × List Diagnostic) (elses : List Diagnostic) (span : Span) :
    TextsUtf8In (conditionalOfMarkup test elses consequent alternate span).nodes := by
  rw [conditionalOfMarkup]
  split
  · trivial
  · refine ⟨⟨textsUtf8In_mergeTexts hconsequent, ?_⟩, trivial⟩
    cases alternate with
    | none => trivial
    | some a => exact textsUtf8In_mergeTexts (halternate a rfl)

mutual

theorem nodesOfMarkup_textsUtf8 (skip : Nat) (nodes : List Markup.Node)
    (hnodes : Markup.TextsUtf8In nodes) : TextsUtf8In (nodesOfMarkup skip nodes).nodes := by
  match skip, nodes with
  | skip, [] =>
    rw [nodesOfMarkup]
    trivial
  | skip + 1, n :: rest =>
    rw [nodesOfMarkup]
    exact nodesOfMarkup_textsUtf8 skip rest hnodes.2
  | 0, .element name attrs children selfClosing spans :: rest =>
    rw [nodesOfMarkup]
    have hcontent := nodesOfMarkup_textsUtf8 0 children hnodes.1
    exact textsUtf8In_append ⟨textsUtf8In_mergeTexts hcontent, trivial⟩
      (nodesOfMarkup_textsUtf8 0 rest hnodes.2)
  | 0, .text value tokens span :: rest =>
    rw [nodesOfMarkup]
    exact textsUtf8In_append (tokensOfMarkup_textsUtf8 hnodes.1)
      (nodesOfMarkup_textsUtf8 0 rest hnodes.2)
  | 0, .comment body span :: rest =>
    rw [nodesOfMarkup]
    exact nodesOfMarkup_textsUtf8 0 rest hnodes.2
  | 0, .block name parameters children spans :: rest =>
    have hchildren := nodesOfMarkup_textsUtf8 0 children hnodes.1
    rw [nodesOfMarkup]
    split
    · exact textsUtf8In_append (conditionalOfMarkup_textsUtf8 hchildren
        (alternateOfMarkup_textsUtf8 rest hnodes.2) _ _ _)
        (nodesOfMarkup_textsUtf8 (connectedCount 0 rest) rest hnodes.2)
    · split
      · exact textsUtf8In_append (iterationOfMarkup_textsUtf8 hchildren _ _)
          (nodesOfMarkup_textsUtf8 0 rest hnodes.2)
      · exact textsUtf8In_append trivial (nodesOfMarkup_textsUtf8 0 rest hnodes.2)

theorem alternateOfMarkup_textsUtf8 (nodes : List Markup.Node) (hnodes : Markup.TextsUtf8In nodes) :
    ∀ a ∈ alternateOfMarkup? nodes, TextsUtf8In a.content.nodes := by
  match nodes with
  | [] =>
    rw [alternateOfMarkup?]
    intro a ha
    cases ha
  | .comment body span :: rest =>
    rw [alternateOfMarkup?]
    exact alternateOfMarkup_textsUtf8 rest hnodes.2
  | .text value tokens span :: rest =>
    rw [alternateOfMarkup?]
    split
    · exact alternateOfMarkup_textsUtf8 rest hnodes.2
    · intro a ha
      cases ha
  | .block name parameters children spans :: rest =>
    rw [alternateOfMarkup?]
    split
    · intro a ha
      cases ha
      exact nodesOfMarkup_textsUtf8 0 children hnodes.1
    · intro a ha
      cases ha
  | .element .. :: rest =>
    rw [alternateOfMarkup?]
    intro a ha
    cases ha

end

theorem ofMarkup_textsUtf8 {nodes : List Markup.Node} (hnodes : Markup.TextsUtf8In nodes) :
    (ofMarkup nodes).root.TextsUtf8 :=
  textsUtf8In_mergeTexts (nodesOfMarkup_textsUtf8 0 nodes hnodes)

mutual

/-- In texts in UTF-8 one pass drops all blanks. -/
theorem Node.erased_dropBlanks {node : Node} (hnode : node.TextsUtf8) :
    node.unplaced.erased Text.dropBlanks = node.unplaced.erased Text.ink := by
  match node with
  | .block children _ =>
    rw [Node.unplaced, Node.erased, Node.erased, erasedAll_dropBlanks hnode]
  | .element name attrs content selfClosing spans =>
    rw [Node.unplaced, Node.erased, Node.erased, erasedAll_dropBlanks hnode]
  | .text value span =>
    rw [Node.unplaced, Node.erased, Node.erased, Text.dropBlanks_eq_ink hnode]
  | .expression path span => rfl
  | .conditional test consequent alternate spans =>
    rw [Node.unplaced, Node.erased, Node.erased, erasedAll_dropBlanks hnode.1,
      erasedAlternate_dropBlanks hnode.2]
  | .iteration collection key value body spans =>
    rw [Node.unplaced, Node.erased, Node.erased, erasedAll_dropBlanks hnode]
  | .hole => rfl
  | .foreign kind typeName span => rfl

theorem erasedAlternate_dropBlanks {alternate : Option (List Node)}
    (halternate : TextsUtf8Alternate alternate) :
    erasedAlternate Text.dropBlanks (unplacedAlternate alternate) =
      erasedAlternate Text.ink (unplacedAlternate alternate) := by
  match alternate with
  | none => rfl
  | some nodes =>
    rw [unplacedAlternate, erasedAlternate, erasedAlternate, erasedAll_dropBlanks halternate]

theorem erasedAll_dropBlanks {nodes : List Node} (hnodes : TextsUtf8In nodes) :
    erasedAll Text.dropBlanks (unplacedAll nodes) = erasedAll Text.ink (unplacedAll nodes) := by
  match nodes with
  | [] => rfl
  | node :: rest =>
    rw [unplacedAll, erasedAll, erasedAll, Node.erased_dropBlanks hnodes.1,
      erasedAll_dropBlanks hnodes.2]

end

end Template

/-! ### Sources -/

/-- A source that is accepted with its blanks is accepted without them. The two templates differ in their
places and their blanks only: they become equal when the blanks of every text are dropped until there are
none, and for a source in UTF-8 when they are dropped once. -/
theorem removing_blanks_inert (o : Options) (text : Text) (root : Template.Node)
    (hparse : parse { o with preserve := true } text = .ok root) :
    ∃ trimmed, parse { o with preserve := false } text = .ok trimmed ∧
      trimmed.unplaced.erased Text.dropAllBlanks = root.unplaced.erased Text.dropAllBlanks ∧
      (text.isUtf8 = true →
        trimmed.unplaced.erased Text.dropBlanks = root.unplaced.erased Text.dropBlanks) := by
  obtain ⟨htree, htemplate, rfl⟩ := parse_eq_ok_iff.mp hparse
  change (Template.ofMarkup (Markup.Tree.ofText ⟨false⟩ text).nodes).diagnostics = [] at htemplate
  have hadjoin := Template.elsesAdjoin_of_ofMarkup htemplate
  obtain ⟨hsame, hdiagnostics⟩ := Template.ofMarkup_removeBlanks hadjoin
  rw [hdiagnostics] at htemplate
  refine ⟨_, parse_eq_ok_iff.mpr ⟨htree, htemplate, rfl⟩, ?_, ?_⟩
  · rw [funext Text.dropAllBlanks_eq_ink]
    exact hsame.symm
  · intro hutf8
    have htexts := @Markup.Tree.ofText_textsUtf8 ⟨false⟩ text hutf8
    have hkept := Template.ofMarkup_textsUtf8 htexts
    have hremoved := Template.ofMarkup_textsUtf8 (Markup.removeBlanks_textsUtf8 htexts)
    exact (Template.Node.erased_dropBlanks hremoved).trans
      (hsame.symm.trans (Template.Node.erased_dropBlanks hkept).symm)

/-- A list with blanks of several kinds, before and behind an `else` block too. -/
def spacedList : Text :=
  "<ul>\n  @if (a) \x7b\n <li> x   y\x7b\x7b b \x7d\x7d</li> \x7d <!-- n -->\t@else \x7b z \x7d\n</ul>"

theorem spacedList_inert :
    ∃ root, parse ⟨[], true, []⟩ spacedList = .ok root ∧
      ∃ trimmed, parse ⟨[], false, []⟩ spacedList = .ok trimmed ∧
        trimmed.unplaced.erased Text.dropAllBlanks = root.unplaced.erased Text.dropAllBlanks ∧
        trimmed.unplaced.erased Text.dropBlanks = root.unplaced.erased Text.dropBlanks := by
  have hok : (parse ⟨[], true, []⟩ spacedList).isOk = true := by
    decide +kernel
  obtain ⟨htree, htemplate⟩ := isOk_parse_iff.mp hok
  have hroot := parse_eq_ok_iff.mpr ⟨htree, htemplate, rfl⟩
  obtain ⟨trimmed, htrimmed, hall, hone⟩ := removing_blanks_inert .default spacedList _ hroot
  exact ⟨_, hroot, trimmed, htrimmed, hall, hone (by decide +kernel)⟩

/-- The bytes of U+2000 with comments and a blank in between. -/
def cutCharacter : Text := 0xE2 :: Text.ofString "<!----> <!---->" ++ [0x80, 0x80]

theorem cutCharacter_texts :
    (parse ⟨[], true, []⟩ cutCharacter).toOption.map
        (fun root => Template.printAll (root.unplaced.erased Text.dropBlanks)) =
          some [0xE2, 0x80, 0x80] ∧
      (parse ⟨[], false, []⟩ cutCharacter).toOption.map
        (fun root => Template.printAll (root.unplaced.erased Text.dropBlanks)) = some [] := by
  decide +kernel

/-- Without UTF-8 one pass is not enough: what is left of one template is a blank of the other. -/
theorem cutCharacter_not_inert :
    ¬ ∀ root, parse ⟨[], true, []⟩ cutCharacter = .ok root →
      ∃ trimmed, parse ⟨[], false, []⟩ cutCharacter = .ok trimmed ∧
        trimmed.unplaced.erased Text.dropBlanks = root.unplaced.erased Text.dropBlanks := by
  intro hinert
  obtain ⟨hkept, hremoved⟩ := cutCharacter_texts
  cases hparse : parse ⟨[], true, []⟩ cutCharacter with
  | error e =>
    rw [hparse] at hkept
    cases hkept
  | ok root =>
    obtain ⟨trimmed, htrimmed, hsame⟩ := hinert root hparse
    rw [hparse] at hkept
    rw [htrimmed] at hremoved
    have hnone : Template.printAll (trimmed.unplaced.erased Text.dropBlanks) = [] :=
      Option.some.inj hremoved
    have hsome : Template.printAll (root.unplaced.erased Text.dropBlanks) = [0xE2, 0x80, 0x80] :=
      Option.some.inj hkept
    rw [hsame, hsome] at hnone
    cases hnone

end Stencil
