import Stencil.Html.Serialize
import Stencil.Html.Writer
import Stencil.Proofs.BlankRemoval
import Stencil.Proofs.Lowering
import Stencil.Proofs.RoundTrip
import Stencil.Proofs.TokenGrammar

/-!
# The content of `script` and `style`

The content of these elements is read verbatim: up to the end tag nothing in it is markup, a reference or
an interpolation, and no blank of it is removed. It stays a text like any other in the template and in the
instructions, and so HTML is written with it escaped. `verbatim_content_escaped` follows a source with one
such element through all steps; what is written is the source exactly if the content has no byte that is
escaped. A document made of the same instructions is serialized as the source in any case.
-/

namespace Stencil

namespace Markup

open Template (byteChar char_ascii byteChar_toNat IsWord)

/-- Whether the end tag of element `name` begins anywhere in these glyphs. -/
def hasEndTag (name : Text) : List Glyph → Bool
  | [] => false
  | g :: gs => beginsEndTag name (g :: gs) || hasEndTag name gs

/-- The glyphs of an end tag. -/
def endTagGlyphs (name : Text) : List Glyph :=
  Glyph.ascii 0x3C :: Glyph.ascii 0x2F :: (name.map Glyph.ascii ++ [Glyph.ascii 0x3E])

/-- The name of an element whose content is kept verbatim. -/
def IsVerbatimName (name : Text) : Prop := name = Text.ofString "script" ∨ name = Text.ofString "style"

variable {name : Text}

theorem IsVerbatimName.isVoidName_eq_false (hname : IsVerbatimName name) : isVoidName name = false := by
  rcases hname with rfl | rfl <;> decide

/-! ### Reading -/

/-- A `<` behind a name that is not complete does not complete it, and behind a complete one it ends it. -/
theorem closesName_append {codes : List Nat} (hcodes : ∀ n ∈ codes, upperCode n ≠ 0x3C)
    (gs rest : List Glyph) : closesName codes (gs ++ Glyph.ascii 0x3C :: rest) = closesName codes gs := by
  induction codes generalizing gs with
  | nil =>
    cases gs with
    | nil => rfl
    | cons g gs => rfl
  | cons n codes ih =>
    obtain ⟨hn, hcodes⟩ := List.forall_mem_cons.mp hcodes
    cases gs with
    | nil =>
      have hother : (upperCode (Glyph.ascii 0x3C).char.toNat == upperCode n) = false :=
        beq_eq_false_iff_ne.mpr fun heq => hn heq.symm
      exact Bool.and_eq_false_iff.mpr (.inl hother)
    | cons g gs => rw [List.cons_append, closesName, closesName, ih hcodes]

theorem beginsEndTag_append (hname : ∀ n ∈ name.map UInt8.toNat, upperCode n ≠ 0x3C) (g : Glyph)
    (gs rest : List Glyph) :
    beginsEndTag name (g :: gs ++ Glyph.ascii 0x3C :: rest) = beginsEndTag name (g :: gs) := by
  cases gs with
  | nil =>
    have hless : ((Glyph.ascii 0x3C).char == '/') = false := by decide
    rw [List.cons_append, List.nil_append, beginsEndTag, hless, Bool.and_false, Bool.false_and]
    rfl
  | cons h gs =>
    rw [List.cons_append, List.cons_append, beginsEndTag, beginsEndTag, closesName_append hname]

theorem closesName_self (name : Text) (rest : List Glyph) :
    closesName (name.map UInt8.toNat) (name.map Glyph.ascii ++ Glyph.ascii 0x3E :: rest) = true := by
  induction name with
  | nil => rfl
  | cons b name ih =>
    rw [List.map_cons, List.map_cons, List.cons_append, closesName, ih, char_ascii, byteChar_toNat,
      beq_self_eq_true]
    rfl

theorem seek_endTag (hname : ∀ n ∈ name.map UInt8.toNat, upperCode n ≠ 0x3C) {gs : List Glyph}
    (hgs : hasEndTag name gs = false) (p : Position) :
    Cursor.seek (beginsEndTag name) ⟨gs ++ endTagGlyphs name, p⟩ =
      ⟨endTagGlyphs name, p.afterAll gs⟩ := by
  rw [Cursor.seek]
  induction gs generalizing p with
  | nil =>
    have hhere : beginsEndTag name (endTagGlyphs name) = true := closesName_self name []
    rw [endTagGlyphs] at hhere
    rw [List.nil_append, endTagGlyphs, Cursor.seekFrom, if_pos hhere]
    rfl
  | cons g gs ih =>
    obtain ⟨hnot, hgs⟩ := Bool.or_eq_false_iff.mp hgs
    have hpassed : beginsEndTag name (g :: gs ++ endTagGlyphs name) = false :=
      (beginsEndTag_append hname g gs _).trans hnot
    dsimp only at ih ⊢
    rw [List.cons_append] at hpassed ⊢
    rw [Cursor.seekFrom, if_neg (by simp [hpassed]), ih hgs]
    rfl

section Content

variable {content : Text} (hcontent : content ≠ []) (hcr : 0x0D ∉ content)
  (hend : hasEndTag name content.glyphs = false)
include hcontent hcr hend

theorem Scan.rawText_gives (options : ScanOptions)
    (hname : ∀ n ∈ name.map UInt8.toNat, upperCode n ≠ 0x3C) (p : Position) :
    (Scan.rawText options name ⟨content.glyphs ++ endTagGlyphs name, p⟩).Gives [.rawText content]
      ⟨endTagGlyphs name, p.afterAll content.glyphs⟩ := by
  have hlines : Scan.lineEndings options content = content := by
    rw [Scan.lineEndings]
    split
    · rfl
    · exact Template.normalizeLineEndings_of_not_mem hcr
  rw [Scan.rawText, seek_endTag hname hend, Cursor.textTo_append, Text.ofGlyphs_glyphs,
    if_neg (by simpa using hcontent), hlines]
  exact Scan.gives_done _ _

end Content

end Markup

/-! ### Writing -/

namespace Html

/-- The bytes that are not written as they are: the quotes, `&`, `<`, `>` and NUL. -/
def escapedBytes : List UInt8 := [0x22, 0x26, 0x27, 0x3C, 0x3E, 0]

theorem escapeByte_of_not_mem {b : UInt8} (hb : b ∉ escapedBytes) : escapeByte b = [b] := by
  simp only [escapedBytes, List.mem_cons, List.not_mem_nil, or_false, not_or] at hb
  simp [escapeByte, hb]

theorem one_lt_length_escapeByte {b : UInt8} (hb : b ∈ escapedBytes) : 1 < (escapeByte b).length := by
  simp only [escapedBytes, List.mem_cons, List.not_mem_nil, or_false] at hb
  rcases hb with rfl | rfl | rfl | rfl | rfl | rfl <;> decide

theorem length_le_length_escape (t : Text) : t.length ≤ (escape t).length := by
  induction t with
  | nil => exact Nat.le_refl _
  | cons b t ih =>
    have hbyte : 1 ≤ (escapeByte b).length := by
      by_cases hb : b ∈ escapedBytes
      · exact Nat.le_of_lt (one_lt_length_escapeByte hb)
      · rw [escapeByte_of_not_mem hb]
        exact Nat.le_refl 1
    rw [escape, List.flatMap_cons, List.length_append, List.length_cons, Nat.add_comm]
    exact Nat.add_le_add hbyte ih

/-- A byte that is escaped makes the text longer, and none makes it shorter. -/
theorem escape_eq_self_iff {t : Text} : escape t = t ↔ ∀ b ∈ t, b ∉ escapedBytes := by
  induction t with
  | nil => exact iff_of_true rfl (List.forall_mem_nil _)
  | cons b t ih =>
    have hcons : escape (b :: t) = escapeByte b ++ escape t := List.flatMap_cons
    rw [hcons, List.forall_mem_cons, ← ih]
    by_cases hb : b ∈ escapedBytes
    · have hlonger : (b :: t).length < (escapeByte b ++ escape t).length := by
        rw [List.length_append, List.length_cons, Nat.add_comm]
        exact Nat.add_lt_add_of_lt_of_le (one_lt_length_escapeByte hb) (length_le_length_escape t)
      exact iff_of_false (fun heq => Nat.ne_of_gt hlonger (congrArg List.length heq)) fun h => h.1 hb
    · rw [escapeByte_of_not_mem hb, List.cons_append, List.nil_append, List.cons_inj_right, and_iff_right hb]

theorem Output.ofText_append (a b : Text) : Output.ofText a ++ Output.ofText b = .ofText (a ++ b) := rfl

end Html

/-- An element around a text. -/
def enclosed (name content : Text) : Text := "<" ++ name ++ ">" ++ content ++ ("</" ++ name ++ ">")

section Content

open Markup (IsVerbatimName hasEndTag endTagGlyphs)

variable {name : Text}

theorem glyphs_endTag (hname : Template.IsWord name) :
    (Text.ofString "</" ++ name ++ Text.ofString ">").glyphs = endTagGlyphs name := by
  change Text.glyphs (0x3C :: 0x2F :: (name ++ [0x3E])) = _
  rw [Text.glyphs_cons_ascii (by decide), Text.glyphs_cons_ascii (by decide),
    Text.glyphs_ascii_append hname.isAscii]
  rfl

theorem glyphs_enclosed (hname : Template.IsWord name) (content : Text) :
    (enclosed name content).glyphs =
      Glyph.ascii 0x3C :: (name.map Glyph.ascii ++ Glyph.ascii 0x3E :: content.glyphs) ++
        (Text.ofString "</" ++ name ++ Text.ofString ">").glyphs := by
  have hsource : enclosed name content = 0x3C :: (name ++ 0x3E :: (content ++
      (Text.ofString "</" ++ name ++ Text.ofString ">"))) := by
    have hopen : Text.ofString "<" = [0x3C] := rfl
    have hclose : Text.ofString ">" = [0x3E] := rfl
    simp [enclosed, hopen, hclose]
  -- The content may end within a character: what follows must not complete it.
  have hcut : ∀ c ∈ (Text.ofString "</" ++ name ++ Text.ofString ">").head?, c < 0x80 := by
    intro c hc
    obtain rfl : (0x3C : UInt8) = c := Option.some.inj hc
    decide
  rw [hsource, Text.glyphs_cons_ascii (by decide), Text.glyphs_ascii_append hname.isAscii,
    Text.glyphs_cons_ascii (by decide), Text.glyphs_append content hcut]
  simp

variable (hname : IsVerbatimName name)
include hname

theorem compile_verbatim (key content : Text) (span : Option Span) (spans : Template.ElementSpans)
    (whole : Option Span) :
    ∃ program, Program.compile key (.block [.element name [] [.text content span] false spans] whole) =
      .ok program ∧ ∀ context,
        Program.run program context = [.open ⟨name, [], [], []⟩, .text content, .close name] := by
  refine ⟨[.open name .empty spans.startTag, .literal content span,
    .close name (spans.endTag.or spans.startTag)], ?_, fun context => rfl⟩
  have hops : Program.compileNode key .none
      (.block [.element name [] [.text content span] false spans] whole) =
        .ok [.open name .empty spans.startTag, .literal content span,
          .close name (spans.endTag.or spans.startTag)] := by
    rw [Program.compileNode, Program.compileNodes, Program.compileNode, hname.isVoidName_eq_false]
    rfl
  refine Program.compile_eq_ok.mpr ⟨_, hops, ?_⟩
  simp [Program.finish, Program.prune?, Program.checkBalance, Except.map]

variable {content : Text} (hcontent : content ≠ []) (hcr : 0x0D ∉ content)
  (hend : hasEndTag name content.glyphs = false)
include hcontent

theorem ofTokens_verbatim (opened ended inner closed stop : Span) :
    ∃ spans, Markup.Tree.ofTokens [⟨.tagOpenStart name, opened⟩, ⟨.tagOpenEnd, ended⟩,
        ⟨.rawText content, inner⟩, ⟨.tagClose name, closed⟩, ⟨.eof, stop⟩] =
      ⟨[.element name [] [.text content [⟨.rawText content, inner⟩] (inner.to inner)] false spans], []⟩ := by
  refine ⟨⟨(opened.to ended).to closed, opened.to ended, some closed⟩, ?_⟩
  have hpieces : Markup.Piece.ofTokens [⟨.tagOpenStart name, opened⟩, ⟨.tagOpenEnd, ended⟩,
      ⟨.rawText content, inner⟩, ⟨.tagClose name, closed⟩, ⟨.eof, stop⟩] =
        [.startTag name [] .opening (opened.to ended), .text ⟨.rawText content, inner⟩ [],
          .endTag name closed] := rfl
  have hvalue : Markup.Lexeme.content (.rawText content) = content := List.append_nil content
  rw [Markup.Tree.ofTokens, hpieces]
  simp [Markup.Nest.step, hname.isVoidName_eq_false, Markup.Nest.push, Markup.Nest.addText,
    Markup.Nest.firstToken, hvalue, hcontent, Markup.Nest.add, Markup.Nest.close, Markup.Nest.closeTo,
    Markup.Container.isElement, Markup.Nest.empty, Markup.Tree.ofNest, Markup.Nest.closeAll, Markup.Frame.toNode, Markup.Frame.add,
    Markup.Container.toNode, Markup.Container.opening]

theorem ofMarkup_verbatim (span textSpan : Span) (spans : Markup.ElementSpans) :
    ∃ places whole, Template.ofMarkup
        [.element name [] [.text content [⟨.rawText content, span⟩] textSpan] false spans] =
      ⟨.block [.element name [] [.text content (some span)] false places] whole, []⟩ := by
  have htext : Template.tokensOfMarkup [⟨.rawText content, span⟩] = ⟨[.text content (some span)], []⟩ := by
    have hvalue : Markup.Lexeme.content (.rawText content) = content := List.append_nil content
    rw [Template.tokensOfMarkup, Template.tokensOfMarkup, Template.tokenOfMarkup]
    dsimp only
    rw [hvalue, if_neg (by simpa using hcontent)]
    rfl
  rw [Template.ofMarkup, Template.nodesOfMarkup, Template.nodesOfMarkup, Template.nodesOfMarkup, htext,
    Template.nodesOfMarkup, Template.elementOfMarkup, hname.isVoidName_eq_false]
  exact ⟨_, _, rfl⟩

include hcr hend

theorem scanned_enclosed (options : Markup.ScanOptions) :
    Template.Scanned options (enclosed name content)
      [.tagOpenStart name, .tagOpenEnd, .rawText content, .tagClose name, .eof] := by
  have hword : Template.IsWord name := by
    rcases hname with rfl | rfl <;> exact ⟨by decide, List.all_eq_true.mp rfl⟩
  have hcodes : ∀ n ∈ name.map UInt8.toNat, Markup.upperCode n ≠ 0x3C := by
    rcases hname with rfl | rfl <;> decide
  have hraw : (Markup.Tag.ofName name).content = .raw := by
    rcases hname with rfl | rfl <;> decide
  obtain ⟨b, more, rfl, hletter⟩ : ∃ b more, name = b :: more ∧
      CharClass.isLetter (Template.byteChar b) = true := by
    rcases hname with rfl | rfl <;> exact ⟨_, _, rfl, by decide⟩
  have hfirst : CharClass.isLetter (Glyph.ascii b).char = true := by
    rw [Template.char_ascii]
    exact hletter
  have hbehind := Template.Scanned.endTag hword (@Template.Scanned.nil options)
  rw [List.append_nil] at hbehind
  refine Template.Scanned.construct [.tagOpenStart (b :: more), .tagOpenEnd, .rawText content]
    (glyphs_enclosed hword content) ?_ (by decide) ?_ hbehind
  · exact Template.Scanned.endsText_of_beginsTag (Template.Scanned.beginsTag_letter hfirst _)
  · intro p
    have hverbatim := Markup.Scan.rawText_gives hcontent hcr hend options hcodes
      (((p.afterAll [Glyph.ascii 0x3C]).afterAll ((b :: more).map Glyph.ascii)).afterAll
        [Glyph.ascii 0x3E])
    have hread := @Markup.Scan.startTag_of_content options more
      (Glyph.ascii 0x3E :: (content.glyphs ++ endTagGlyphs (b :: more))) b hletter hword
      (by simp; decide) ⟨Glyph.ascii 0x3C :: ((b :: more).map Glyph.ascii ++
        Glyph.ascii 0x3E :: (content.glyphs ++ endTagGlyphs (b :: more))), p⟩
      (p.afterAll [Glyph.ascii 0x3C]) [] [.tagOpenEnd] [.rawText content] _ _ _
      (Markup.Scan.attrs_end (.inl rfl) _ _) (Markup.Scan.startTagEnd_open _) (by
        rw [hraw]
        exact hverbatim)
    have hposition : p.afterAll (Glyph.ascii 0x3C :: ((b :: more).map Glyph.ascii ++
        Glyph.ascii 0x3E :: content.glyphs)) =
        (((p.afterAll [Glyph.ascii 0x3C]).afterAll ((b :: more).map Glyph.ascii)).afterAll
          [Glyph.ascii 0x3E]).afterAll content.glyphs := by
      rw [← Position.afterAll_append, ← Position.afterAll_append, ← Position.afterAll_append]
      simp
    rw [glyphs_endTag hword, hposition, List.cons_append, List.append_assoc, List.cons_append,
      List.map_cons, List.cons_append, Markup.Scan.next_startTag hfirst]
    exact hread

theorem tree_enclosed (options : Markup.ScanOptions) :
    ∃ span spans, Markup.Tree.ofText options (enclosed name content) =
      ⟨[.element name [] [.text content [⟨.rawText content, span⟩] (span.to span)] false spans], []⟩ := by
  have hscanned := scanned_enclosed hname hcontent hcr hend options
  obtain ⟨hlexemes, hproblems⟩ := hscanned.reads .origin _ (Nat.le_refl _)
  obtain ⟨opened, named, htokens, hnamed⟩ := Markup.Piece.eq_cons_of_map_lexeme hlexemes
  obtain ⟨ended, tagged, rfl, htagged⟩ := Markup.Piece.eq_cons_of_map_lexeme hnamed
  obtain ⟨inner, filled, rfl, hfilled⟩ := Markup.Piece.eq_cons_of_map_lexeme htagged
  obtain ⟨closed, behind, rfl, hbehind⟩ := Markup.Piece.eq_cons_of_map_lexeme hfilled
  obtain ⟨stop, nothing, rfl, hnothing⟩ := Markup.Piece.eq_cons_of_map_lexeme hbehind
  obtain rfl := List.map_eq_nil_iff.mp hnothing
  obtain ⟨spans, htree⟩ := ofTokens_verbatim hname hcontent opened ended inner closed stop
  refine ⟨inner, spans, ?_⟩
  have hstream : (Markup.TokenStream.ofText options (enclosed name content)).tokens = _ := htokens
  have hnone : (Markup.TokenStream.ofText options (enclosed name content)).diagnostics = [] := hproblems
  rw [Markup.Tree.ofText, hstream, hnone, htree]
  rfl

theorem parse_enclosed (o : Options) :
    ∃ span spans whole, parse o (enclosed name content) =
      .ok (.block [.element name [] [.text content (some span)] false spans] whole) := by
  obtain ⟨span, spans, htree⟩ := tree_enclosed hname hcontent hcr hend ⟨false⟩
  obtain ⟨places, whole, hread⟩ := ofMarkup_verbatim hname hcontent span (span.to span) spans
  have hkept : Markup.keepsBlanks name = true := by
    rcases hname with rfl | rfl <;> decide
  have htreat : o.treat [.element name [] [.text content [⟨.rawText content, span⟩] (span.to span)] false
      spans] = [.element name [] [.text content [⟨.rawText content, span⟩] (span.to span)] false spans] := by
    rw [Options.treat]
    split
    · rfl
    · simp [Markup.removeBlanks, Markup.Node.removeBlanks, hkept]
  refine ⟨span, places, whole, parse_eq_ok_iff.mpr ?_⟩
  rw [htree, htreat, hread]
  exact ⟨rfl, rfl, rfl⟩

theorem compile_enclosed (o : Options) :
    ∃ program, compile o (enclosed name content) = .ok program ∧ ∀ context,
      Program.run program context = [.open ⟨name, [], [], []⟩, .text content, .close name] := by
  obtain ⟨span, spans, whole, hparse⟩ := parse_enclosed hname hcontent hcr hend o
  obtain ⟨program, hprogram, hrun⟩ := compile_verbatim hname o.key content (some span) spans whole
  refine ⟨program, ?_, hrun⟩
  rw [compile, hparse]
  dsimp only
  rw [hprogram]

end Content

section Output

variable {name : Text} (hname : Markup.IsVerbatimName name)
include hname

theorem render_enclosed (content keyAttr : Text) :
    ([.open ⟨name, [], [], []⟩, .text content, .close name].foldl Html.Writer.step
      (.new keyAttr)).render = .ok (enclosed name (Html.escape content)) := by
  have hplain : Html.isPlainVoid name = false := by
    rcases hname with rfl | rfl <;> decide
  simp [Html.Writer.step, Html.Writer.add, Html.Writer.new, Html.Writer.attrsOf, Html.Writer.render,
    Html.Writer.imbalance?, Html.Writer.nodes, Html.writeAll, Html.Node.write, Html.writeElement, hplain,
    enclosed]

theorem document_enclosed (content : Text) :
    ([.open ⟨name, [], [], []⟩, .text content, .close name].foldl Html.Document.step
      .empty).render = (enclosed name content, none) := by
  have hvoid : Html.isOneOf Html.voidTags name = false := by
    rcases hname with rfl | rfl <;> decide
  have hraw : Html.isOneOf Html.rawTags name = true := by
    rcases hname with rfl | rfl <;> decide
  have hfeed : Html.isOneOf Html.lineFeedTags name = false := by
    rcases hname with rfl | rfl <;> decide
  have hplaintext : (Text.ofString "plaintext" == name) = false := by
    rcases hname with rfl | rfl <;> decide
  have hnode : (Html.Node.element name [] [.text content]).serialize false =
      .ofText (enclosed name content) := by
    rw [Html.Node.serialize, hvoid, hraw, hplaintext, Html.serializeAll, Html.Node.serialize,
      Html.serializeAll]
    simp [Html.Output.ofText_append, Html.guardLineFeed, hfeed, Html.startTag, enclosed]
  have hbuilt : ([.open ⟨name, [], [], []⟩, .text content, .close name].foldl Html.Document.step
      .empty).render = Html.serializeTop [.element name [] [.text content]] := by
    simp [Html.Document.step, Html.Document.add, Html.Document.itemOf, Html.Document.empty,
      Html.Item.appendAt, Html.Item.mapLast, Html.Item.mapChildren, Html.Document.render,
      Html.Document.imbalance?, Html.Item.toNodes, Html.Item.toNode]
  rw [hbuilt, Html.serializeTop, hnode]
  exact Prod.ext (List.append_nil _) rfl

end Output

theorem enclosed_inj {name content other : Text} :
    enclosed name content = enclosed name other ↔ content = other := by
  simp [enclosed]

/-- A source with one element whose content is verbatim compiles, and in every context HTML is written with
the content escaped: it is the source exactly if no byte of the content is one that is escaped. A document
is always serialized as the source. -/
theorem verbatim_content_escaped {name content : Text} (hname : Markup.IsVerbatimName name)
    (hcontent : content ≠ []) (hcr : 0x0D ∉ content) (hend : Markup.hasEndTag name content.glyphs = false)
    (o : Options) :
    ∃ program, compile o (enclosed name content) = .ok program ∧ ∀ context keyAttr,
      let instructions := Program.run program context
      let written := (instructions.foldl Html.Writer.step (.new keyAttr)).render
      written = .ok (enclosed name (Html.escape content)) ∧
        (written = .ok (enclosed name content) ↔ ∀ b ∈ content, b ∉ Html.escapedBytes) ∧
        (instructions.foldl Html.Document.step .empty).render = (enclosed name content, none) := by
  obtain ⟨program, hprogram, hrun⟩ := compile_enclosed hname hcontent hcr hend o
  refine ⟨program, hprogram, fun context keyAttr => ?_⟩
  dsimp only
  rw [hrun context, render_enclosed hname]
  refine ⟨rfl, ?_, document_enclosed hname content⟩
  rw [Except.ok.injEq, enclosed_inj, Html.escape_eq_self_iff]

/-- A string with tags and braces in it is read as it is, and is written with its quotes and tags escaped. -/
theorem script_string_escaped :
    Markup.hasEndTag "script" (Text.glyphs "b = '<p>\x7bx\x7d</p>'") = false ∧
    ∃ program, compile .default (enclosed "script" "b = '<p>\x7bx\x7d</p>'") = .ok program ∧
      ∀ context keyAttr, ((Program.run program context).foldl Html.Writer.step (.new keyAttr)).render =
        .ok (enclosed "script" "b = &#39;&lt;p&gt;\x7bx\x7d&lt;/p&gt;&#39;") := by
  have hend : Markup.hasEndTag "script" (Text.glyphs "b = '<p>\x7bx\x7d</p>'") = false := by decide +kernel
  have hescaped : Html.escape "b = '<p>\x7bx\x7d</p>'" = "b = &#39;&lt;p&gt;\x7bx\x7d&lt;/p&gt;&#39;" := by
    decide +kernel
  obtain ⟨program, hprogram, hwritten⟩ := @verbatim_content_escaped "script" "b = '<p>\x7bx\x7d</p>'"
    (.inl rfl) (by decide) (by decide) hend .default
  refine ⟨hend, program, hprogram, fun context keyAttr => ?_⟩
  rw [← hescaped]
  exact (hwritten context keyAttr).1

/-- A comparison in a `script` does not come through. -/
theorem script_comparison_not_verbatim :
    Markup.hasEndTag "script" (Text.glyphs "a<b") = false ∧
    ∃ program, compile .default (enclosed "script" "a<b") = .ok program ∧
      ∀ context keyAttr, ((Program.run program context).foldl Html.Writer.step (.new keyAttr)).render ≠
        .ok (enclosed "script" "a<b") := by
  have hname : Markup.IsVerbatimName "script" := .inl rfl
  have hend : Markup.hasEndTag "script" (Text.glyphs "a<b") = false := by decide +kernel
  obtain ⟨program, hprogram, hrun⟩ := compile_enclosed hname (by decide) (by decide) hend .default
  refine ⟨hend, program, hprogram, fun context keyAttr hwritten => ?_⟩
  rw [hrun context, render_enclosed hname, Except.ok.injEq, enclosed_inj] at hwritten
  exact Html.escape_eq_self_iff.mp hwritten 0x3C (by decide) (by decide)

end Stencil
