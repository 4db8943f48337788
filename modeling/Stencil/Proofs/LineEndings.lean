import Stencil.Compiler
import Stencil.Proofs.JoinedLines
import Stencil.Proofs.Listing

/-!
# Line endings do not matter

Joining the lines of a source joins them in its expressions, and that is seen nowhere: a path with a
line ending inside it is no path either way, and around it and in the header of a loop all line endings
are blanks. So a source is read, and compiled, as it is with its lines joined.
-/

namespace Stencil

open Glyph (joinLines)

/-! ### Paths -/

namespace Text

theorem mem_normalizeLineEndings {t : Text} (ht : 0x0D ∈ t) : 0x0A ∈ t.normalizeLineEndings := by
  fun_induction normalizeLineEndings t with
  | case1 | case2 => simp
  | case3 b rest _ hb ih =>
    rcases List.mem_cons.mp ht with rfl | hlater
    · exact absurd rfl hb
    · exact List.mem_cons_of_mem _ (ih hlater)
  | case4 => cases ht

theorem exists_mem_splitOn {sep b : UInt8} {t : Text} (hb : b ∈ t) (hsep : b ≠ sep) :
    ∃ part ∈ splitOn sep t, b ∈ part := by
  induction t with
  | nil => cases hb
  | cons c t ih =>
    obtain ⟨part, parts, hsplit⟩ := exists_splitOn sep t
    rw [splitOn_cons hsplit]
    rw [hsplit] at ih
    rcases List.mem_cons.mp hb with rfl | hlater
    · rw [if_neg hsep]
      exact ⟨b :: part, by simp, by simp⟩
    · obtain ⟨found, hfound, hmem⟩ := ih hlater
      split
      · exact ⟨found, by simp_all, hmem⟩
      · rcases List.mem_cons.mp hfound with rfl | hothers
        · exact ⟨c :: found, by simp, by simp [hmem]⟩
        · exact ⟨found, by simp [hothers], hmem⟩

end Text

namespace Path

theorem firstFault?_ne_none {path : Text} {segments : List Text} {s : Text} (hs : s ∈ segments)
    {c : Char} (hc : c ∈ s.chars) (hdisallowed : isDisallowed c = true) (position : Nat) :
    firstFault? path position segments ≠ none := by
  induction segments generalizing position with
  | nil => cases hs
  | cons segment rest ih =>
    rw [firstFault?]
    split
    · simp
    · rcases List.mem_cons.mp hs with rfl | hlater
      · cases hfind : s.chars.find? isDisallowed with
        | none => exact absurd hdisallowed (by simpa using List.find?_eq_none.mp hfind c hc)
        | some d => simp
      · split
        · simp
        · exact ih hlater _

/-- A path has no ASCII byte that may not stand in it, once trimmed. -/
theorem exists_error {source : Text} {b : UInt8} (hb : b ∈ source.trim) (hlow : b < 0x80)
    (hdot : b ≠ 0x2E) (hdisallowed : isDisallowed (Template.byteChar b) = true) :
    ∃ e, parse source = .error e := by
  obtain ⟨part, hpart, hmem⟩ := Text.exists_mem_splitOn hb hdot
  have hchar : Template.byteChar b ∈ part.chars :=
    List.mem_map_of_mem (Text.ascii_mem_glyphs hlow hmem)
  have hfault := @firstFault?_ne_none source.trim _ _ hpart _ hchar hdisallowed 0
  have hroot : ¬ (source.trim.isEmpty || source.trim == [0x2E]) = true := by
    rintro hroot
    rcases Bool.or_eq_true_iff.mp hroot with hempty | hdots
    · rw [List.isEmpty_iff.mp hempty] at hb
      cases hb
    · rw [beq_iff_eq.mp hdots] at hb
      exact hdot (List.mem_singleton.mp hb)
  rw [parse, if_neg hroot]
  split
  · exact ⟨_, rfl⟩
  · contradiction

/-- A path is read in the same way whatever lines end in. -/
theorem parse_normalizeLineEndings (source : Text) :
    parse source.normalizeLineEndings = parse source ∨
      ∃ e e', parse source.normalizeLineEndings = .error e ∧ parse source = .error e' := by
  by_cases hcr : 0x0D ∈ source.trim
  · right
    obtain ⟨e', he'⟩ := exists_error hcr (by decide) (by decide) (by decide)
    have hlf := Text.mem_normalizeLineEndings hcr
    rw [← Text.trim_normalizeLineEndings] at hlf
    obtain ⟨e, he⟩ := exists_error hlf (by decide) (by decide) (by decide)
    exact ⟨e, e', he, he'⟩
  · left
    rw [parse, parse, Text.trim_normalizeLineEndings, Template.normalizeLineEndings_of_not_mem hcr]

end Path

/-! ### Loop headers -/

namespace Template

namespace LoopHeader

theorem takeName?_joinLines (gs : List Glyph) :
    takeName? (joinLines gs) = (takeName? gs).map fun found => (found.1, joinLines found.2) := by
  cases gs with
  | nil => rfl
  | cons g rest =>
    by_cases hstart : CharClass.isVariableStart g.char = true
    · have hchar : g.char ≠ '\r' := by
        rintro hchar
        rw [hchar] at hstart
        exact absurd hstart (by decide)
      rw [Glyph.joinLines_cons hchar, takeName?, takeName?, if_pos hstart, if_pos hstart,
        Glyph.takeWhile_joinLines (p := CharClass.isVariable) (by decide) (by decide),
        Glyph.dropWhile_joinLines (p := CharClass.isVariable) (by decide)]
      rfl
    · obtain ⟨h, more, hjoined, hchar⟩ := Glyph.exists_joinLines_cons g rest
      have hnone : ¬ CharClass.isVariableStart h.char = true := by
        rw [hchar, Glyph.lineChar]
        split
        · decide
        · exact hstart
      rw [hjoined, takeName?, takeName?, if_neg hstart, if_neg hnone]
      rfl

theorem dropWhile_isSpace_joinLines (gs : List Glyph) :
    (joinLines gs).dropWhile isSpace = joinLines (gs.dropWhile isSpace) :=
  Glyph.dropWhile_joinLines (p := CharClass.isHeaderSpace) rfl gs

/-- Whatever is left after blanks were dropped does not begin with a line ending. -/
theorem not_newline_of_dropWhile {gs rest : List Glyph} {g : Glyph}
    (hgs : gs.dropWhile isSpace = g :: rest) : g.char ≠ '\r' := by
  have hfirst := List.head?_dropWhile_not isSpace gs
  rw [hgs] at hfirst
  rintro hchar
  simp [isSpace, hchar, CharClass.isHeaderSpace] at hfirst

theorem takeKey?_joinLines (gs : List Glyph) :
    takeKey? (joinLines gs) = (takeKey? gs).map fun found => (found.1, joinLines found.2) := by
  rw [takeKey?, takeKey?, dropWhile_isSpace_joinLines]
  cases hgs : gs.dropWhile isSpace with
  | nil => rfl
  | cons g rest =>
    rw [Glyph.joinLines_cons (not_newline_of_dropWhile hgs)]
    split
    · rename_i heq
      obtain ⟨rfl, rfl⟩ := List.cons.inj heq
      rw [dropWhile_isSpace_joinLines, takeName?_joinLines]
      rfl
    · rename_i hcomma
      split
      · rename_i heq
        obtain ⟨rfl, rfl⟩ := List.cons.inj heq
        exact absurd rfl (hcomma _ _)
      · rfl

theorem startsBlank_joinLines (gs : List Glyph) : startsBlank (joinLines gs) = startsBlank gs := by
  have hhead : ∀ hs : List Glyph,
      startsBlank hs = hs.head?.any fun g => CharClass.isHeaderSpace g.char := by
    intro hs
    cases hs <;> rfl
  rw [hhead, hhead, Markup.Blind.any_head_joinLines (p := CharClass.isHeaderSpace) rfl]

/-- The collection keeps its line endings. -/
theorem takeCollection?_joinLines {source : Text} {gs : List Glyph} (hgs : gs <:+: source.glyphs) :
    takeCollection? (joinLines gs) = (takeCollection? gs).map Text.normalizeLineEndings := by
  rw [takeCollection?, takeCollection?, dropWhile_isSpace_joinLines, startsBlank_joinLines]
  by_cases hof : ∃ b b' rest, gs.dropWhile isSpace = ⟨'o', b⟩ :: ⟨'f', b'⟩ :: rest
  · obtain ⟨b, b', rest, hdrop⟩ := hof
    rw [hdrop, Glyph.joinLines_cons (by simp), Glyph.joinLines_cons (by simp)]
    change (if startsBlank gs && startsBlank (joinLines rest) then some (Text.ofGlyphs
      (((joinLines rest).dropWhile isSpace).reverse.dropWhile isSpace).reverse) else none) =
        Option.map _ (if startsBlank gs && startsBlank rest then some (Text.ofGlyphs
          ((rest.dropWhile isSpace).reverse.dropWhile isSpace).reverse) else none)
    rw [startsBlank_joinLines, dropWhile_isSpace_joinLines]
    split
    · have hrest : rest <:+: source.glyphs := by
        have hsuffix := List.dropWhile_suffix (l := gs) isSpace
        rw [hdrop] at hsuffix
        exact (((List.suffix_cons _ _).trans (List.suffix_cons _ _)).trans hsuffix).isInfix.trans hgs
      rw [Option.map_some, ← Text.ofGlyphs_joinLines ((Glyph.trimmed_isInfix isSpace rest).trans hrest)]
      exact congrArg (fun hs => some (Text.ofGlyphs hs))
        (Glyph.dropWhile_reverse_joinLines (p := CharClass.isHeaderSpace) rfl rfl _)
    · rfl
  · split
    · rename_i b b' rest hjoined
      obtain ⟨more, hdrop, hmore⟩ := Glyph.joinLines_eq_cons (by simp) hjoined
      obtain ⟨last, rfl, -⟩ := Glyph.joinLines_eq_cons (by simp) hmore.symm
      exact absurd ⟨b, b', last, hdrop⟩ hof
    · split
      · rename_i b b' rest hdrop
        exact absurd ⟨b, b', rest, hdrop⟩ hof
      · rfl

theorem suffix_of_takeName? {gs rest : List Glyph} {name : Text}
    (h : takeName? gs = some (name, rest)) : rest <:+ gs := by
  cases gs with
  | nil => cases h
  | cons g gs =>
    rw [takeName?] at h
    split at h
    · cases h
      exact (List.dropWhile_suffix _).trans (List.suffix_cons _ _)
    · cases h

theorem suffix_of_takeKey? {gs rest : List Glyph} {name : Text}
    (h : takeKey? gs = some (name, rest)) : rest <:+ gs := by
  rw [takeKey?] at h
  split at h
  · rename_i b more hdrop
    have hsuffix := List.dropWhile_suffix (l := gs) isSpace
    rw [hdrop] at hsuffix
    exact (suffix_of_takeName? h).trans
      ((List.dropWhile_suffix _).trans ((List.suffix_cons _ _).trans hsuffix))
  · cases h

theorem parse?_normalizeLineEndings (t : Text) :
    parse? t.normalizeLineEndings =
      (parse? t).map fun h => { h with collection := h.collection.normalizeLineEndings } := by
  have hblank := List.dropWhile_suffix (l := t.glyphs) isSpace
  rw [parse?, parse?, Text.glyphs_normalizeLineEndings, dropWhile_isSpace_joinLines,
    takeName?_joinLines]
  cases hname : takeName? (t.glyphs.dropWhile isSpace) with
  | none => rfl
  | some found =>
    obtain ⟨value, rest⟩ := found
    have hrest := ((suffix_of_takeName? hname).trans hblank).isInfix
    simp only [Option.map_some, takeKey?_joinLines]
    cases hkey : takeKey? rest with
    | none =>
      simp only [Option.map_none, takeCollection?_joinLines hrest, Option.map_map]
      rfl
    | some found =>
      obtain ⟨key, more⟩ := found
      have hmore := (suffix_of_takeKey? hkey).isInfix.trans hrest
      simp only [Option.map_some, takeCollection?_joinLines hmore, Option.map_map]
      rfl

theorem hasOfAfter_joinLines (fresh : Bool) (gs : List Glyph) :
    hasOfAfter fresh ((joinLines gs).map Glyph.char) = hasOfAfter fresh (gs.map Glyph.char) := by
  induction gs using Glyph.lines_induction generalizing fresh with
  | nil => rfl
  | crlf b b' rest ih =>
    rw [Glyph.joinLines_crlf]
    simpa [hasOfAfter, CharClass.isHeaderSpace] using ih true
  | cr b rest hrest ih =>
    rw [Glyph.joinLines_cr rfl hrest]
    simpa [hasOfAfter, Glyph.ascii, CharClass.isHeaderSpace] using ih true
  | other g rest hg ih =>
    rw [Glyph.joinLines_cons hg]
    simp only [List.map_cons, hasOfAfter, ih]
    congr 2
    -- What follows an `o` is looked at up to the character behind an `f`.
    cases rest with
    | nil => rfl
    | cons h more =>
      by_cases hf : h.char = 'f'
      · rw [Glyph.joinLines_cons (by rw [hf]; decide), List.map_cons, List.map_cons, hf]
        cases more with
        | nil => rfl
        | cons d last =>
          obtain ⟨x, others, hjoined, hchar⟩ := Glyph.exists_joinLines_cons d last
          rw [hjoined]
          change CharClass.isHeaderSpace x.char = CharClass.isHeaderSpace d.char
          rw [hchar, Glyph.lineChar]
          split
          · rename_i hcr
            rw [hcr]
            rfl
          · rfl
      · obtain ⟨x, others, hjoined, hchar⟩ := Glyph.exists_joinLines_cons h more
        have hx : x.char ≠ 'f' := by
          rw [hchar, Glyph.lineChar]
          split
          · decide
          · exact hf
        rw [hjoined, List.map_cons, List.map_cons]
        split <;> split <;> simp_all

theorem hasOf_normalizeLineEndings (t : Text) : hasOf t.normalizeLineEndings = hasOf t := by
  rw [hasOf, hasOf, Text.chars, Text.glyphs_normalizeLineEndings, hasOfAfter_joinLines]
  rfl

end LoopHeader

theorem loopOver_normalizeLineEndings (source key value : Text) :
    (loopOver source.normalizeLineEndings key value).mapError (fun _ => ()) =
      (loopOver source key value).mapError fun _ => () := by
  rw [loopOver, loopOver, Text.isBlank_normalizeLineEndings]
  split
  · rfl
  · rcases Path.parse_normalizeLineEndings source with hsame | ⟨e, e', he, he'⟩
    · rw [hsame]
    · rw [he, he']
      rfl

theorem loopOfText_normalizeLineEndings (t : Text) :
    (loopOfText t.normalizeLineEndings).mapError (fun _ => ()) =
      (loopOfText t).mapError fun _ => () := by
  rw [loopOfText, loopOfText, LoopHeader.parse?_normalizeLineEndings]
  cases LoopHeader.parse? t with
  | none =>
    simp only [Option.map_none, LoopHeader.hasOf_normalizeLineEndings]
    split
    · rfl
    · exact loopOver_normalizeLineEndings t [] []
  | some h =>
    simp only [Option.map_some]
    split
    · rfl
    · exact loopOver_normalizeLineEndings _ _ _

/-- How many problems there are, but not which. -/
theorem faithful_normalizeLineEndings : Faithful (fun _ => ()) Text.normalizeLineEndings where
  isBlank := Text.isBlank_normalizeLineEndings
  interpolation e := by
    rcases Path.parse_normalizeLineEndings e with hsame | ⟨x, x', hx, hx'⟩
    · rw [hsame]
    · rw [hx, hx']
      rfl
  test e := by
    rcases Path.parse_normalizeLineEndings e with hsame | ⟨x, x', hx, hx'⟩
    · rw [hsame]
    · rw [hx, hx']
      rfl
  loop := loopOfText_normalizeLineEndings
  extraLoopParameter _ := rfl

end Template

/-! ### Texts -/

namespace Markup

/-- Values that are the same, unless both have an interpolation in them. -/
def Alike (v w : Text) : Prop := v = w ∨ 0x7B ∈ v ∧ 0x7B ∈ w

theorem Alike.isBlank {v w : Text} (h : Alike v w) : v.isBlank = w.isBlank := by
  have hfalse : ∀ t : Text, 0x7B ∈ t → t.isBlank = false := by
    intro t ht
    refine Bool.eq_false_iff.mpr fun hblank => ?_
    exact absurd (Text.isBlank_iff.mp hblank _ (Text.ascii_mem_glyphs (by decide) ht)) (by decide)
  rcases h with rfl | ⟨hv, hw⟩
  · rfl
  · rw [hfalse v hv, hfalse w hw]

theorem mem_collapseBlanksAfter {g : Glyph} {gs : List Glyph} (hg : g ∈ gs)
    (hplain : CharClass.isCollapsible g.char = false) (run : BlankRun) :
    g ∈ collapseBlanksAfter run gs := by
  induction gs generalizing run with
  | nil => cases hg
  | cons h gs ih =>
    rw [collapseBlanksAfter]
    rcases List.mem_cons.mp hg with rfl | hlater
    · simp [hplain]
    · split
      · exact ih hlater _
      · simp [ih hlater]

theorem Alike.collapseBlanks {v w : Text} (h : Alike v w) :
    Alike (collapseBlanks v) (collapseBlanks w) := by
  have hmem : ∀ t : Text, 0x7B ∈ t → 0x7B ∈ Markup.collapseBlanks t := by
    intro t ht
    have hglyph := mem_collapseBlanksAfter (Text.ascii_mem_glyphs (by decide) ht) (by decide) .none
    exact List.mem_flatMap.mpr ⟨_, hglyph, by simp [Glyph.ascii]⟩
  exact h.imp (congrArg Markup.collapseBlanks) fun hbrace => ⟨hmem v hbrace.1, hmem w hbrace.2⟩

theorem contentOf_alike (r s : Recast) (tokens : List Token) :
    Alike (contentOf (tokens.map (Token.recastText r)))
      (contentOf (tokens.map (Token.recastText s))) := by
  induction tokens with
  | nil => exact .inl rfl
  | cons t rest ih =>
    obtain ⟨lexeme, span⟩ := t
    have hsplit : ∀ q : Recast, contentOf ((⟨lexeme, span⟩ :: rest).map (Token.recastText q)) =
        (lexeme.recastText q.expression).content ++ contentOf (rest.map (Token.recastText q)) :=
      fun _ => rfl
    rw [hsplit, hsplit]
    cases lexeme with
    | interpolation e =>
      right
      constructor <;>
      · apply List.mem_append_left
        exact List.mem_cons_self
    | _ =>
      rcases ih with hsame | hbrace
      · exact .inl (congrArg (_ ++ ·) hsame)
      · exact .inr ⟨List.mem_append_right _ hbrace.1, List.mem_append_right _ hbrace.2⟩

/-! ### Trees -/

variable (expression : Text → Text)

mutual

theorem Node.gist_recast (n : Node) :
    (n.recast (.bare expression)).gist (.bare id) = (n.recast .same).gist (.bare expression) := by
  match n with
  | .element name attrs children selfClosing spans =>
    simp [Node.recast, Node.gist, gistAll_recastAll children, Function.comp_def, Attr.recast,
      ElementSpans.recast]
  | .text value tokens span =>
    simp [Node.recast, Node.gist, (contentOf_alike (.bare expression) .same tokens).isBlank,
      Function.comp_def, Token.recastText]
  | .comment body span => rfl
  | .block name parameters children spans =>
    simp [Node.recast, Node.gist, gistAll_recastAll children, Function.comp_def, Parameter.recast,
      BlockSpans.recast]

theorem gistAll_recastAll (nodes : List Node) :
    gistAll (.bare id) (recastAll (.bare expression) nodes) =
      gistAll (.bare expression) (recastAll .same nodes) := by
  match nodes with
  | [] => rfl
  | n :: rest => rw [recastAll, gistAll, recastAll, gistAll, n.gist_recast, gistAll_recastAll rest]

end

theorem all_isBlank_recastText (r : Recast) (tokens : List Token) :
    (tokens.map (Token.recastText r)).all Token.isBlank = tokens.all Token.isBlank := by
  rw [List.all_map]
  congr 1
  funext t
  obtain ⟨lexeme, span⟩ := t
  cases lexeme <;> rfl

theorem map_collapseBlanks_recastText (tokens : List Token) :
    ((tokens.map (Token.recastText (.bare expression))).map Token.collapseBlanks).map
        (Token.recastText (.bare id)) =
      ((tokens.map (Token.recastText .same)).map Token.collapseBlanks).map
        (Token.recastText (.bare expression)) := by
  simp only [List.map_map]
  apply List.map_congr_left
  rintro ⟨lexeme, span⟩ -
  cases lexeme <;> rfl

mutual

/-- Whether blanks are removed before or after recasting is the same to a template. -/
theorem Node.gist_removeBlanks_recast (n : Node) :
    (n.recast (.bare expression)).removeBlanks.map (Node.gist (.bare id)) =
      (n.recast .same).removeBlanks.map (Node.gist (.bare expression)) := by
  match n with
  | .element name attrs children selfClosing spans =>
    simp only [Node.recast, Node.removeBlanks, Option.map_some, Node.gist]
    split
    · simp [gistAll_recastAll expression children, Function.comp_def, Attr.recast,
        ElementSpans.recast]
    · simp [gistAll_removeBlanks_recast children, Function.comp_def, Attr.recast,
        ElementSpans.recast]
  | .text value tokens span =>
    have hvalue := (contentOf_alike (.bare expression) .same tokens).collapseBlanks.isBlank
    simp only [Node.recast, Node.removeBlanks, all_isBlank_recastText]
    split
    · rfl
    · simp only [Option.map_some, Node.gist, hvalue, map_collapseBlanks_recastText, Recast.bare_place]
  | .comment body span => rfl
  | .block name parameters children spans =>
    simp [Node.recast, Node.removeBlanks, Node.gist, gistAll_removeBlanks_recast children,
      Function.comp_def, Parameter.recast, BlockSpans.recast]

theorem gistAll_removeBlanks_recast (nodes : List Node) :
    gistAll (.bare id) (removeBlanks (recastAll (.bare expression) nodes)) =
      gistAll (.bare expression) (removeBlanks (recastAll .same nodes)) := by
  match nodes with
  | [] => rfl
  | n :: rest =>
    have hfirst := congrArg Option.toList n.gist_removeBlanks_recast
    have hrest := gistAll_removeBlanks_recast rest
    simp only [gistAll_eq_map, Option.toList_map] at hfirst hrest ⊢
    rw [recastAll, removeBlanks, recastAll, removeBlanks, List.map_append, List.map_append, hfirst,
      hrest]

end

/-- With its lines joined a source has the same tree, recast, and a problem if it had one. -/
theorem Tree.ofText_normalizeLineEndings (t : Text) :
    (ofText ⟨false⟩ t.normalizeLineEndings).nodes.map (Node.recast (.bare id)) =
        (ofText ⟨false⟩ t).nodes.map (Node.recast (.bare Text.normalizeLineEndings)) ∧
      (ofText ⟨false⟩ t.normalizeLineEndings).diagnostics.length =
        (ofText ⟨false⟩ t).diagnostics.length := by
  obtain ⟨hlexemes, hcount⟩ := TokenStream.ofText_normalizeLineEndings t
  have htokens : (TokenStream.ofText ⟨false⟩ t.normalizeLineEndings).tokens.map
      (Token.recast (.bare id)) = (TokenStream.ofText ⟨false⟩ t).tokens.map
        (Token.recast (.bare Text.normalizeLineEndings)) := by
    have hplaced := congrArg (List.map fun l => (⟨l, .nowhere⟩ : Token)) hlexemes
    simp only [List.map_map] at hplaced
    rw [map_recast_bare]
    exact hplaced
  have htree := ofTokens_recast (.bare id)
    (TokenStream.ofText ⟨false⟩ t.normalizeLineEndings).tokens
  rw [htokens, ← ofTokens_recast] at htree
  obtain ⟨hnodes, hdiagnostics⟩ := Tree.mk.inj htree
  refine ⟨hnodes, ?_⟩
  have hmoved := congrArg List.length hdiagnostics
  simp only [List.length_map] at hmoved
  simp only [ofText, List.length_append, hcount, hmoved]

end Markup

theorem gist_treat_recast (o : Options) (t : Text) (f : Text → Text) :
    (o.treat ((Markup.Tree.ofText ⟨false⟩ t).nodes.map (Markup.Node.recast (.bare f)))).map
        (Markup.Node.gist (.bare id)) =
      (o.treat (Markup.Tree.ofText ⟨false⟩ t).nodes).map (Markup.Node.gist (.bare f)) := by
  have hsame : (Markup.Tree.ofText ⟨false⟩ t).nodes =
      Markup.recastAll .same (Markup.Tree.ofText ⟨false⟩ t).nodes := by
    rw [Markup.recastAll_eq_map]
    exact (Markup.Tree.nodes_ofTokens_same _).symm
  rw [← Markup.gistAll_eq_map, ← Markup.gistAll_eq_map, ← Markup.recastAll_eq_map, Options.treat,
    Options.treat]
  split
  · have hall := Markup.gistAll_recastAll f (Markup.Tree.ofText ⟨false⟩ t).nodes
    rwa [← hsame] at hall
  · have hall := Markup.gistAll_removeBlanks_recast f (Markup.Tree.ofText ⟨false⟩ t).nodes
    rwa [← hsame] at hall

/-- With its lines joined a source gives a template the same to be made from. -/
theorem gist_treat_normalizeLineEndings (o : Options) (t : Text) :
    (o.treat (Markup.Tree.ofText ⟨false⟩ t.normalizeLineEndings).nodes).map
        (Markup.Node.gist (.bare id)) =
      (o.treat (Markup.Tree.ofText ⟨false⟩ t).nodes).map
        (Markup.Node.gist (.bare Text.normalizeLineEndings)) := by
  rw [← gist_treat_recast, ← gist_treat_recast, (Markup.Tree.ofText_normalizeLineEndings t).1]

theorem isEmpty_eq_of_length {α β : Type} {xs : List α} {ys : List β} (h : xs.length = ys.length) :
    xs.isEmpty = ys.isEmpty := by
  cases xs <;> cases ys <;> simp_all

theorem unplaced_parse_normalizeLineEndings (o : Options) (t : Text) :
    (parse o t.normalizeLineEndings).toOption.map Template.Node.unplaced =
      (parse o t).toOption.map Template.Node.unplaced := by
  have hgist := gist_treat_normalizeLineEndings o t
  have htree := isEmpty_eq_of_length (Markup.Tree.ofText_normalizeLineEndings t).2
  rw [toOption_parse, toOption_parse, htree]
  generalize o.treat (Markup.Tree.ofText ⟨false⟩ t.normalizeLineEndings).nodes = nodes' at hgist ⊢
  generalize o.treat (Markup.Tree.ofText ⟨false⟩ t).nodes = nodes at hgist ⊢
  obtain ⟨hroot', hviews'⟩ := @Template.ofMarkup_gist _ (fun _ => ()) (.bare id)
    (Template.faithful_id _) nodes'
  obtain ⟨hroot, hviews⟩ := @Template.ofMarkup_gist _ (fun _ => ()) (.bare Text.normalizeLineEndings)
    Template.faithful_normalizeLineEndings nodes
  rw [hgist] at hroot' hviews'
  have hdiagnostics : (Template.ofMarkup nodes').diagnostics.isEmpty =
      (Template.ofMarkup nodes).diagnostics.isEmpty := by
    have hcount := congrArg List.length (hviews'.symm.trans hviews)
    simp only [Template.viewAll, List.length_map] at hcount
    exact isEmpty_eq_of_length hcount
  rw [hdiagnostics]
  split
  · exact congrArg some (hroot'.symm.trans hroot)
  · rfl

/-- A source is read and compiled as it is with its lines joined, up to where its parts stand. -/
theorem lineEndings_immaterial (o : Options) (text : Text) :
    (parse o text.normalizeLineEndings).toOption.map Template.Node.unplaced =
        (parse o text).toOption.map Template.Node.unplaced ∧
      (compile o text.normalizeLineEndings).toOption.map Program.listing =
        (compile o text).toOption.map Program.listing := by
  have hparse := unplaced_parse_normalizeLineEndings o text
  have hcompile : ∀ {u : Text} {root : Template.Node}, parse o u = .ok root →
      ∃ program, Program.compile o.key root = .ok program ∧ compile o u = .ok program := by
    intro u root hroot
    obtain ⟨hsound, hkind⟩ := parse_sound hroot o.key
    obtain ⟨program, hprogram⟩ := Program.compile_of_sound (by rw [hkind]; decide) hsound
    exact ⟨program, hprogram, by rw [compile, hroot]; simp only [hprogram]⟩
  refine ⟨hparse, ?_⟩
  cases hroot' : parse o text.normalizeLineEndings with
  | error e' =>
    cases hroot : parse o text with
    | error e => rw [compile, compile, hroot', hroot]; rfl
    | ok root =>
      rw [hroot', hroot] at hparse
      cases hparse
  | ok root' =>
    cases hroot : parse o text with
    | error e =>
      rw [hroot', hroot] at hparse
      cases hparse
    | ok root =>
      rw [hroot', hroot] at hparse
      obtain ⟨program', hprogram', hresult'⟩ := hcompile hroot'
      obtain ⟨program, hprogram, hresult⟩ := hcompile hroot
      rw [hresult', hresult]
      exact congrArg some
        (Program.listing_eq_of_unplaced (Option.some.inj hparse) hprogram' hprogram)

end Stencil
