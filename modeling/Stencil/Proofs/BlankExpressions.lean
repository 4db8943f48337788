import Mathlib.Data.List.Chain
import Stencil.Proofs.KeptContent
import Stencil.Proofs.TokenGrammar

/-!
# Blank expressions

A blank text is read as the path of the whole context, so it is for each construct to refuse an expression
that is blank. Interpolations, loops and spread attributes do. The test of an `if` block and a value without
quotes are not looked at: they are given as the scanner cuts them, and it goes by markup space, which is not
all white space, and ends a parameter at `;` also where nothing stands before it.

`blank_source_iff` says that a template has no other blank expressions than these.
-/

namespace Stencil

theorem Text.trim_trim (t : Text) : t.trim.trim = t.trim := by
  obtain ⟨front, back, hsplit, hfront, hback⟩ :=
    Text.exists_around (fun g : Glyph => CharClass.isWhiteSpace g.char) t.glyphs
  have hinfix : Text.trimGlyphs t.glyphs <:+: t.glyphs := ⟨front, back, hsplit.symm⟩
  have htrim : Text.trimGlyphs t.glyphs = Text.trimGlyphs (Text.trimGlyphs t.glyphs) := by
    conv_lhs => rw [hsplit]
    exact Text.trimGlyphs_append hfront hback
  rw [Text.trim, Text.trim, Text.glyphs_ofGlyphs_of_isInfix hinfix, ← htrim]

theorem Text.trim_eq_nil_of_isBlank {t : Text} (ht : t.trim.isBlank = true) : t.trim = [] := by
  rw [Text.isBlank, Text.trim_trim] at ht
  exact List.isEmpty_iff.mp ht

namespace Markup

variable {options : ScanOptions} {source : Text}

/-! ### Parameters that are left open -/

/-- Somewhere in a source nothing but white space stands where a parameter begins: nothing at all before a
`;`, or white space that is not markup space before a `;` or a `)`. -/
def LeftOpen (source : Text) : Prop :=
  ∃ before opening space stretch closing after,
    source.glyphs = before ++ opening :: (space ++ (stretch ++ closing :: after)) ∧
      (opening.char = '(' ∨ opening.char = ';') ∧
      (∀ g ∈ space, CharClass.isMarkupSpace g.char = true) ∧
      (∀ g ∈ stretch, CharClass.isWhiteSpace g.char = true) ∧
      (∀ g ∈ stretch.head?, CharClass.isMarkupSpace g.char = false) ∧
      (closing.char = ';' ∨ closing.char = ')' ∧ stretch ≠ [])

namespace Cursor

variable {c d : Cursor} {gs : List Glyph}

/-- A parameter may begin at a cursor. -/
structure BeginsParameter (source : Text) (c : Cursor) : Prop where
  opened : ∃ before opening space, source.glyphs = before ++ opening :: (space ++ c.rest) ∧
    (opening.char = '(' ∨ opening.char = ';') ∧ ∀ g ∈ space, CharClass.isMarkupSpace g.char = true
  apart : c.isIn CharClass.isMarkupSpace = false

theorem beginsParameter_skipSpace (hc : c.rest <:+ source.glyphs)
    (hat : c.isAt '(' = true ∨ c.isAt ';' = true) : c.advance.skipSpace.BeginsParameter source := by
  obtain ⟨g, hg, hmark⟩ : ∃ g : Glyph, (g.char = '(' ∨ g.char = ';') ∧ c.Reads [g] c.advance := by
    rcases hat with hat | hat
    · obtain ⟨g, hg, hmark⟩ := exists_of_isAt hat
      exact ⟨g, .inl hg, hmark⟩
    · obtain ⟨g, hg, hmark⟩ := exists_of_isAt hat
      exact ⟨g, .inr hg, hmark⟩
  obtain ⟨space, hspace, hspaces, hapart⟩ := exists_skipWhile CharClass.isMarkupSpace c.advance
  obtain ⟨before, hbefore⟩ := hc
  refine ⟨⟨before, g, space, ?_, hg, hspaces⟩, hapart⟩
  rw [← hbefore, hmark.rest, hspace.rest]
  rfl

theorem BeginsParameter.leftOpen (hc : c.BeginsParameter source) (hopen : c.isAt ')' = false)
    (hread : c.Reads gs d) (hblank : ∀ g ∈ gs, CharClass.isWhiteSpace g.char = true)
    (hstop : d.isAt ';' = true ∨ d.isAt ')' = true) : LeftOpen source := by
  obtain ⟨before, opening, space, hsource, hopening, hspaces⟩ := hc.opened
  have hapart : ∀ g ∈ gs.head?, CharClass.isMarkupSpace g.char = false := by
    intro g hg
    obtain ⟨rest, rfl⟩ := List.head?_eq_some_iff.mp hg
    simpa [isIn, peek?, hread.rest] using hc.apart
  rw [hread.rest] at hsource
  rcases hstop with hstop | hstop
  · obtain ⟨g, hg, hmark⟩ := exists_of_isAt hstop
    rw [hmark.rest] at hsource
    exact ⟨before, opening, space, gs, g, _, hsource, hopening, hspaces, hblank, hapart, .inl hg⟩
  · obtain ⟨g, hg, hmark⟩ := exists_of_isAt hstop
    rw [hmark.rest] at hsource
    refine ⟨before, opening, space, gs, g, _, hsource, hopening, hspaces, hblank, hapart, .inr ⟨hg, ?_⟩⟩
    rintro rfl
    rw [hread.eq_of_nil, hopen] at hstop
    cases hstop

end Cursor

namespace Scan

variable {c : Cursor}

theorem parameterStop_isAt (depth : Nat) (rest : List Glyph) (p : Position) :
    (parameterStop depth rest p).atEnd = true ∨ (parameterStop depth rest p).isAt ';' = true ∨
      (parameterStop depth rest p).isAt ')' = true := by
  induction rest generalizing depth p with
  | nil => exact .inl rfl
  | cons g rest ih =>
    rw [parameterStop]
    split
    · rename_i hstop
      right
      exact hstop.2.imp (fun hg => by simp [Cursor.isAt, Cursor.peek?, hg])
        fun hg => by simp [Cursor.isAt, Cursor.peek?, hg]
    · exact ih _ _

/-- The parameters end here, and no space is passed over on the way. -/
theorem blockParameters_skipSpace_of_last (fuel : Nat) (hc : c.atEnd = true ∨ c.isAt ')' = true) :
    blockParameters fuel c.skipSpace = done [] c := by
  have hspace : c.skipSpace = c := by
    obtain ⟨rest, p⟩ := c
    apply Cursor.skipWhile_eq_self
    intro g hg
    rcases hc with hc | hc
    · obtain rfl : rest = [] := List.isEmpty_iff.mp hc
      cases hg
    · have hchar : g.char = ')' := by simpa [Cursor.isAt, Cursor.peek?, Option.mem_def.mp hg] using hc
      rw [hchar]
      decide
  rw [hspace]
  cases fuel with
  | zero => rfl
  | succ fuel => rw [blockParameters, if_pos (Bool.or_eq_true_iff.mpr hc)]

end Scan

/-! ### What the scanner cuts out -/

/-- A lexeme that may be read as a path though it is not an interpolation. -/
def Lexeme.isCut : Lexeme → Bool
  | .attrValue _ => true
  | .blockParameter _ => true
  | _ => false

/-- A value that comes right after the name of its attribute has no quotes, and so is a name. -/
def ValueFollows (l k : Lexeme) : Prop := ∀ n v, l = .attrName n → k = .attrValue v → IsName v

structure WellCut (source : Text) (lexemes : List Lexeme) : Prop where
  values : lexemes.IsChain ValueFollows
  head : ∀ l ∈ lexemes.head?, ∀ v, l ≠ .attrValue v
  parameters : .blockParameter [] ∈ lexemes → LeftOpen source

namespace WellCut

variable {first rest : List Lexeme}

theorem append (hfirst : WellCut source first) (hrest : WellCut source rest) :
    WellCut source (first ++ rest) where
  values := by
    apply hfirst.values.append hrest.values
    intro l _ k hk n v _ hv
    exact absurd hv (hrest.head k hk v)
  head := by
    cases first with
    | nil => exact hrest.head
    | cons l first => exact hfirst.head
  parameters hempty := (List.mem_append.mp hempty).elim hfirst.parameters hrest.parameters

theorem single {l : Lexeme} (hvalue : ∀ v, l ≠ .attrValue v)
    (hparameter : l = .blockParameter [] → LeftOpen source) : WellCut source [l] where
  values := .singleton l
  head := by simpa using hvalue
  parameters hempty := hparameter (List.mem_singleton.mp hempty).symm

theorem cons {l : Lexeme} (hl : l.isCut = false) (hrest : WellCut source rest) :
    WellCut source (l :: rest) := by
  refine append (single ?_ ?_) hrest
  · rintro v rfl
    cases hl
  · rintro rfl
    cases hl

theorem of_none (hfirst : ∀ l ∈ first, l.isCut = false) : WellCut source first := by
  induction first with
  | nil => exact ⟨.nil, by simp, by simp⟩
  | cons l first ih =>
    obtain ⟨hl, hfirst⟩ := List.forall_mem_cons.mp hfirst
    exact cons hl (ih hfirst)

end WellCut

namespace Scan

variable {start c : Cursor}

def IsWellCut (source : Text) (s : Scan) : Prop := WellCut source (s.tokens.map Token.lexeme)

theorem IsWellCut.andThen {s : Scan} {next : Cursor → Scan} (hs : s.IsWellCut source)
    (hnext : (next s.cursor).IsWellCut source) : (s.andThen next).IsWellCut source := by
  rw [Scan.andThen]
  cases s.failure with
  | some f => exact hs
  | none =>
    rw [IsWellCut, List.map_append]
    exact hs.append hnext

theorem isWellCut_of_none {s : Scan} (hs : ∀ t ∈ s.tokens, t.lexeme.isCut = false) :
    s.IsWellCut source :=
  .of_none (List.forall_mem_map.mpr hs)

theorem isWellCut_of_singles {s : Scan} (hs : ∀ t ∈ s.tokens, t.lexeme.isSingle = true) :
    s.IsWellCut source := by
  refine isWellCut_of_none fun t ht => ?_
  have hsingle := hs t ht
  cases hlexeme : t.lexeme with
  | attrValue v =>
    rw [hlexeme] at hsingle
    cases hsingle
  | blockParameter e =>
    rw [hlexeme] at hsingle
    cases hsingle
  | _ => rfl

theorem attr_isWellCut (hc : c.rest <:+ source.glyphs) : (attr options c).IsWellCut source := by
  rw [attr]
  dsimp only
  split
  · exact isWellCut_of_none (by simp [unexpected, failed])
  split
  · rename_i hequals
    obtain ⟨name, hname, -⟩ := Cursor.exists_skipName c
    obtain ⟨space, hspace, -⟩ := Cursor.exists_skipSpace c.skipName
    obtain ⟨g, -, hmark⟩ := Cursor.exists_of_isAt hequals
    obtain ⟨space', hspace', -⟩ := Cursor.exists_skipSpace c.skipName.skipSpace.advance
    have hvalue := (hname.trans (hspace.trans (hmark.trans hspace'))).isSuffix hc
    rw [andThen_done, attrValue]
    split
    · exact isWellCut_of_none (by simp [unexpected, failed, Lexeme.isCut])
    · dsimp only
      split
      · split
        · exact isWellCut_of_none (by simp [unexpected, failed, Lexeme.isCut])
        · exact ⟨by simp [done, ValueFollows], by simp, by simp [done]⟩
      · split
        · exact isWellCut_of_none (by simp [unexpected, failed, Lexeme.isCut])
        · rename_i hne
          have hnamed := Cursor.isName_skipName hvalue fun hempty => hne (beq_iff_eq.mpr hempty)
          refine ⟨.cons_cons ?_ (.singleton _), by simp, by simp [done]⟩
          rintro n v - ⟨⟩
          exact hnamed
  · exact isWellCut_of_none (by simp [done, Lexeme.isCut])

theorem attrs_isWellCut (fuel : Nat) (hc : c.rest <:+ source.glyphs) :
    (attrs options fuel c).IsWellCut source := by
  induction fuel generalizing c with
  | zero => exact isWellCut_of_none (by simp [attrs, done])
  | succ fuel ih =>
    obtain ⟨space, hspace, -⟩ := Cursor.exists_skipSpace c
    have hcursor := hspace.isSuffix hc
    rw [attrs]
    split
    · exact isWellCut_of_none (by simp [done])
    · obtain ⟨gs, hread⟩ := (@attr_lays options source none _ hcursor).onward
      exact (attr_isWellCut hcursor).andThen (ih (hread.isSuffix hcursor))

theorem startTag_isWellCut (hc : c.rest <:+ source.glyphs) :
    (startTag options start c).IsWellCut source := by
  rw [startTag]
  split
  · exact isWellCut_of_none (by simp [done, Lexeme.isCut])
  · obtain ⟨name, hname, -⟩ := Cursor.exists_skipName c
    have hopened : (done [⟨.tagOpenStart (c.textTo c.skipName), start.spanTo c.skipName⟩]
        c.skipName).IsWellCut source :=
      isWellCut_of_none (by simp [done, Lexeme.isCut])
    dsimp only
    refine (hopened.andThen (attrs_isWellCut _ (hname.isSuffix hc))).andThen ?_
    rcases @startTag_tail options (c.textTo c.skipName) _ with ⟨-, htokens⟩ | ⟨-, ending, htokens⟩
    · exact isWellCut_of_none (by rw [htokens]; simp)
    · rw [IsWellCut, htokens]
      cases ending <;> exact .of_none (by simp [TagEnding.lexemes, Lexeme.isCut])

/-- Parameters are cut well, unless the source ends before they do. -/
theorem blockParameters_isWellCut (fuel : Nat) (hc : c.rest <:+ source.glyphs)
    (hbegins : c.BeginsParameter source) (hmore : (blockParameters fuel c).cursor.atEnd = false) :
    (blockParameters fuel c).IsWellCut source := by
  induction fuel generalizing c with
  | zero => exact isWellCut_of_none (by simp [blockParameters, done])
  | succ fuel ih =>
    rw [blockParameters] at hmore ⊢
    cases hend : c.atEnd || c.isAt ')' with
    | true => exact isWellCut_of_none (by simp [done])
    | false =>
      have hopen := (Bool.or_eq_false_iff.mp hend).2
      obtain ⟨gs, hread⟩ : ∃ gs, c.Reads gs (parameterStop 0 c.rest c.position) :=
        exists_parameterStop 0 c.rest c.position
      have hstop := parameterStop_isAt 0 c.rest c.position
      rw [hend, if_neg (by decide)] at hmore
      rw [if_neg (by decide)]
      generalize parameterStop 0 c.rest c.position = stop at hread hstop hmore ⊢
      dsimp only at hmore ⊢
      rw [hread.textTo] at hmore ⊢
      have hfirst (hat : stop.isAt ';' = true ∨ stop.isAt ')' = true) :
          WellCut source [.blockParameter (Text.ofGlyphs gs).trim] := by
        refine .single (by simp) fun hempty => hbegins.leftOpen hopen hread ?_ hat
        have hblank : (Text.ofGlyphs gs).isBlank = true :=
          List.isEmpty_iff.mpr (Lexeme.blockParameter.inj hempty)
        rwa [Text.isBlank_iff, Text.glyphs_ofGlyphs_of_isInfix (hread.isInfix hc)] at hblank
      by_cases hsemicolon : stop.isAt ';' = true
      · rw [if_pos hsemicolon] at hmore ⊢
        have hstopped := hread.isSuffix hc
        obtain ⟨g, -, hmark⟩ := Cursor.exists_of_isAt hsemicolon
        obtain ⟨space, hspace, -⟩ := Cursor.exists_skipSpace stop.advance
        refine IsWellCut.andThen (hfirst (.inl hsemicolon)) ?_
        exact ih ((hmark.trans hspace).isSuffix hstopped)
          (Cursor.beginsParameter_skipSpace hstopped (.inr hsemicolon)) hmore
      · -- Without a semicolon this was the last parameter.
        have hlast : stop.atEnd = true ∨ stop.isAt ')' = true :=
          hstop.imp_right fun hat => hat.resolve_left hsemicolon
        rw [if_neg hsemicolon, andThen_done, blockParameters_skipSpace_of_last fuel hlast] at hmore ⊢
        exact hfirst (.inr (hlast.resolve_left (by simpa [done] using hmore)))

theorem blockHeader_isWellCut (hstart : start.rest <:+ source.glyphs) :
    (blockHeader start).IsWellCut source := by
  have hfailed : ∀ {d : Cursor} {p : Problem}, (failed [] d p start).IsWellCut source :=
    isWellCut_of_none (by simp [failed])
  obtain ⟨mark, hmark⟩ := Cursor.exists_advanceBy 1 start
  obtain ⟨name, hname, -, -⟩ := Cursor.exists_skipWhile CharClass.isBlockName start.advance
  obtain ⟨space, hspace, -⟩ :=
    Cursor.exists_skipSpace (start.advance.skipWhile CharClass.isBlockName)
  have hc := (hmark.trans (hname.trans hspace)).isSuffix hstart
  rw [blockHeader]
  dsimp only
  generalize (start.advance.skipWhile CharClass.isBlockName).skipSpace = c at hc ⊢
  split
  · rename_i hparen
    obtain ⟨g, -, hopen⟩ := Cursor.exists_of_isAt hparen
    obtain ⟨space', hspace', -⟩ := Cursor.exists_skipSpace c.advance
    split
    · rename_i hclose
      have hmore : (blockParameters c.advance.skipSpace.rest.length
          c.advance.skipSpace).cursor.atEnd = false := by
        obtain ⟨h, -, hclosed⟩ := Cursor.exists_of_isAt hclose
        obtain ⟨between, hbetween, -⟩ := Cursor.exists_skipSpace
          (blockParameters c.advance.skipSpace.rest.length c.advance.skipSpace).cursor
        simp [Cursor.atEnd, hbetween.rest, hclosed.rest]
      have hparameters := blockParameters_isWellCut _ ((hopen.trans hspace').isSuffix hc)
        (Cursor.beginsParameter_skipSpace hc (.inl hparen)) hmore
      split
      · rw [IsWellCut, done, List.map_append, List.map_cons]
        exact .append (.cons rfl hparameters) (.of_none (by simp [Lexeme.isCut]))
      · exact hfailed
    · exact hfailed
  · split
    · exact isWellCut_of_none (by simp [done, Lexeme.isCut])
    · exact hfailed

theorem next_isWellCut (hc : c.rest <:+ source.glyphs) : (next options c).IsWellCut source := by
  rw [next]
  split
  · exact isWellCut_of_singles comment_singles
  split
  · exact isWellCut_of_singles endTag_singles
  split
  · rename_i hat
    obtain ⟨g, -, hmark⟩ := Cursor.exists_of_isAt hat
    exact startTag_isWellCut (hmark.isSuffix hc)
  split
  · exact blockHeader_isWellCut hc
  split
  · exact isWellCut_of_none (by simp [done, Lexeme.isCut])
  · exact isWellCut_of_singles (textRun_singles _ _)

end Scan

theorem TokenStream.readFrom_wellCut (fuel : Nat) {c : Cursor} (hc : c.rest <:+ source.glyphs) :
    WellCut source ((readFrom options fuel c).tokens.map Token.lexeme) := by
  induction fuel generalizing c with
  | zero => exact .of_none (by simp [readFrom, Lexeme.isCut])
  | succ fuel ih =>
    rw [readFrom]
    cases hmore : c.atEnd with
    | true => exact .of_none (by simp [Lexeme.isCut])
    | false =>
      obtain ⟨gs, honward⟩ := (@Scan.next_lays options source none c hc hmore).onward
      obtain ⟨g, hstep⟩ := Cursor.exists_of_not_atEnd hmore
      rw [if_neg (by decide)]
      dsimp only
      rw [resume_eq_cursor hc hmore honward, List.map_append]
      exact (Scan.next_isWellCut hc).append (ih ((hstep.trans honward).isSuffix hc))

/-! ### Trees -/

def Attr.WellCut (a : Attr) : Prop := a.hasValue = true → a.quoted = false → IsName a.value

def Parameter.WellCut (source : Text) (p : Parameter) : Prop :=
  p.expression.isBlank = true → p.expression = [] ∧ LeftOpen source

mutual

/-- Values without quotes in a node are names, and parameters are blank only where they are left open. -/
def Node.WellCut (source : Text) : Node → Prop
  | .element _ attrs children _ _ => (∀ a ∈ attrs, a.WellCut) ∧ WellCutIn source children
  | .text .. => True
  | .comment .. => True
  | .block _ parameters children _ => (∀ p ∈ parameters, p.WellCut source) ∧ WellCutIn source children

def WellCutIn (source : Text) : List Node → Prop
  | [] => True
  | node :: rest => node.WellCut source ∧ WellCutIn source rest

end

theorem wellCutIn_iff {nodes : List Node} :
    WellCutIn source nodes ↔ ∀ node ∈ nodes, node.WellCut source := by
  induction nodes with
  | nil => simp [WellCutIn]
  | cons node rest ih => simp [WellCutIn, ih]

def Container.WellCut (source : Text) : Container → Prop
  | .element _ attrs _ => ∀ a ∈ attrs, a.WellCut
  | .block _ parameters _ _ => ∀ p ∈ parameters, p.WellCut source

theorem closes_wellCut : Closes (Container.WellCut source) (Node.WellCut source) := by
  intro c hc children hchildren close
  cases c with
  | element name attrs startTag => exact ⟨hc, wellCutIn_iff.mpr hchildren⟩
  | block name parameters nameSpan header => exact ⟨hc, wellCutIn_iff.mpr hchildren⟩

theorem Lexeme.eq_of_unmarked {l k : Lexeme} (h : l.unmarked = k) (hk : k.isQuote = false) : l = k := by
  cases l with
  | attrQuote q =>
    subst h
    cases hk
  | _ => exact h

section Pieces

variable {pieces : List Piece} {lexemes : List Lexeme}

theorem Piece.Hold.isInfix (hhold : Hold pieces lexemes) {piece : Piece} (hpiece : piece ∈ pieces) :
    piece.lexemes <:+: lexemes.map Lexeme.unmarked := by
  rw [hhold.lexemes]
  exact (List.infix_of_mem_flatten (List.mem_map_of_mem hpiece)).trans (List.prefix_append _ _).isInfix

theorem Piece.Hold.attr_wellCut (hhold : Hold pieces lexemes) (hcut : WellCut source lexemes)
    {name : Text} {attrs : List Attr} {ending : StartTagEnd} {span : Span}
    (hpiece : .startTag name attrs ending span ∈ pieces) : ∀ a ∈ attrs, a.WellCut := by
  intro a ha hvalue hquoted
  have hattr : a.lexemes <:+: (Piece.startTag name attrs ending span).lexemes := by
    refine (List.infix_of_mem_flatten (List.mem_map_of_mem ha)).trans ?_
    exact (List.prefix_append _ _).isInfix.trans (List.suffix_cons _ _).isInfix
  have hwritten : a.lexemes = [.attrName a.name, .attrValue a.value] := by
    rw [Attr.lexemes, hquoted, hvalue]
    rfl
  have hchain : (lexemes.map Lexeme.unmarked).IsChain ValueFollows := by
    refine (List.isChain_map _).mpr (hcut.values.imp fun l k hfollows n v hl hk => ?_)
    exact hfollows n v (Lexeme.eq_of_unmarked hl rfl) (Lexeme.eq_of_unmarked hk rfl)
  have hpair := hchain.infix (hattr.trans (hhold.isInfix hpiece))
  rw [hwritten, List.isChain_cons_cons] at hpair
  exact hpair.1 _ _ rfl rfl

theorem Piece.Hold.exists_parameter (hhold : Hold pieces lexemes) {name : Text}
    {parameters : List Parameter} {nameSpan span : Span}
    (hpiece : .blockOpen name parameters nameSpan span ∈ pieces) :
    ∀ p ∈ parameters, .blockParameter p.expression ∈ lexemes := by
  intro p hp
  have hmem : Lexeme.blockParameter p.expression ∈ (Piece.blockOpen name parameters nameSpan span).lexemes :=
    List.mem_cons_of_mem _ (List.mem_append_left _ (List.mem_map_of_mem hp))
  obtain ⟨l, hl, hsame⟩ := List.mem_map.mp ((hhold.isInfix hpiece).mem hmem)
  rwa [Lexeme.eq_of_unmarked hsame rfl] at hl

end Pieces

/-- Parameters have no white space around them. -/
theorem TokenStream.parameter_eq_nil {e : Text}
    (he : .blockParameter e ∈ (ofText options source).tokens.map Token.lexeme) (hblank : e.isBlank = true) :
    e = [] := by
  obtain ⟨t, ht, hlexeme⟩ := List.mem_map.mp he
  obtain ⟨d, -, hlaid⟩ := @readFrom_laid options source source.glyphs.length (.ofText source)
    List.suffix_rfl (Nat.le_refl _) none
  obtain ⟨before, after, htokens⟩ := List.append_of_mem ht
  obtain ⟨gs, hs, c, c', -, -, -, hspell⟩ := hlaid.spells htokens
  rw [hlexeme] at hspell
  obtain rfl : e = (Text.ofGlyphs hs).trim := hspell
  exact Text.trim_eq_nil_of_isBlank hblank

theorem Tree.ofText_wellCut (hproblems : (TokenStream.ofText options source).diagnostics = []) :
    WellCutIn source (Tree.ofText options source).nodes := by
  have hhold := Piece.hold_ofText hproblems
  have hcut : WellCut source ((TokenStream.ofText options source).tokens.map Token.lexeme) :=
    TokenStream.readFrom_wellCut _ List.suffix_rfl
  apply wellCutIn_iff.mpr
  refine Tree.ofTokens_good closes_wellCut fun piece hpiece => ?_
  cases piece with
  | startTag name attrs ending span =>
    have hattrs := hhold.attr_wellCut hcut hpiece
    rw [Piece.Fits]
    split
    · exact hattrs
    · exact ⟨hattrs, trivial⟩
  | blockOpen name parameters nameSpan span =>
    intro p hp hblank
    have hparameter := hhold.exists_parameter hpiece p hp
    have hempty := TokenStream.parameter_eq_nil hparameter hblank
    rw [hempty] at hparameter
    exact ⟨hempty, hcut.parameters hparameter⟩
  | text first rest => exact fun _ _ => trivial
  | endTag | comment | blockClose => trivial

theorem outlasts_wellCut : Outlasts (Node.WellCut source) where
  element hnode := ⟨wellCutIn_iff.mp hnode.2, fun hkept => ⟨hnode.1, wellCutIn_iff.mpr hkept⟩⟩
  text _ := trivial
  block hnode := ⟨wellCutIn_iff.mp hnode.2, fun hkept => ⟨hnode.1, wellCutIn_iff.mpr hkept⟩⟩

end Markup

namespace Template

open Markup (LeftOpen)

/-! ### Expressions of a source and paths of its template -/

/-- Where a path may be written. -/
inductive Site where
  | interpolation
  | test
  | collection
  | spread
  | value
deriving DecidableEq, Repr

/-- A text that is read as a path. -/
structure PathSource where
  site : Site
  text : Text
deriving DecidableEq, Repr

def collectionSource (t : Text) : Text := ((LoopHeader.parse? t).map LoopHeader.collection).getD t

def attrSources (a : Markup.Attr) : List PathSource :=
  if Attribute.isSpread a.name then [⟨.spread, Attribute.spreadSource a.name⟩]
  else if a.hasValue && !a.quoted then [⟨.value, a.value⟩]
  else []

def Item.sources : WrittenItem → List PathSource
  | .element _ attrs => attrs.flatMap attrSources
  | .test t => [⟨.test, t⟩]
  | .loop t => [⟨.collection, collectionSource t⟩]
  | .expression t => [⟨.interpolation, t⟩]
  | _ => []

/-- The expressions of a source, in document order. -/
def pathSources (nodes : List Markup.Node) : List PathSource :=
  (writtenItemsIn [] nodes).flatMap Item.sources

/-- The path that an attribute spreads or has as its value. -/
def Attr.paths (a : Attr) : List Path :=
  if Attribute.isSpread a.name then (Path.parse (Attribute.spreadSource a.name)).toOption.toList
  else if a.form = .path then (Path.parse a.value).toOption.toList
  else []

def Item.paths : MeantItem → List Path
  | .element _ attrs => attrs.flatMap Attr.paths
  | .test path => [path]
  | .loop l => [l.collection]
  | .expression path => [path]
  | _ => []

/-- The paths of a template, in document order. -/
def Node.paths (n : Node) : List Path := n.items.flatMap Item.paths

/-- The blank texts that are taken for a path at a site: a test with nothing in it, and a value of white
space that does not separate attributes. -/
def PathSource.MayBeBlank (source : Text) (e : PathSource) : Prop :=
  match e.site with
  | .test => e.text = [] ∧ LeftOpen source
  | .value => ∀ c ∈ e.text.chars, CharClass.isWhiteSpace c = true ∧ CharClass.isMarkupSpace c = false
  | _ => False

/-- An expression is read as a path, and may be blank if it is. -/
structure PathSource.Gives (source : Text) (e : PathSource) (path : Path) : Prop where
  parse : Path.parse e.text = .ok path
  blank : e.text.isBlank = true ↔ e.MayBeBlank source

variable {source : Text}

theorem PathSource.Gives.of_given {site : Site} {t : Text} {path : Path} (hparse : Path.parse t = .ok path)
    (hgiven : t.isBlank = false) (hsite : ¬ PathSource.MayBeBlank source ⟨site, t⟩) :
    PathSource.Gives source ⟨site, t⟩ path :=
  ⟨hparse, by simpa [hgiven] using hsite⟩

theorem gives_collection {t : Text} {l : Loop} (hmeans : LoopMeans t l) :
    PathSource.Gives source ⟨.collection, collectionSource t⟩ l.collection := by
  obtain ⟨said, hsays, rfl⟩ := hmeans
  have hread := loopOfText_eq_ok.mpr hsays
  rw [loopOfText] at hread
  rw [collectionSource]
  cases hheader : LoopHeader.parse? t with
  | some header =>
    simp only [hheader] at hread
    split at hread
    · cases hread
    · obtain ⟨hgiven, path, hpath, rfl⟩ := loopOver_eq_ok.mp hread
      exact .of_given hpath hgiven (by simp [PathSource.MayBeBlank])
  | none =>
    simp only [hheader] at hread
    split at hread
    · cases hread
    · obtain ⟨hgiven, path, hpath, rfl⟩ := loopOver_eq_ok.mp hread
      exact .of_given hpath hgiven (by simp [PathSource.MayBeBlank])

theorem isBlank_iff_of_isName {t : Text} (ht : Markup.IsName t) :
    t.isBlank = true ↔
      ∀ c ∈ t.chars, CharClass.isWhiteSpace c = true ∧ CharClass.isMarkupSpace c = false := by
  have hspace : ∀ c ∈ t.chars, CharClass.isMarkupSpace c = false := by
    intro c hc
    have hname := ht.2 c hc
    simp only [Markup.endsName, Bool.or_eq_false_iff] at hname
    exact hname.1.1.1.1.1
  rw [Text.isBlank_iff, Text.chars, List.forall_mem_map]
  constructor
  · intro hblank g hg
    exact ⟨hblank g hg, hspace _ (List.mem_map_of_mem hg)⟩
  · intro hblank g hg
    exact (hblank g hg).1

theorem gives_attr {a : Markup.Attr} {attr : Attr} (hmeans : AttrMeans a attr) (hvalid : AttrValid a)
    (hcut : a.WellCut) : List.Forall₂ (PathSource.Gives source) (attrSources a) attr.paths := by
  rw [attrSources, Attr.paths, hmeans.name, hmeans.form, hmeans.value]
  cases hspread : Attribute.isSpread a.name with
  | true =>
    obtain ⟨hgiven, path, hpath⟩ := (hvalid.spread hspread).2
    rw [hpath]
    exact .cons (.of_given hpath hgiven (by simp [PathSource.MayBeBlank])) .nil
  | false =>
    cases hvalue : a.hasValue with
    | false => exact .nil
    | true =>
      cases hquoted : a.quoted with
      | true => exact .nil
      | false =>
        obtain ⟨path, hpath⟩ := hvalid.unquoted hspread hvalue hquoted
        rw [hpath]
        exact .cons ⟨hpath, isBlank_iff_of_isName (hcut hvalue hquoted)⟩ .nil

/-! ### Items that are accepted -/

/-- What is known of an item of markup that is valid and comes from a source. -/
def Item.Accepted (source : Text) : WrittenItem → Prop
  | .element _ attrs => ∀ a ∈ attrs, AttrValid a ∧ a.WellCut
  | .test t => t.isBlank = true → t = [] ∧ LeftOpen source
  | .expression t => t.isBlank = false
  | _ => True

theorem accepted_writtenHeader {name : Text} {parameters : List Markup.Parameter}
    (hcut : ∀ p ∈ parameters, p.WellCut source) :
    ∀ item ∈ writtenHeader name parameters, item.Accepted source := by
  rw [writtenHeader]
  split
  · exact List.forall_mem_map.mpr hcut
  split
  · exact List.forall_mem_map.mpr fun _ _ => trivial
  · exact List.forall_mem_singleton.mpr trivial

mutual

theorem accepted_writtenItems {n : Markup.Node} (hvalid : NodeValid n) (hcut : n.WellCut source) :
    ∀ item ∈ writtenItems n, item.Accepted source := by
  match n with
  | .element name attrs children selfClosing spans =>
    rw [writtenItems]
    refine List.forall_mem_append.mpr ⟨List.forall_mem_cons.mpr ⟨?_, ?_⟩, by simp [Item.Accepted]⟩
    · exact fun a ha => ⟨hvalid.1 a ha, hcut.1 a ha⟩
    · exact accepted_writtenItemsIn hvalid.2 hcut.2
  | .text value tokens span =>
    rw [writtenItems]
    refine List.forall_mem_map.mpr fun t ht => ?_
    have hgiven := hvalid t ht
    rw [writtenToken]
    split
    · rename_i e hlexeme
      exact (hgiven e hlexeme).1
    · trivial
  | .comment body span => simp [writtenItems]
  | .block name parameters children spans =>
    rw [writtenItems]
    refine List.forall_mem_append.mpr ⟨List.forall_mem_append.mpr ⟨?_, ?_⟩, by simp [Item.Accepted]⟩
    · exact accepted_writtenHeader hcut.1
    · exact accepted_writtenItemsIn hvalid.2 hcut.2

theorem accepted_writtenItemsIn {before nodes : List Markup.Node} (hvalid : ValidIn before nodes)
    (hcut : Markup.WellCutIn source nodes) :
    ∀ item ∈ writtenItemsIn before nodes, item.Accepted source := by
  match nodes with
  | [] => simp [writtenItemsIn]
  | n :: rest =>
    rw [writtenItemsIn]
    refine List.forall_mem_append.mpr ⟨?_, accepted_writtenItemsIn hvalid.2.2 hcut.2⟩
    split
    · simp
    · exact accepted_writtenItems hvalid.1 hcut.1

end

theorem forall_mem_joined {p : WrittenItem → Prop} (htext : ∀ value, p (.text value))
    {items : List WrittenItem} (hitems : ∀ item ∈ items, p item) : ∀ item ∈ joined items, p item := by
  have hconsText (value : Text) {items : List WrittenItem} (hitems : ∀ item ∈ items, p item) :
      ∀ item ∈ consText value items, p item := by
    fun_cases consText value items with
    | case1 next rest => exact List.forall_mem_cons.mpr ⟨htext _, (List.forall_mem_cons.mp hitems).2⟩
    | case2 => exact hitems
    | case3 => exact List.forall_mem_cons.mpr ⟨htext value, hitems⟩
  induction items with
  | nil => exact hitems
  | cons item rest ih =>
    obtain ⟨hitem, hrest⟩ := List.forall_mem_cons.mp hitems
    change ∀ other ∈ consItem item (joined rest), p other
    cases item with
    | text value => exact hconsText value (ih hrest)
    | _ => exact List.forall_mem_cons.mpr ⟨hitem, ih hrest⟩

theorem Item.Means.gives {x : WrittenItem} {y : MeantItem} (hmeans : Item.Means x y)
    (haccepted : x.Accepted source) :
    List.Forall₂ (PathSource.Gives source) x.sources y.paths := by
  cases hmeans with
  | element hattrs =>
    refine List.rel_flatMap ((List.forall₂_and_left _ _).mpr ⟨haccepted, hattrs⟩) ?_
    rintro a attr ⟨⟨hvalid, hcut⟩, hattr⟩
    exact gives_attr hattr hvalid hcut
  | @test t path hpath =>
    refine .cons ⟨hpath, haccepted, ?_⟩ .nil
    rintro ⟨hempty, -⟩
    have hnil : t = [] := hempty
    subst hnil
    rfl
  | loop hloop => exact .cons (gives_collection hloop) .nil
  | expression hpath => exact .cons (.of_given hpath haccepted (by simp [PathSource.MayBeBlank])) .nil
  | text => exact .nil
  | otherwise => exact .nil
  | leave => exact .nil

theorem wellCutIn_treat (o : Options) {text : Text}
    (hproblems : (Markup.Tree.ofText ⟨false⟩ text).diagnostics = []) :
    Markup.WellCutIn text (o.treat (Markup.Tree.ofText ⟨false⟩ text).nodes) := by
  have hread : Markup.WellCutIn text (Markup.Tree.ofText ⟨false⟩ text).nodes :=
    Markup.Tree.ofText_wellCut (List.append_eq_nil_iff.mp hproblems).1
  rw [Options.treat]
  split
  · exact hread
  · exact Markup.wellCutIn_iff.mpr (Markup.outlasts_wellCut.nodes (Markup.wellCutIn_iff.mp hread))

/-- The expressions of a source that is accepted are, one after the other, read as the paths of its
template. Blank ones among them are tests that are left open, and values without quotes of white space that
is not markup space. -/
theorem blank_source_iff (o : Options) (text : Text) (root : Node) (hparse : parse o text = .ok root) :
    ∃ nodes, parseMarkup o text = .ok nodes ∧
      List.Forall₂ (fun e path => Path.parse e.text = .ok path ∧
        (e.text.isBlank = true ↔ e.MayBeBlank text)) (pathSources nodes) root.paths := by
  obtain ⟨nodes, hmarkup, hmeans⟩ := parse_means hparse
  obtain ⟨others, hothers, hnone, -⟩ := parse_eq_ok hparse
  obtain rfl : others = nodes := Except.ok.inj (hothers.symm.trans hmarkup)
  obtain ⟨hproblems, rfl⟩ := parseMarkup_eq_ok hmarkup
  have hvalid : ValidIn [] (o.treat (Markup.Tree.ofText ⟨false⟩ text).nodes) :=
    (nodesOfMarkup_eq_nil_iff (fromSourceIn_treat ⟨false⟩ o text) [] (by rintro ⟨⟩)).mp hnone
  have haccepted := forall_mem_joined (fun _ => trivial)
    (accepted_writtenItemsIn hvalid (wellCutIn_treat o hproblems))
  have hgives : List.Forall₂ (PathSource.Gives text)
      ((joined (writtenItemsIn [] (o.treat (Markup.Tree.ofText ⟨false⟩ text).nodes))).flatMap Item.sources)
      ((joined root.items).flatMap Item.paths) :=
    List.rel_flatMap ((List.forall₂_and_left _ _).mpr ⟨haccepted, hmeans⟩)
      fun _ _ hitem => hitem.2.gives hitem.1
  rw [flatMap_joined fun _ => rfl, flatMap_joined fun _ => rfl] at hgives
  exact ⟨_, hmarkup, hgives.imp fun _ _ hpath => ⟨hpath.parse, hpath.blank⟩⟩

/-- An expression at each site, with a test that is left open. -/
def pathsEverywhere : Text :=
  "<a ...p.q b=r.s c='t'>@if ( ; ) \x7b@for (v of w) \x7b\x7b\x7b v \x7d\x7d\x7d\x7d</a>"

theorem pathsEverywhere_sources :
    ∃ root, parse .default pathsEverywhere = .ok root ∧
      root.paths = ([["p", "q"], ["r", "s"], [], ["w"], ["v"]] : List Path) ∧
      ∃ nodes, parseMarkup .default pathsEverywhere = .ok nodes ∧
        List.Forall₂ (fun e path => Path.parse e.text = .ok path ∧
          (e.text.isBlank = true ↔ e.MayBeBlank pathsEverywhere)) (pathSources nodes) root.paths := by
  have hread : ∃ root, parse .default pathsEverywhere = .ok root ∧
      root.paths = ([["p", "q"], ["r", "s"], [], ["w"], ["v"]] : List Path) :=
    ⟨_, parse_eq_ok_iff.mpr ⟨by decide +kernel, by decide +kernel, rfl⟩, by decide +kernel⟩
  obtain ⟨root, hparse, hpaths⟩ := hread
  exact ⟨root, hparse, hpaths, blank_source_iff .default pathsEverywhere root hparse⟩

/-- A test with nothing in it is read as the path of the whole context. -/
theorem open_test_blank :
    ∃ root nodes, parse .default "@if (;) \x7bx\x7d" = .ok root ∧
      parseMarkup .default "@if (;) \x7bx\x7d" = .ok nodes ∧
      pathSources nodes = [⟨.test, []⟩] ∧ root.paths = [[]] := by
  refine ⟨_, _, parse_eq_ok_iff.mpr ⟨by decide +kernel, by decide +kernel, rfl⟩, rfl, ?_, ?_⟩
  · decide +kernel
  · decide +kernel

end Template

end Stencil
