import Stencil.Proofs.Cursors

/-!
# Tokens spell out their source

A token can be read off the stretch of the source that its span names: each kind of token is spelled in
one way, and what it carries follows from that spelling. Tokens stand one after the other, and as long as
nothing went wrong only blanks and the signs `=`, `(`, `)` and `;` stand between them, so nothing of a
source is lost.

The tokens of a construct are *laid out* between the cursor it starts from and the cursor it leaves
behind. Layouts are put together along the scanner, one construct after the other.
-/

namespace Stencil

/-- The bytes of a character at an offset lie within a span. -/
def Span.Covers (s : Span) (offset size : Nat) : Prop :=
  s.start.offset ≤ offset ∧ offset + size ≤ s.stop.offset

end Stencil

namespace Stencil.Markup

/-- The characters that may stand between two tokens. -/
def isSeparator (c : Char) : Bool :=
  CharClass.isMarkupSpace c || c == '=' || c == '(' || c == ')' || c == ';'

def IsSpace (t : Text) : Prop := ∀ c ∈ t.chars, CharClass.isMarkupSpace c = true

def IsName (t : Text) : Prop := t ≠ [] ∧ ∀ c ∈ t.chars, endsName c = false

def Lexeme.isQuote : Lexeme → Bool
  | .attrQuote _ => true
  | _ => false

/-- How a lexeme is spelled in a source. A value is quoted if a quote comes `previous` to it. -/
def Spells (options : ScanOptions) (previous : Option Lexeme) (slice : Text) : Lexeme → Prop
  | .tagOpenStart name => slice = "<" ++ name
  | .tagOpenEnd => slice = ">"
  | .tagOpenEndVoid => slice = "/>"
  | .tagClose name =>
    ∃ before after, slice = "</" ++ before ++ name ++ after ++ ">" ∧ IsSpace before ∧ IsSpace after ∧
      IsName name
  | .text value => value = Scan.decoded options slice
  | .rawText value => value = Scan.lineEndings options slice
  | .interpolation expression => slice = "\x7b\x7b" ++ expression ++ "\x7d\x7d"
  | .comment body => ∃ raw, slice = "<!--" ++ raw ++ "-->" ∧ body = Scan.lineEndings options raw
  | .attrName name => slice = name
  | .attrQuote quote => slice = quote ∧ (quote = "\"" ∨ quote = "'")
  | .attrValue value =>
    value = if previous.any Lexeme.isQuote then Scan.decoded options slice else slice
  | .blockOpenStart name => slice = "@" ++ name
  | .blockParameter expression => expression = slice.trim
  | .blockOpenEnd => slice = "\x7b"
  | .blockClose => slice = "\x7d"
  | .eof => slice = []
  | .stray => False

/-- Tokens laid out between two cursors: each is spelled where its span says, and what stands between
them are separators, unless something is `lost`. -/
inductive Laid (options : ScanOptions) (lost : Bool) :
    Option Lexeme → Cursor → List Token → Cursor → Prop
  | nil (previous : Option Lexeme) (c : Cursor) : Laid options lost previous c [] c
  | gap {previous : Option Lexeme} {c d e : Cursor} {g : Glyph} {tokens : List Token}
      (hread : c.Reads [g] d) (hgap : lost = true ∨ isSeparator g.char = true)
      (hrest : Laid options lost previous d tokens e) : Laid options lost previous c tokens e
  | token {previous : Option Lexeme} {c d e : Cursor} {gs : List Glyph} {lexeme : Lexeme}
      {tokens : List Token} (hread : c.Reads gs d)
      (hspell : Spells options previous (Text.ofGlyphs gs) lexeme)
      (hrest : Laid options lost (some lexeme) d tokens e) :
      Laid options lost previous c (⟨lexeme, c.spanTo d⟩ :: tokens) e

/-- The lexeme before whatever follows these tokens. -/
def lastLexeme (previous : Option Lexeme) (tokens : List Token) : Option Lexeme :=
  tokens.foldl (fun _ t => some t.lexeme) previous

namespace Laid

variable {options : ScanOptions} {lost : Bool} {previous : Option Lexeme} {c d e : Cursor}
  {gs : List Glyph} {tokens others : List Token} {lexeme : Lexeme}

theorem append (h : Laid options lost previous c tokens d)
    (hothers : Laid options lost (lastLexeme previous tokens) d others e) :
    Laid options lost previous c (tokens ++ others) e := by
  induction h with
  | nil => exact hothers
  | gap hread hgap _ ih => exact .gap hread hgap (ih hothers)
  | token hread hspell _ ih => exact .token hread hspell (ih hothers)

theorem weaken {lost' : Bool} (h : Laid options lost previous c tokens d)
    (hlost : lost = true → lost' = true) : Laid options lost' previous c tokens d := by
  induction h with
  | nil => exact .nil _ _
  | gap hread hgap _ ih => exact .gap hread (hgap.imp_left hlost) ih
  | token hread hspell _ ih => exact .token hread hspell ih

theorem reads (h : Laid options lost previous c tokens d) : ∃ gs, c.Reads gs d := by
  induction h with
  | nil previous c => exact ⟨[], .refl c⟩
  | gap hread _ _ ih =>
    obtain ⟨gs, hrest⟩ := ih
    exact ⟨_, hread.trans hrest⟩
  | token hread _ _ ih =>
    obtain ⟨gs, hrest⟩ := ih
    exact ⟨_, hread.trans hrest⟩

theorem gaps (hread : c.Reads gs d) (hgaps : ∀ g ∈ gs, lost = true ∨ isSeparator g.char = true)
    (hrest : Laid options lost previous d tokens e) : Laid options lost previous c tokens e := by
  induction gs generalizing c with
  | nil => rwa [← hread.eq_of_nil]
  | cons g gs ih =>
    exact .gap (Cursor.reads_advance hread.rest) (hgaps g (by simp))
      (ih hread.tail fun h hh => hgaps h (by simp [hh]))

theorem spaces (hread : c.Reads gs d) (hspaces : ∀ g ∈ gs, CharClass.isMarkupSpace g.char = true)
    (hrest : Laid options lost previous d tokens e) : Laid options lost previous c tokens e :=
  gaps hread (fun g hg => .inr (by simp [isSeparator, hspaces g hg])) hrest

/-- What was read is given up. -/
theorem skip (hread : c.Reads gs d) : Laid options true previous c [] d :=
  gaps hread (fun _ _ => .inl rfl) (.nil _ _)

/-- Each token is spelled by what was read within its span. -/
theorem spells (h : Laid options lost previous c tokens d) {before after : List Token} {t : Token}
    (htokens : tokens = before ++ t :: after) :
    ∃ gs hs e f, c.Reads gs e ∧ e.Reads hs f ∧ t.span = e.spanTo f ∧
      Spells options (lastLexeme previous before) (Text.ofGlyphs hs) t.lexeme := by
  induction h generalizing before with
  | nil => simp at htokens
  | gap hread _ _ ih =>
    obtain ⟨gs, hs, e, f, hgs, hrest⟩ := ih htokens
    exact ⟨_, hs, e, f, hread.trans hgs, hrest⟩
  | token hread hspell _ ih =>
    cases before with
    | nil =>
      obtain ⟨rfl, rfl⟩ := List.cons.inj htokens
      exact ⟨[], _, _, _, .refl _, hread, rfl, hspell⟩
    | cons u before =>
      obtain ⟨rfl, hlater⟩ := List.cons.inj htokens
      obtain ⟨gs, hs, e, f, hgs, hrest⟩ := ih hlater
      exact ⟨_, hs, e, f, hread.trans hgs, hrest⟩

/-- As long as nothing is lost, a character that was read is a separator or belongs to a token. -/
theorem separator_or_covered (h : Laid options false previous c tokens d) (hd : d.rest = [])
    {before after : List Glyph} {g : Glyph} (hc : c.rest = before ++ g :: after) :
    isSeparator g.char = true ∨ ∃ t ∈ tokens,
      t.span.Covers (c.position.offset + (Text.ofGlyphs before).length) g.bytes.length := by
  induction h generalizing before with
  | nil previous c => simp [hd] at hc
  | @gap previous c d' e x tokens hread hgap _ ih =>
    have hrest := hread.rest.symm.trans hc
    cases before with
    | nil =>
      obtain ⟨rfl, -⟩ := List.cons.inj hrest
      exact .inl (hgap.resolve_left (by decide))
    | cons y before =>
      obtain ⟨rfl, hlater⟩ := List.cons.inj hrest
      have hoffset := hread.offset
      rw [show Text.ofGlyphs (x :: before) = x.bytes ++ Text.ofGlyphs before from rfl,
        List.length_append]
      rw [show Text.ofGlyphs [x] = x.bytes ++ [] from rfl, List.append_nil] at hoffset
      rw [← Nat.add_assoc, ← hoffset]
      exact ih hd hlater
  | @token previous c d' e gs lexeme tokens hread hspell _ ih =>
    have hoffset := hread.offset
    have hbeyond : ∀ beyond, before = gs ++ beyond → d'.rest = beyond ++ g :: after →
        isSeparator g.char = true ∨ ∃ t ∈ (⟨lexeme, c.spanTo d'⟩ : Token) :: tokens,
          t.span.Covers (c.position.offset + (Text.ofGlyphs before).length) g.bytes.length := by
      rintro beyond rfl hlater
      rw [Text.ofGlyphs_append, List.length_append, ← Nat.add_assoc, ← hoffset]
      refine (ih hd hlater).imp_right ?_
      rintro ⟨t, ht, hcovers⟩
      exact ⟨t, by simp [ht], hcovers⟩
    rcases List.append_eq_append_iff.mp (hread.rest.symm.trans hc) with
      ⟨beyond, hbefore, hlater⟩ | ⟨within, rfl, hlater⟩
    · exact hbeyond beyond hbefore hlater
    · cases within with
      | nil => exact hbeyond [] (by simp) (by simpa using hlater.symm)
      | cons y within =>
        obtain ⟨rfl, -⟩ := List.cons.inj hlater
        refine .inr ⟨_, List.mem_cons_self, Nat.le_add_right _ _, ?_⟩
        change _ ≤ d'.position.offset
        rw [hoffset, Text.ofGlyphs_append, List.length_append,
          show Text.ofGlyphs (g :: within) = g.bytes ++ Text.ofGlyphs within from rfl,
          List.length_append]
        omega

theorem single (hread : c.Reads gs d) (hspell : Spells options previous (Text.ofGlyphs gs) lexeme) :
    Laid options lost previous c [⟨lexeme, c.spanTo d⟩] d :=
  .token hread hspell (.nil _ _)

end Laid

/-! ### Stretches of a source -/

namespace Cursor.Reads

variable {source : Text} {c d : Cursor} {gs : List Glyph}

theorem chars (h : c.Reads gs d) (hc : c.rest <:+ source.glyphs) :
    (Text.ofGlyphs gs).chars = gs.map Glyph.char := by
  rw [Text.chars, Text.glyphs_ofGlyphs_of_isInfix (h.isInfix hc)]

theorem mem (h : c.Reads gs d) (hc : c.rest <:+ source.glyphs) : ∀ g ∈ gs, g ∈ source.glyphs :=
  fun _ hg => (h.isInfix hc).mem hg

/-- Characters that make up an ASCII text are its bytes. -/
theorem mark (h : c.Reads gs d) (hc : c.rest <:+ source.glyphs) {t : Text} (ht : t.IsAscii)
    (hchars : gs.map Glyph.char = t.map fun b => Char.ofNat b.toNat) : Text.ofGlyphs gs = t := by
  rw [Text.eq_map_ascii ht (h.mem hc) hchars, Text.ofGlyphs_ascii]

theorem eq_nil (h : c.Reads gs d) (hc : c.rest <:+ source.glyphs) (hgs : Text.ofGlyphs gs = []) :
    gs = [] := by
  cases gs with
  | nil => rfl
  | cons g gs =>
    have hbytes := Text.bytes_ne_nil_of_mem_glyphs (h.mem hc g (by simp))
    exact absurd (List.append_eq_nil_iff.mp hgs).1 hbytes

theorem isSpace (h : c.Reads gs d) (hc : c.rest <:+ source.glyphs)
    (hspaces : ∀ g ∈ gs, CharClass.isMarkupSpace g.char = true) : IsSpace (Text.ofGlyphs gs) := by
  intro x hx
  rw [h.chars hc] at hx
  obtain ⟨g, hg, rfl⟩ := List.mem_map.mp hx
  exact hspaces g hg

end Cursor.Reads

/-! ### Constructs -/

/-- The tokens of a construct are laid out from `start` to where it ends, at or behind `c`. What it does
not give is lost only if it failed. -/
structure Scan.Lays (options : ScanOptions) (previous : Option Lexeme) (start c : Cursor) (s : Scan) :
    Prop where
  laid : Laid options s.failure.isSome previous start s.tokens s.cursor
  onward : ∃ gs, c.Reads gs s.cursor

namespace Scan

variable {options : ScanOptions} {source : Text} {previous : Option Lexeme} {start c d : Cursor}
  {mark gs : List Glyph}

theorem lays_of_laid {s : Scan} (h : Laid options s.failure.isSome previous c s.tokens s.cursor) :
    s.Lays options previous c c :=
  ⟨h, h.reads⟩

theorem lays_unexpected (hmark : start.Reads mark c) (hread : c.Reads gs d) :
    (unexpected [] d).Lays options previous start c :=
  ⟨.skip (hmark.trans hread), gs, hread⟩

theorem Lays.andThen {s : Scan} {next : Cursor → Scan} (hs : s.Lays options previous start c)
    (hnext : s.failure = none →
      (next s.cursor).Lays options (lastLexeme previous s.tokens) s.cursor s.cursor) :
    (s.andThen next).Lays options previous start c := by
  rw [Scan.andThen]
  cases hfailure : s.failure with
  | some f => exact hs
  | none =>
    have hlaid := hs.laid
    rw [hfailure] at hlaid
    have hrest := hnext hfailure
    obtain ⟨gs, hread⟩ := hs.onward
    obtain ⟨hs, hlater⟩ := hrest.onward
    exact ⟨(hlaid.weaken (by simp)).append hrest.laid, _, hread.trans hlater⟩

theorem comment_lays (hstart : start.rest <:+ source.glyphs) (hmark : start.Reads mark c)
    (hchars : mark.map Glyph.char = "<!--".toList) :
    (comment options start c).Lays options previous start c := by
  obtain ⟨raw, hraw, hend, -⟩ := Cursor.exists_seek (Cursor.beginsWith ['-', '-', '>']) c
  rw [comment]
  dsimp only
  split
  · exact lays_unexpected hmark hraw
  · rename_i hmore
    obtain ⟨close, hclose, hread⟩ := Cursor.exists_of_beginsWith (hend.resolve_left hmore)
    have hcursor := hraw.isSuffix (hmark.isSuffix hstart)
    refine ⟨.single ((hmark.trans hraw).trans hread) ⟨Text.ofGlyphs raw, ?_, ?_⟩, _, hraw.trans hread⟩
    · rw [Text.ofGlyphs_append, Text.ofGlyphs_append, hmark.mark hstart (t := "<!--") (by decide) hchars,
        hread.mark hcursor (t := "-->") (by decide) hclose]
    · rw [hraw.textTo]

theorem endTag_lays (hstart : start.rest <:+ source.glyphs) (hmark : start.Reads mark c)
    (hchars : mark.map Glyph.char = "</".toList) :
    (endTag start c).Lays options previous start c := by
  obtain ⟨before, hbefore, hspaces⟩ := Cursor.exists_skipSpace c
  obtain ⟨name, hname, hletters⟩ := Cursor.exists_skipName c.skipSpace
  obtain ⟨after, hafter, hspaces'⟩ := Cursor.exists_skipSpace c.skipSpace.skipName
  have hc := hmark.isSuffix hstart
  have hnameStart := hbefore.isSuffix hc
  have hnameStop := hname.isSuffix hnameStart
  rw [endTag]
  dsimp only
  split
  · exact lays_unexpected hmark hbefore
  · rename_i hne
    split
    · rename_i hat
      obtain ⟨g, hg, hclose⟩ := Cursor.exists_of_isAt hat
      have hrest := (hname.trans hafter).trans hclose
      refine ⟨.single ((hmark.trans hbefore).trans hrest)
        ⟨Text.ofGlyphs before, Text.ofGlyphs after, ?_, hbefore.isSpace hc hspaces,
          hafter.isSpace hnameStop hspaces', ?_, ?_⟩, _, hbefore.trans hrest⟩
      · rw [hname.textTo]
        simp only [Text.ofGlyphs_append, hmark.mark hstart (t := "</") (by decide) hchars,
          hclose.mark (hafter.isSuffix hnameStop) (t := ">") (by decide) (congrArg (fun x => [x]) hg),
          List.append_assoc]
      · simpa using hne
      · rw [hname.textTo, hname.chars hnameStart]
        intro x hx
        obtain ⟨h, hh, rfl⟩ := List.mem_map.mp hx
        exact hletters h hh
    · exact lays_unexpected hmark ((hbefore.trans hname).trans hafter)

theorem attrValue_lays (hc : c.rest <:+ source.glyphs)
    (hprevious : previous.any Lexeme.isQuote = false) :
    (attrValue options c).Lays options previous c c := by
  rw [attrValue]
  cases hpeek : c.peek? with
  | none => exact lays_unexpected (.refl c) (.refl c)
  | some q =>
    dsimp only
    split
    · rename_i hquote
      obtain ⟨g, hg, hopen⟩ := Cursor.exists_of_peek? hpeek
      obtain ⟨value, hvalue, -, -⟩ := Cursor.exists_skipWhile (· != q) c.advance
      have hvalueStart := hopen.isSuffix hc
      have hspell : ∀ {h : Glyph} {e : Cursor} {l : Option Lexeme}, e.rest <:+ source.glyphs →
          h.char = q → e.Reads [h] e.advance →
          Spells options l (Text.ofGlyphs [h]) (.attrQuote (Text.ofChar q)) := by
        intro h e l he hh hread
        rcases (by simpa [CharClass.isQuote] using hquote : q = '\'' ∨ q = '"') with rfl | rfl
        · rw [hread.mark he (t := [0x27]) (by decide) (by rw [List.map_singleton, hh]; rfl)]
          exact ⟨rfl, .inr rfl⟩
        · rw [hread.mark he (t := [0x22]) (by decide) (by rw [List.map_singleton, hh]; rfl)]
          exact ⟨rfl, .inl rfl⟩
      split
      · refine lays_of_laid (.token hopen (hspell hc hg hopen) (.skip hvalue))
      · rename_i hmore
        obtain ⟨h, hh, hclose⟩ := Cursor.exists_of_skipWhile_ne (Bool.eq_false_iff.mpr hmore)
        refine lays_of_laid (.token hopen (hspell hc hg hopen) (.token hvalue ?_ (.single hclose ?_)))
        · rw [hvalue.textTo]
          rfl
        · exact hspell (hvalue.isSuffix hvalueStart) hh hclose
    · obtain ⟨value, hvalue, -⟩ := Cursor.exists_skipName c
      split
      · exact lays_unexpected (.refl c) (.refl c)
      · apply lays_of_laid
        refine .single hvalue ?_
        rw [hvalue.textTo]
        simp [Spells, hprevious]

theorem attr_lays (hc : c.rest <:+ source.glyphs) : (attr options c).Lays options previous c c := by
  obtain ⟨name, hname, -⟩ := Cursor.exists_skipName c
  obtain ⟨space, hspace, hspaces⟩ := Cursor.exists_skipSpace c.skipName
  rw [attr]
  dsimp only
  split
  · exact lays_unexpected (.refl c) (.refl c)
  · have hspell : Spells options previous (Text.ofGlyphs name) (.attrName (c.textTo c.skipName)) := by
      rw [hname.textTo]
      rfl
    split
    · rename_i hat
      obtain ⟨g, hg, hequals⟩ := Cursor.exists_of_isAt hat
      obtain ⟨space', hspace', hspaces'⟩ := Cursor.exists_skipSpace c.skipName.skipSpace.advance
      refine Lays.andThen (lays_of_laid (.token hname hspell (.spaces hspace hspaces
        (.gap hequals (.inr ?_) (.spaces hspace' hspaces' (.nil _ _)))))) fun _ => ?_
      · rw [hg]
        decide
      · exact attrValue_lays (((hname.trans hspace).trans (hequals.trans hspace')).isSuffix hc) rfl
    · exact lays_of_laid (.token hname hspell (.spaces hspace hspaces (.nil _ _)))

theorem attrs_lays (fuel : Nat) (hc : c.rest <:+ source.glyphs) :
    (attrs options fuel c).Lays options previous c c := by
  induction fuel generalizing c previous with
  | zero =>
    obtain ⟨space, hspace, hspaces⟩ := Cursor.exists_skipSpace c
    exact lays_of_laid (.spaces hspace hspaces (.nil _ _))
  | succ fuel ih =>
    obtain ⟨space, hspace, hspaces⟩ := Cursor.exists_skipSpace c
    have hcursor := hspace.isSuffix hc
    rw [attrs]
    split
    · exact lays_of_laid (.spaces hspace hspaces (.nil _ _))
    · have hattrs : ((attr options c.skipSpace).andThen (attrs options fuel)).Lays options previous
          c.skipSpace c.skipSpace := by
        have hattr := @attr_lays options source previous _ hcursor
        refine hattr.andThen fun _ => ih ?_
        obtain ⟨gs, hread⟩ := hattr.onward
        exact hread.isSuffix hcursor
      exact lays_of_laid (.spaces hspace hspaces hattrs.laid)

theorem startTagEnd_lays (hc : c.rest <:+ source.glyphs) :
    (startTagEnd c).Lays options previous c c := by
  rw [startTagEnd]
  split
  · rename_i hslash
    obtain ⟨g, hg, hread⟩ := Cursor.exists_of_isAt hslash
    split
    · rename_i hclose
      obtain ⟨h, hh, hread'⟩ := Cursor.exists_of_isAt hclose
      refine lays_of_laid (.single (hread.trans hread') ?_)
      rw [(hread.trans hread').mark hc (t := "/>") (by decide)]
      · rfl
      · rw [List.map_append, List.map_singleton, List.map_singleton, hg, hh]
        rfl
    · exact lays_unexpected (.refl c) hread
  · split
    · rename_i hclose
      obtain ⟨g, hg, hread⟩ := Cursor.exists_of_isAt hclose
      refine lays_of_laid (.single hread ?_)
      rw [hread.mark hc (t := ">") (by decide) (congrArg (fun x => [x]) hg)]
      rfl
    · exact lays_unexpected (.refl c) (.refl c)

theorem rawText_lays (name : Text) (hc : c.rest <:+ source.glyphs) :
    (rawText options name c).Lays options previous c c := by
  obtain ⟨gs, hread, -⟩ := Cursor.exists_seek (beginsEndTag name) c
  rw [rawText, hread.textTo]
  split
  · rename_i hempty
    rw [hread.eq_nil hc (List.isEmpty_iff.mp hempty)] at hread
    rw [hread.eq_of_nil]
    exact lays_of_laid (.nil _ _)
  · exact lays_of_laid (.single hread rfl)

theorem startTag_lays (hstart : start.rest <:+ source.glyphs) (hmark : start.Reads mark c)
    (hchars : mark.map Glyph.char = "<".toList) :
    (startTag options start c).Lays options previous start c := by
  have hless : Text.ofGlyphs mark = "<" := hmark.mark hstart (by decide) hchars
  have hc := hmark.isSuffix hstart
  rw [startTag]
  split
  · refine ⟨.single hmark ?_, [], .refl c⟩
    rw [hless]
    change [0x3C] = decoded options [0x3C]
    cases options with
    | mk preserve => cases preserve <;> rfl
  · obtain ⟨name, hname, -⟩ := Cursor.exists_skipName c
    have hopened : (done [⟨.tagOpenStart (c.textTo c.skipName), start.spanTo c.skipName⟩]
        c.skipName).Lays options previous start c := by
      refine ⟨.single (hmark.trans hname) ?_, _, hname⟩
      rw [Text.ofGlyphs_append, hless, hname.textTo]
      rfl
    have hattrs : ((done [⟨.tagOpenStart (c.textTo c.skipName), start.spanTo c.skipName⟩]
        c.skipName).andThen fun c => attrs options c.rest.length c).Lays options previous start c :=
      hopened.andThen fun _ => attrs_lays _ (hname.isSuffix hc)
    dsimp only
    refine hattrs.andThen fun _ => ?_
    obtain ⟨gs, hread⟩ := hattrs.onward
    have hcursor := hread.isSuffix hc
    refine (startTagEnd_lays hcursor).andThen fun _ => ?_
    obtain ⟨gs', hread'⟩ := (@startTagEnd_lays options source none _ hcursor).onward
    split
    · exact rawText_lays _ (hread'.isSuffix hcursor)
    · exact lays_of_laid (.nil _ _)

/-! ### Blocks and texts -/

theorem exists_parameterStop (depth : Nat) (rest : List Glyph) (p : Position) :
    ∃ gs, Cursor.Reads ⟨rest, p⟩ gs (parameterStop depth rest p) := by
  induction rest generalizing depth p with
  | nil => exact ⟨[], .refl _⟩
  | cons g rest ih =>
    rw [parameterStop]
    split
    · exact ⟨[], .refl _⟩
    · obtain ⟨gs, hread⟩ := ih (if g.char = '(' then depth + 1 else if g.char = ')' then depth - 1
        else depth) (p.after g)
      exact ⟨g :: gs, hread.cons⟩

theorem blockParameters_lays (fuel : Nat) (hc : c.rest <:+ source.glyphs) :
    (blockParameters fuel c).Lays options previous c c := by
  induction fuel generalizing c previous with
  | zero => exact lays_of_laid (.nil _ _)
  | succ fuel ih =>
    rw [blockParameters]
    split
    · exact lays_of_laid (.nil _ _)
    · obtain ⟨gs, hread⟩ := exists_parameterStop 0 c.rest c.position
      have hspell : Spells options previous (Text.ofGlyphs gs)
          (.blockParameter (c.textTo (parameterStop 0 c.rest c.position)).trim) := by
        rw [hread.textTo]
        rfl
      -- A semicolon behind the parameter is passed over before the blanks.
      obtain ⟨sign, hsign, hsigns⟩ : ∃ sign, (parameterStop 0 c.rest c.position).Reads sign
          (if (parameterStop 0 c.rest c.position).isAt ';' then
            (parameterStop 0 c.rest c.position).advance
          else parameterStop 0 c.rest c.position) ∧ ∀ g ∈ sign, isSeparator g.char = true := by
        split
        · rename_i hat
          obtain ⟨g, hg, hadvance⟩ := Cursor.exists_of_isAt hat
          exact ⟨[g], hadvance, by simp [hg, isSeparator]⟩
        · exact ⟨[], .refl _, by simp⟩
      obtain ⟨space, hspace, hspaces⟩ := Cursor.exists_skipSpace
        (if (parameterStop 0 c.rest c.position).isAt ';' then
          (parameterStop 0 c.rest c.position).advance
        else parameterStop 0 c.rest c.position)
      refine Lays.andThen (lays_of_laid (.token hread hspell (.gaps hsign
        (fun g hg => .inr (hsigns g hg)) (.spaces hspace hspaces (.nil _ _))))) fun _ => ih ?_
      exact ((hread.trans hsign).trans hspace).isSuffix hc

theorem blockParameters_failure (fuel : Nat) (c : Cursor) :
    (blockParameters fuel c).failure = none := by
  induction fuel generalizing c with
  | zero => rfl
  | succ fuel ih =>
    rw [blockParameters]
    split
    · rfl
    · exact ih _

/-- The brace that ends a block header. Without it the tokens of the header are given up. -/
theorem brace_lays {tokens : List Token} (hlaid : Laid options false previous start tokens d)
    (hd : d.rest <:+ source.glyphs) (hread : c.Reads gs d) (problem : Problem) :
    (if d.isAt '\x7b' then done (tokens ++ [⟨.blockOpenEnd, d.spanTo d.advance⟩]) d.advance
      else failed [] d problem start).Lays options previous start c := by
  split
  · rename_i hat
    obtain ⟨g, hg, hbrace⟩ := Cursor.exists_of_isAt hat
    refine ⟨hlaid.append (.single hbrace ?_), _, hread.trans hbrace⟩
    rw [hbrace.mark hd (t := "\x7b") (by decide) (congrArg (fun x => [x]) hg)]
    rfl
  · obtain ⟨_, hall⟩ := hlaid.reads
    exact ⟨.skip hall, gs, hread⟩

/-- Parameters in parentheses, with the blanks around them. -/
theorem parentheses_laid (hc : c.rest <:+ source.glyphs) (hat : c.isAt '(' = true) {parameters : Scan}
    (hparameters : blockParameters c.advance.skipSpace.rest.length c.advance.skipSpace = parameters) :
    (∃ gs, c.Reads gs parameters.cursor.skipSpace) ∧
      (parameters.cursor.skipSpace.isAt ')' = true →
        Laid options false previous c parameters.tokens
          parameters.cursor.skipSpace.advance.skipSpace) := by
  obtain ⟨g, hg, hopen⟩ := Cursor.exists_of_isAt hat
  obtain ⟨space, hspace, hspaces⟩ := Cursor.exists_skipSpace c.advance
  have hfirst := hopen.trans hspace
  have hlays := @blockParameters_lays options source previous _ c.advance.skipSpace.rest.length
    (hfirst.isSuffix hc)
  have hlaid := hlays.laid
  rw [blockParameters_failure] at hlaid
  rw [hparameters] at hlays hlaid
  obtain ⟨list, hlist⟩ := hlays.onward
  obtain ⟨space', hspace', hspaces'⟩ := Cursor.exists_skipSpace parameters.cursor
  refine ⟨⟨_, hfirst.trans (hlist.trans hspace')⟩, fun hclose => ?_⟩
  obtain ⟨h, hh, hclosed⟩ := Cursor.exists_of_isAt hclose
  obtain ⟨space'', hspace'', hspaces''⟩ :=
    Cursor.exists_skipSpace parameters.cursor.skipSpace.advance
  have hrest : ∀ l, Laid options false l parameters.cursor []
      parameters.cursor.skipSpace.advance.skipSpace := fun l =>
    .spaces hspace' hspaces' (.gap hclosed (.inr (by rw [hh]; decide))
      (.spaces hspace'' hspaces'' (.nil _ _)))
  have happend := hlaid.append (hrest _)
  rw [List.append_nil] at happend
  exact .gap hopen (.inr (by rw [hg]; decide)) (.spaces hspace hspaces happend)

theorem blockHeader_lays (hstart : start.rest <:+ source.glyphs) (hat : start.isAt '@' = true) :
    (blockHeader start).Lays options previous start start.advance := by
  obtain ⟨g, hg, hmark⟩ := Cursor.exists_of_isAt hat
  have hc := hmark.isSuffix hstart
  obtain ⟨name, hname, -, -⟩ := Cursor.exists_skipWhile CharClass.isBlockName start.advance
  obtain ⟨space, hspace, hspaces⟩ :=
    Cursor.exists_skipSpace (start.advance.skipWhile CharClass.isBlockName)
  have hnamed := hname.trans hspace
  have hspell : Spells options previous (Text.ofGlyphs ([g] ++ name))
      (.blockOpenStart (start.advance.textTo (start.advance.skipWhile CharClass.isBlockName))) := by
    rw [hname.textTo, Text.ofGlyphs_append,
      hmark.mark hstart (t := "@") (by decide) (congrArg (fun x => [x]) hg)]
    rfl
  rw [blockHeader]
  dsimp only
  split
  · rename_i hparen
    obtain ⟨⟨inside, hinside⟩, hlaid⟩ :=
      @parentheses_laid options source (some (.blockOpenStart _)) _ (hnamed.isSuffix hc) hparen _ rfl
    split
    · rename_i hclose
      obtain ⟨_, hall⟩ := (hlaid hclose).reads
      exact brace_lays (.token (hmark.trans hname) hspell (.spaces hspace hspaces (hlaid hclose)))
        ((hnamed.trans hall).isSuffix hc) (hnamed.trans hall) _
    · exact ⟨.skip (hmark.trans (hnamed.trans hinside)), _, hnamed.trans hinside⟩
  · exact brace_lays (.token (hmark.trans hname) hspell (.spaces hspace hspaces (.nil _ _)))
      (hnamed.isSuffix hc) hnamed _

theorem textToken_laid {lost : Bool} (hc : c.rest <:+ source.glyphs) (hread : c.Reads gs d) :
    Laid options lost previous c (textToken options c d) d := by
  rw [textToken, hread.textTo]
  split
  · rename_i hempty
    rw [hread.eq_nil hc (List.isEmpty_iff.mp hempty)] at hread
    rw [hread.eq_of_nil]
    exact .nil _ _
  · exact .single hread rfl

theorem textRun_lays (fuel : Nat) (hc : c.rest <:+ source.glyphs) :
    (textRun options fuel c).Lays options previous c c := by
  induction fuel generalizing c previous with
  | zero => exact lays_of_laid (.nil _ _)
  | succ fuel ih =>
    obtain ⟨gs, hread, -, -⟩ := Cursor.exists_seek (fun gs => endsText gs || beginsInterpolation gs) c
    have hstop := hread.isSuffix hc
    rw [textRun]
    dsimp only
    split
    · rename_i hbegins
      obtain ⟨opening, hopening, hinner⟩ := Cursor.exists_of_beginsWith hbegins
      obtain ⟨inside, hinside, hend, -⟩ := Cursor.exists_seek (Cursor.beginsWith ['\x7d', '\x7d'])
        ((c.seek fun gs => endsText gs || beginsInterpolation gs).advanceBy 2)
      have hclose := (hinner.trans hinside).isSuffix hstop
      split
      · have hbefore : Laid options true previous c (textToken options c _) _ :=
          textToken_laid hc hread
        have hlaid := hbefore.append (.skip (hinner.trans hinside))
        rw [List.append_nil] at hlaid
        exact lays_of_laid hlaid
      · rename_i hmore
        obtain ⟨closing, hclosing, hafter⟩ := Cursor.exists_of_beginsWith (hend.resolve_left hmore)
        have hwhole := (hinner.trans hinside).trans hafter
        refine Lays.andThen (lays_of_laid ((textToken_laid hc hread).append (.single hwhole ?_)))
          fun _ => ih (hwhole.isSuffix hstop)
        rw [hinside.textTo, Text.ofGlyphs_append, Text.ofGlyphs_append,
          hinner.mark hstop (t := "\x7b\x7b") (by decide) hopening,
          hafter.mark hclose (t := "\x7d\x7d") (by decide) hclosing]
        rfl
    · exact lays_of_laid (textToken_laid hc hread)

/-- A text run that does not end at once takes a character. -/
theorem textRun_onward (hc : c.rest <:+ source.glyphs) (hmore : endsText c.rest = false) (fuel : Nat) :
    ∃ gs, c.advance.Reads gs (textRun options (fuel + 1) c).cursor := by
  obtain ⟨gs, hread, hend, -⟩ :=
    Cursor.exists_seek (fun gs => endsText gs || beginsInterpolation gs) c
  have hstop := hread.isSuffix hc
  rw [textRun]
  dsimp only
  split
  · rename_i hbegins
    obtain ⟨opening, hopening, hinner⟩ := Cursor.exists_of_beginsWith hbegins
    obtain ⟨inside, hinside, -⟩ := Cursor.exists_seek (Cursor.beginsWith ['\x7d', '\x7d'])
      ((c.seek fun gs => endsText gs || beginsInterpolation gs).advanceBy 2)
    obtain ⟨g, more, hall⟩ : ∃ g more, gs ++ opening = g :: more := by
      apply List.exists_cons_of_ne_nil
      rintro hnil
      rw [(List.append_eq_nil_iff.mp hnil).2] at hopening
      cases hopening
    have hpassed := hread.trans hinner
    rw [hall] at hpassed
    have hclose := hpassed.tail.trans hinside
    split
    · exact ⟨_, hclose⟩
    · obtain ⟨closing, hafter⟩ := Cursor.exists_advanceBy 2 (Cursor.seek
        (Cursor.beginsWith ['\x7d', '\x7d'])
        ((c.seek fun gs => endsText gs || beginsInterpolation gs).advanceBy 2))
      obtain ⟨later, hlater⟩ := (@textRun_lays options source none _ fuel
        (((hinner.trans hinside).trans hafter).isSuffix hstop)).onward
      exact ⟨_, (hclose.trans hafter).trans hlater⟩
  · rename_i hplain
    cases gs with
    | cons g more => exact ⟨more, hread.tail⟩
    | nil =>
      -- The run would be interrupted right away, and neither a text end nor an interpolation is there.
      rw [hread.eq_of_nil] at hend hplain
      have hnonempty : c.atEnd = false := by
        rw [endsText, Bool.or_assoc, Bool.or_assoc, Bool.or_eq_false_iff] at hmore
        exact hmore.1
      simp [hnonempty, hmore, hplain] at hend

/-! ### Whole sources -/

theorem Lays.advance {s : Scan} (hs : s.Lays options previous start c) (hmark : start.Reads mark c)
    (hne : mark ≠ []) : s.Lays options previous start start.advance := by
  obtain ⟨g, rest, rfl⟩ := List.exists_cons_of_ne_nil hne
  obtain ⟨gs, hread⟩ := hs.onward
  exact ⟨hs.laid, _, hmark.tail.trans hread⟩

/-- The construct that comes next takes at least one character. -/
theorem next_lays (hc : c.rest <:+ source.glyphs) (hmore : c.atEnd = false) :
    (next options c).Lays options previous c c.advance := by
  rw [next]
  split
  · rename_i hbefore
    obtain ⟨mark, hchars, hmark⟩ := Cursor.exists_of_beginsWith hbefore
    refine (comment_lays hc hmark hchars).advance hmark ?_
    rintro rfl
    cases hchars
  split
  · rename_i hbefore
    obtain ⟨mark, hchars, hmark⟩ := Cursor.exists_of_beginsWith hbefore
    refine (endTag_lays hc hmark hchars).advance hmark ?_
    rintro rfl
    cases hchars
  split
  · rename_i hat
    obtain ⟨g, hg, hmark⟩ := Cursor.exists_of_isAt hat
    exact startTag_lays hc hmark (congrArg (fun x => [x]) hg)
  rename_i hless
  split
  · rename_i hblock
    apply blockHeader_lays hc
    obtain ⟨rest, p⟩ := c
    cases rest with
    | nil => cases hblock
    | cons g rest =>
      simpa [beginsBlock, Cursor.isAt, Cursor.peek?] using (Bool.and_eq_true_iff.mp hblock).1
  rename_i hblock
  split
  · rename_i hat
    obtain ⟨g, hg, hmark⟩ := Cursor.exists_of_isAt hat
    refine ⟨.single hmark ?_, [], .refl _⟩
    rw [hmark.mark hc (t := "\x7d") (by decide) (congrArg (fun x => [x]) hg)]
    rfl
  rename_i hclose
  refine ⟨(textRun_lays _ hc).laid, textRun_onward hc ?_ _⟩
  obtain ⟨rest, p⟩ := c
  cases rest with
  | nil => cases hmore
  | cons g rest =>
    have htag : beginsTag (g :: rest) = false := by
      cases rest <;> simp_all [beginsTag, Cursor.isAt, Cursor.peek?]
    simp_all [endsText, Cursor.isAt, Cursor.peek?]

end Scan

namespace TokenStream

variable {options : ScanOptions} {source : Text}

/-- Reading goes on where the construct ends, since it took something. -/
theorem resume_eq_cursor {c : Cursor} (hc : c.rest <:+ source.glyphs) (hmore : c.atEnd = false)
    {s : Scan} {gs : List Glyph} (hs : c.advance.Reads gs s.cursor) : resume c s = s.cursor := by
  obtain ⟨g, hstep⟩ := Cursor.exists_of_not_atEnd hmore
  have hbytes := Text.bytes_ne_nil_of_mem_glyphs (hstep.mem hc g (by simp))
  have hmoved := Position.offset_afterAll_ne c.position gs hbytes
  rw [← List.singleton_append, ← (hstep.trans hs).position] at hmoved
  rw [resume, if_neg hmoved]

/-- Every token but the end mark comes from a construct that was read somewhere in the source. -/
theorem exists_next_of_mem_readFrom (fuel : Nat) {c : Cursor} (hc : c.rest <:+ source.glyphs) {t : Token}
    (ht : t ∈ (readFrom options fuel c).tokens) :
    t.lexeme = .eof ∨ ∃ d : Cursor, d.rest <:+ source.glyphs ∧ t ∈ (Scan.next options d).tokens := by
  induction fuel generalizing c with
  | zero => exact .inl (congrArg Token.lexeme (List.mem_singleton.mp ht))
  | succ fuel ih =>
    rw [readFrom] at ht
    cases hmore : c.atEnd with
    | true =>
      rw [hmore] at ht
      exact .inl (congrArg Token.lexeme (List.mem_singleton.mp ht))
    | false =>
      obtain ⟨gs, honward⟩ := (@Scan.next_lays options source none c hc hmore).onward
      obtain ⟨g, hstep⟩ := Cursor.exists_of_not_atEnd hmore
      rw [hmore, if_neg (by decide)] at ht
      dsimp only at ht
      rw [resume_eq_cursor hc hmore honward] at ht
      rcases List.mem_append.mp ht with ht | ht
      · exact .inr ⟨c, hc, ht⟩
      · exact ih ((hstep.trans honward).isSuffix hc) ht

theorem readFrom_laid (fuel : Nat) {c : Cursor} (hc : c.rest <:+ source.glyphs)
    (hfuel : c.rest.length ≤ fuel) (previous : Option Lexeme) :
    ∃ d : Cursor, d.rest = [] ∧ Laid options (!(readFrom options fuel c).diagnostics.isEmpty) previous c
      (readFrom options fuel c).tokens d := by
  induction fuel generalizing c previous with
  | zero =>
    have hend : c.rest = [] := List.length_eq_zero_iff.mp (Nat.le_zero.mp hfuel)
    exact ⟨c, hend, .single (.refl c) rfl⟩
  | succ fuel ih =>
    rw [readFrom]
    cases hmore : c.atEnd with
    | true => exact ⟨c, List.isEmpty_iff.mp hmore, .single (.refl c) rfl⟩
    | false =>
      have hlays := @Scan.next_lays options source previous c hc hmore
      obtain ⟨gs, honward⟩ := hlays.onward
      obtain ⟨g, hstep⟩ := Cursor.exists_of_not_atEnd hmore
      have hread := hstep.trans honward
      rw [if_neg (by decide)]
      dsimp only
      rw [resume_eq_cursor hc hmore honward]
      have hshorter : (Scan.next options c).cursor.rest.length ≤ fuel := by
        have hlength := congrArg List.length hread.rest
        simp only [List.length_append, List.length_singleton] at hlength
        omega
      obtain ⟨d, hd, hrest⟩ := ih (hread.isSuffix hc) hshorter
        (lastLexeme previous (Scan.next options c).tokens)
      refine ⟨d, hd, (hlays.laid.weaken fun hlost => ?_).append (hrest.weaken fun hlost => ?_)⟩
      · rw [diagnosticOf]
        cases hfailure : (Scan.next options c).failure with
        | none => simp [hfailure] at hlost
        | some f => simp
      · simp_all

end TokenStream

theorem lastLexeme_eq (previous : Option Lexeme) (tokens : List Token) :
    lastLexeme previous tokens = (tokens.getLast?.map Token.lexeme).or previous := by
  induction tokens generalizing previous with
  | nil => rfl
  | cons t tokens ih =>
    rw [show lastLexeme previous (t :: tokens) = lastLexeme (some t.lexeme) tokens from rfl, ih]
    cases tokens <;> simp [List.getLast?_cons]

/-- Every token is spelled by its stretch of the source, and a source without problems has nothing but
separators between its tokens. -/
theorem tokens_spell_source (options : ScanOptions) (source : Source) :
    (∀ before t after, (TokenStream.ofText options source.text).tokens = before ++ t :: after →
      Spells options (before.getLast?.map Token.lexeme)
        (source.slice t.span.start.offset t.span.stop.offset) t.lexeme) ∧
    ((TokenStream.ofText options source.text).diagnostics = [] →
      ∀ before g after, source.text.glyphs = before ++ g :: after →
        isSeparator g.char = true ∨ ∃ t ∈ (TokenStream.ofText options source.text).tokens,
          t.span.Covers (Text.ofGlyphs before).length g.bytes.length) := by
  obtain ⟨d, hd, hlaid⟩ := @TokenStream.readFrom_laid options source.text
    source.text.glyphs.length (.ofText source.text) List.suffix_rfl (Nat.le_refl _) none
  constructor
  · intro before t after htokens
    obtain ⟨gs, hs, e, f, hgs, hhs, hspan, hspell⟩ := hlaid.spells htokens
    rw [lastLexeme_eq, Option.or_none] at hspell
    have hbytes : source.text = Text.ofGlyphs gs ++ (Text.ofGlyphs hs ++ Text.ofGlyphs f.rest) := by
      rw [← Text.ofGlyphs_append, ← hhs.rest, ← Text.ofGlyphs_append, ← hgs.rest]
      exact (Text.ofGlyphs_glyphs _).symm
    have hstart : e.position.offset = (Text.ofGlyphs gs).length := by
      rw [hgs.offset]
      exact Nat.zero_add _
    have hstop : f.position.offset = (Text.ofGlyphs gs ++ Text.ofGlyphs hs).length := by
      rw [hhs.offset, hstart, List.length_append]
    have hslice : source.slice t.span.start.offset t.span.stop.offset = Text.ofGlyphs hs := by
      rw [hspan]
      change (source.text.take f.position.offset).drop e.position.offset = _
      rw [hstart, hstop, hbytes, ← List.append_assoc, List.take_left, List.drop_left]
    rwa [hslice]
  · intro hproblems before g after hsource
    change Laid options (!(TokenStream.ofText options source.text).diagnostics.isEmpty) none _ _ d
      at hlaid
    rw [hproblems] at hlaid
    have hcovered := hlaid.separator_or_covered hd hsource
    rwa [show (Cursor.ofText source.text).position.offset = 0 from rfl, Nat.zero_add] at hcovered

/-- A reference in a quoted value, a stray byte in a text, and blanks wherever they may stand. -/
def spacedOut : Source where
  text := Text.ofString "<a b = 'x&amp;y' c=d>@if ( p ) \x7b" ++ 0xC3 ::
    Text.ofString "\x7b\x7b q \x7d\x7d\r\n<!-- n -->\x7d</ a\n>"
  url := []

theorem spacedOut_spelled :
    (∃ before t after, (TokenStream.ofText ⟨false⟩ spacedOut.text).tokens = before ++ t :: after ∧
      t.lexeme = .attrValue "x&y" ∧
      Spells ⟨false⟩ (before.getLast?.map Token.lexeme)
        (spacedOut.slice t.span.start.offset t.span.stop.offset) t.lexeme) ∧
    (TokenStream.ofText ⟨false⟩ spacedOut.text).diagnostics = [] ∧
      ∀ before g after, spacedOut.text.glyphs = before ++ g :: after →
        isSeparator g.char = true ∨ ∃ t ∈ (TokenStream.ofText ⟨false⟩ spacedOut.text).tokens,
          t.span.Covers (Text.ofGlyphs before).length g.bytes.length := by
  obtain ⟨hspells, hcovers⟩ := tokens_spell_source ⟨false⟩ spacedOut
  have htokens : (TokenStream.ofText ⟨false⟩ spacedOut.text).tokens =
      (TokenStream.ofText ⟨false⟩ spacedOut.text).tokens.take 3 ++
        ⟨.attrValue "x&y", ⟨⟨8, 0, 8⟩, ⟨15, 0, 15⟩⟩⟩ ::
          (TokenStream.ofText ⟨false⟩ spacedOut.text).tokens.drop 4 := by decide +kernel
  have hproblems : (TokenStream.ofText ⟨false⟩ spacedOut.text).diagnostics = [] := by decide +kernel
  exact ⟨⟨_, _, _, htokens, rfl, hspells _ _ _ htokens⟩, hproblems, hcovers hproblems⟩

end Stencil.Markup
