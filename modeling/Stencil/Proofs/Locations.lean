import Stencil.Proofs.Spelling

/-!
# Places in a source are exact

A position says how many bytes, lines and columns stand before it. It is never computed from the source:
it is carried along by a cursor, which may be kept, given up or taken up again after a failure. All the
same it is right, because a cursor is only ever moved forward character by character, so whatever cursor
is looked at, reading some first characters of the source leads to it.

Tokens are covered by the way they are laid out. What has to be added is where failures are reported: the
faulty stretch begins behind the start of its construct and ends where reading has come to.
-/

namespace Stencil

/-- The characters of a line that was begun and not ended, last one first, when `passed` are the
characters before, last one first. -/
def sinceLineFeed (passed : List Glyph) : List Glyph := passed.takeWhile fun g => g.char != '\n'

/-- A position between two characters of a source, with its line and its column counted from there: line
feeds are counted in the bytes before it, columns in the characters since the last line feed, where a
carriage return does not count. -/
structure Position.IsExact (source : Text) (p : Position) : Prop where
  within : p.offset ≤ source.length
  line : p.line = (source.take p.offset).count 0x0A
  between : ∃ passed rest, source.glyphs = passed ++ rest ∧ p.offset = (Text.ofGlyphs passed).length ∧
    p.column = (sinceLineFeed passed.reverse).countP fun g => g.char != '\r'

/-- A stretch between two exact positions, the first one first. -/
structure Span.IsExact (source : Text) (s : Span) : Prop where
  start : s.start.IsExact source
  stop : s.stop.IsExact source
  ordered : s.start.offset ≤ s.stop.offset

/-! ### Positions after some characters -/

/-- No character but the line feed has its byte. -/
theorem Glyph.count_lineFeed {g : Glyph} (hg : g.IsRead) :
    g.bytes.count 0x0A = if g.char = '\n' then 1 else 0 := by
  obtain ⟨b, rest, rfl⟩ := hg
  by_cases hb : b < 0x80
  · rw [first_of_lt hb]
    have hall : ∀ n < 128, ([UInt8.ofNat n].count 0x0A = if Char.ofNat (UInt8.ofNat n).toNat = '\n'
        then 1 else 0) := by decide
    have hbyte := hall b.toNat (UInt8.lt_iff_toNat_lt.mp hb)
    rw [UInt8.ofNat_toNat] at hbyte
    exact hbyte
  · have hchar : (first b rest).char ≠ '\n' := by
      intro heq
      have hle := le_char_first hb rest
      rw [heq] at hle
      exact absurd hle (by decide)
    have hbytes : 0x0A ∉ (first b rest).bytes := by
      intro hmem
      obtain ⟨tail, after, htail, -, hcontinuation⟩ := first_split b rest
      rw [htail] at hmem
      rcases List.mem_cons.mp hmem with rfl | hmem
      · exact hb (by decide)
      · exact absurd (hcontinuation _ hmem) (by decide)
    rw [if_neg hchar, List.count_eq_zero.mpr hbytes]

namespace Position

theorem line_afterAll (p : Position) {gs : List Glyph} (hgs : ∀ g ∈ gs, g.IsRead) :
    (p.afterAll gs).line = p.line + (Text.ofGlyphs gs).count 0x0A := by
  induction gs generalizing p with
  | nil => rfl
  | cons g gs ih =>
    have hbytes : Text.ofGlyphs (g :: gs) = g.bytes ++ Text.ofGlyphs gs := rfl
    have hstep : (p.after g).line = p.line + g.bytes.count 0x0A := by
      rw [Glyph.count_lineFeed (hgs g List.mem_cons_self), after]
      by_cases hlf : g.char = '\n'
      · simp [hlf]
      · by_cases hcr : g.char = '\r' <;> simp [hlf, hcr]
    have hrest := ih (p.after g) fun h hh => hgs h (List.mem_cons_of_mem g hh)
    rw [hbytes, List.count_append]
    change ((p.after g).afterAll gs).line = _
    omega

/-- The characters are taken last one first, so that the last one decides. -/
theorem column_afterAll_reverse (passed : List Glyph) :
    (origin.afterAll passed.reverse).column =
      (sinceLineFeed passed).countP fun g => g.char != '\r' := by
  induction passed with
  | nil => rfl
  | cons g passed ih =>
    rw [sinceLineFeed] at ih ⊢
    rw [List.reverse_cons, afterAll_append]
    change (Position.after _ g).column = _
    rw [after]
    by_cases hlf : g.char = '\n'
    · simp [hlf]
    · rw [List.takeWhile_cons_of_pos (by simp [hlf])]
      by_cases hcr : g.char = '\r'
      · rw [List.countP_cons_of_neg (by simp [hcr])]
        simpa [hlf, hcr] using ih
      · rw [List.countP_cons_of_pos (by simp [hcr])]
        simpa [hlf, hcr] using ih

/-- What reading leads to is exact. -/
theorem isExact_afterAll {source : Text} {passed rest : List Glyph}
    (hsource : source.glyphs = passed ++ rest) : (origin.afterAll passed).IsExact source := by
  have hoffset : (origin.afterAll passed).offset = (Text.ofGlyphs passed).length := by
    rw [offset_afterAll]
    exact Nat.zero_add _
  have hbytes : source = Text.ofGlyphs passed ++ Text.ofGlyphs rest := by
    rw [← Text.ofGlyphs_append, ← hsource, Text.ofGlyphs_glyphs]
  have hread : ∀ g ∈ passed, g.IsRead := by
    intro g hg
    apply Text.isRead_of_mem_glyphs (t := source)
    rw [hsource]
    exact List.mem_append_left rest hg
  refine ⟨?_, ?_, passed, rest, hsource, hoffset, ?_⟩
  · rw [hoffset, hbytes, List.length_append]
    omega
  · rw [line_afterAll origin hread, hoffset, hbytes, List.take_left]
    exact Nat.zero_add _
  · rw [← column_afterAll_reverse, List.reverse_reverse]

end Position

namespace Markup

variable {options : ScanOptions} {source : Text}

/-- A stretch that a cursor passes over on its way. -/
def Cursor.Passes (c : Cursor) (s : Span) : Prop :=
  ∃ gs hs d e, c.Reads gs d ∧ d.Reads hs e ∧ s = d.spanTo e

namespace Cursor.Passes

variable {c d : Cursor} {gs : List Glyph} {s : Span}

theorem of_reads (hread : c.Reads gs d) (hs : d.Passes s) : c.Passes s := by
  obtain ⟨before, within, d', e, hbefore, hwithin, rfl⟩ := hs
  exact ⟨_, within, d', e, hread.trans hbefore, hwithin, rfl⟩

theorem le_offset (h : c.Passes s) :
    c.position.offset ≤ s.start.offset ∧ s.start.offset ≤ s.stop.offset := by
  obtain ⟨before, within, d, e, hbefore, hwithin, rfl⟩ := h
  have hstart := hbefore.offset
  have hstop := hwithin.offset
  change c.position.offset ≤ d.position.offset ∧ d.position.offset ≤ e.position.offset
  omega

theorem isExact (h : (Cursor.ofText source).Passes s) : s.IsExact source := by
  obtain ⟨before, within, d, e, hbefore, hwithin, rfl⟩ := h
  have hall := hbefore.trans hwithin
  have hstart : d.position = Position.origin.afterAll before := hbefore.position
  have hstop : e.position = Position.origin.afterAll (before ++ within) := hall.position
  refine ⟨?_, ?_, ?_⟩
  · change d.position.IsExact source
    rw [hstart]
    exact Position.isExact_afterAll hbefore.rest
  · change e.position.IsExact source
    rw [hstop]
    exact Position.isExact_afterAll hall.rest
  · have hoffset := hwithin.offset
    change d.position.offset ≤ e.position.offset
    omega

end Cursor.Passes

/-! ### Tokens -/

theorem Laid.passes {lost : Bool} {previous : Option Lexeme} {c d : Cursor} {tokens : List Token}
    (h : Laid options lost previous c tokens d) {t : Token} (ht : t ∈ tokens) : c.Passes t.span := by
  obtain ⟨before, after, htokens⟩ := List.append_of_mem ht
  obtain ⟨gs, hs, e, f, hgs, hhs, hspan, -⟩ := h.spells htokens
  exact ⟨gs, hs, e, f, hgs, hhs, hspan⟩

/-- Tokens stand one behind the other. -/
theorem Laid.pairwise {lost : Bool} {previous : Option Lexeme} {c d : Cursor} {tokens : List Token}
    (h : Laid options lost previous c tokens d) :
    tokens.Pairwise fun t u => t.span.stop.offset ≤ u.span.start.offset := by
  induction h with
  | nil => exact List.Pairwise.nil
  | gap _ _ _ ih => exact ih
  | token _ _ hrest ih =>
    refine List.Pairwise.cons ?_ ih
    intro u hu
    exact (hrest.passes hu).le_offset.1

/-! ### Failures -/

/-- The stretch a failure is reported for, if there is one, is passed over from `c` on. -/
def Scan.FailsBehind (c : Cursor) (s : Scan) : Prop :=
  ∀ f ∈ s.failure, c.Passes (f.start.spanTo s.cursor)

namespace Scan

variable {previous : Option Lexeme} {start c d e : Cursor} {gs hs : List Glyph}

theorem failsBehind_done (tokens : List Token) (d : Cursor) : (done tokens d).FailsBehind c := by
  intro f hf
  cases hf

theorem failsBehind_failed (hgs : c.Reads gs d) (hhs : d.Reads hs e) (tokens : List Token)
    (problem : Problem) : (failed tokens e problem d).FailsBehind c := by
  intro f hf
  obtain rfl := Option.some.inj hf
  exact ⟨gs, hs, d, e, hgs, hhs, rfl⟩

theorem failsBehind_unexpected (hread : c.Reads gs d) (tokens : List Token) :
    (unexpected tokens d).FailsBehind c :=
  failsBehind_failed hread (.refl d) tokens _

theorem FailsBehind.of_reads {s : Scan} (hs : s.FailsBehind d) (hread : c.Reads gs d) :
    s.FailsBehind c :=
  fun f hf => (hs f hf).of_reads hread

theorem FailsBehind.andThen {s : Scan} {next : Cursor → Scan} (hs : s.FailsBehind c)
    (hread : ∃ gs, c.Reads gs s.cursor) (hnext : (next s.cursor).FailsBehind s.cursor) :
    (s.andThen next).FailsBehind c := by
  rw [Scan.andThen]
  cases hfailure : s.failure with
  | some f => exact hs
  | none =>
    obtain ⟨gs, hread⟩ := hread
    intro f hf
    exact (hnext f hf).of_reads hread

theorem comment_failsBehind : (comment options start c).FailsBehind c := by
  obtain ⟨raw, hraw, -⟩ := Cursor.exists_seek (Cursor.beginsWith ['-', '-', '>']) c
  rw [comment]
  dsimp only
  split
  · exact failsBehind_unexpected hraw []
  · exact failsBehind_done _ _

theorem endTag_failsBehind : (endTag start c).FailsBehind c := by
  obtain ⟨before, hbefore, -⟩ := Cursor.exists_skipSpace c
  obtain ⟨name, hname, -⟩ := Cursor.exists_skipName c.skipSpace
  obtain ⟨after, hafter, -⟩ := Cursor.exists_skipSpace c.skipSpace.skipName
  rw [endTag]
  dsimp only
  split
  · exact failsBehind_unexpected hbefore []
  · split
    · exact failsBehind_done _ _
    · exact failsBehind_unexpected ((hbefore.trans hname).trans hafter) []

theorem attrValue_failsBehind : (attrValue options c).FailsBehind c := by
  rw [attrValue]
  cases hpeek : c.peek? with
  | none => exact failsBehind_unexpected (.refl c) []
  | some q =>
    obtain ⟨g, -, hopen⟩ := Cursor.exists_of_peek? hpeek
    obtain ⟨value, hvalue, -⟩ := Cursor.exists_skipWhile (· != q) c.advance
    dsimp only
    split
    · split
      · exact failsBehind_unexpected (hopen.trans hvalue) _
      · exact failsBehind_done _ _
    · split
      · exact failsBehind_unexpected (.refl c) []
      · exact failsBehind_done _ _

theorem attr_failsBehind : (attr options c).FailsBehind c := by
  obtain ⟨name, hname, -⟩ := Cursor.exists_skipName c
  obtain ⟨space, hspace, -⟩ := Cursor.exists_skipSpace c.skipName
  rw [attr]
  dsimp only
  split
  · exact failsBehind_unexpected (.refl c) []
  · split
    · rename_i hat
      obtain ⟨g, -, hequals⟩ := Cursor.exists_of_isAt hat
      obtain ⟨space', hspace', -⟩ := Cursor.exists_skipSpace c.skipName.skipSpace.advance
      exact (failsBehind_done _ _).andThen ⟨_, (hname.trans hspace).trans (hequals.trans hspace')⟩
        attrValue_failsBehind
    · exact failsBehind_done _ _

theorem attrs_failsBehind (fuel : Nat) (hc : c.rest <:+ source.glyphs) :
    (attrs options fuel c).FailsBehind c := by
  induction fuel generalizing c with
  | zero => exact failsBehind_done _ _
  | succ fuel ih =>
    obtain ⟨space, hspace, -⟩ := Cursor.exists_skipSpace c
    have hcursor := hspace.isSuffix hc
    rw [attrs]
    split
    · exact failsBehind_done _ _
    · obtain ⟨gs, hread⟩ := (@attr_lays options source none _ hcursor).onward
      have hattrs := (@attr_failsBehind options c.skipSpace).andThen ⟨gs, hread⟩
        (ih (hread.isSuffix hcursor))
      exact hattrs.of_reads hspace

theorem startTagEnd_failsBehind : (startTagEnd c).FailsBehind c := by
  rw [startTagEnd]
  split
  · rename_i hslash
    obtain ⟨g, -, hread⟩ := Cursor.exists_of_isAt hslash
    split
    · exact failsBehind_done _ _
    · exact failsBehind_unexpected hread []
  · split
    · exact failsBehind_done _ _
    · exact failsBehind_unexpected (.refl c) []

theorem rawText_failsBehind (name : Text) : (rawText options name c).FailsBehind c := by
  rw [rawText]
  split <;> exact failsBehind_done _ _

theorem startTag_failsBehind (hc : c.rest <:+ source.glyphs) :
    (startTag options start c).FailsBehind c := by
  rw [startTag]
  split
  · exact failsBehind_done _ _
  · obtain ⟨name, hname, -⟩ := Cursor.exists_skipName c
    have hattrs := @attrs_lays options source none c.skipName c.skipName.rest.length
      (hname.isSuffix hc)
    obtain ⟨gs, hread⟩ := hattrs.onward
    -- The cursor behind the attributes, which the end of the tag is looked for from.
    have hopened : ∃ gs, c.Reads gs ((done [⟨.tagOpenStart (c.textTo c.skipName),
        start.spanTo c.skipName⟩] c.skipName).andThen fun c => attrs options c.rest.length c).cursor :=
      ⟨_, hname.trans hread⟩
    dsimp only
    refine ((failsBehind_done _ _).andThen ⟨name, hname⟩
      (attrs_failsBehind _ (hname.isSuffix hc))).andThen hopened ?_
    obtain ⟨gs', hread'⟩ := hopened
    refine startTagEnd_failsBehind.andThen
      (@startTagEnd_lays options source none _ (hread'.isSuffix hc)).onward ?_
    split
    · exact rawText_failsBehind _
    · exact failsBehind_done _ _

/-- A block that is not complete is reported from its start. -/
theorem blockHeader_failsBehind (hstart : start.rest <:+ source.glyphs)
    (hat : start.isAt '@' = true) : (blockHeader start).FailsBehind start := by
  have hlays := @blockHeader_lays ⟨false⟩ source none start hstart hat
  have hfails : ∀ f ∈ (blockHeader start).failure, f.start = start := by
    intro f
    rw [blockHeader]
    dsimp only
    have hbrace : ∀ (tokens : List Token) (c : Cursor) (problem : Problem),
        f ∈ (if c.isAt '\x7b' then done (tokens ++ [⟨.blockOpenEnd, c.spanTo c.advance⟩]) c.advance
          else failed [] c problem start).failure → f.start = start := by
      intro tokens c problem hf
      split at hf
      · cases hf
      · obtain rfl := Option.some.inj hf
        rfl
    split
    · split
      · exact hbrace _ _ _
      · intro hf
        obtain rfl := Option.some.inj hf
        rfl
    · exact hbrace _ _ _
  intro f hf
  obtain ⟨gs, hread⟩ := hlays.laid.reads
  rw [hfails f hf]
  exact ⟨[], gs, start, _, .refl start, hread, rfl⟩

theorem textRun_failsBehind (fuel : Nat) : (textRun options fuel c).FailsBehind c := by
  induction fuel generalizing c with
  | zero => exact failsBehind_done _ _
  | succ fuel ih =>
    obtain ⟨gs, hread, -⟩ := Cursor.exists_seek (fun gs => endsText gs || beginsInterpolation gs) c
    obtain ⟨opening, hinner⟩ := Cursor.exists_advanceBy 2
      (c.seek fun gs => endsText gs || beginsInterpolation gs)
    obtain ⟨inside, hinside, -⟩ := Cursor.exists_seek (Cursor.beginsWith ['\x7d', '\x7d'])
      ((c.seek fun gs => endsText gs || beginsInterpolation gs).advanceBy 2)
    rw [textRun]
    dsimp only
    split
    · split
      · exact failsBehind_failed hread (hinner.trans hinside) _ _
      · obtain ⟨closing, hafter⟩ := Cursor.exists_advanceBy 2 (Cursor.seek
          (Cursor.beginsWith ['\x7d', '\x7d'])
          ((c.seek fun gs => endsText gs || beginsInterpolation gs).advanceBy 2))
        exact (failsBehind_done _ _).andThen
          ⟨_, (hread.trans (hinner.trans hinside)).trans hafter⟩ ih
    · exact failsBehind_done _ _

theorem next_failsBehind (hc : c.rest <:+ source.glyphs) : (next options c).FailsBehind c := by
  rw [next]
  split
  · obtain ⟨mark, hmark⟩ := Cursor.exists_advanceBy 4 c
    exact comment_failsBehind.of_reads hmark
  split
  · obtain ⟨mark, hmark⟩ := Cursor.exists_advanceBy 2 c
    exact endTag_failsBehind.of_reads hmark
  split
  · rename_i hat
    obtain ⟨g, -, hmark⟩ := Cursor.exists_of_isAt hat
    exact (startTag_failsBehind (hmark.isSuffix hc)).of_reads hmark
  split
  · rename_i hblock
    apply blockHeader_failsBehind hc
    obtain ⟨rest, p⟩ := c
    cases rest with
    | nil => cases hblock
    | cons g rest =>
      simpa [beginsBlock, Cursor.isAt, Cursor.peek?] using (Bool.and_eq_true_iff.mp hblock).1
  split
  · exact failsBehind_done _ _
  · exact textRun_failsBehind _

end Scan

namespace TokenStream

/-- Every problem of a run is reported for a stretch that the run passed over. -/
theorem readFrom_passes (fuel : Nat) {c : Cursor} (hc : c.rest <:+ source.glyphs) :
    ∀ d ∈ (readFrom options fuel c).diagnostics, c.Passes d.span := by
  induction fuel generalizing c with
  | zero => simp [readFrom]
  | succ fuel ih =>
    rw [readFrom]
    cases hmore : c.atEnd with
    | true => simp
    | false =>
      obtain ⟨gs, honward⟩ := (@Scan.next_lays options source none c hc hmore).onward
      obtain ⟨g, hstep⟩ := Cursor.exists_of_not_atEnd hmore
      have hread := hstep.trans honward
      rw [if_neg (by decide)]
      dsimp only
      rw [resume_eq_cursor hc hmore honward]
      intro d hd
      rcases List.mem_append.mp hd with hd | hd
      · rw [diagnosticOf] at hd
        cases hfailure : (Scan.next options c).failure with
        | none => simp [hfailure] at hd
        | some f =>
          simp only [hfailure, List.mem_singleton] at hd
          rw [hd]
          exact Scan.next_failsBehind hc f hfailure
      · exact (ih (hread.isSuffix hc) d hd).of_reads hread

end TokenStream

/-- Tokens and problems are placed exactly, and a token ends before the next one begins, also where
tokens were given up after a failure. -/
theorem locations_exact (options : ScanOptions) (source : Text) :
    (∀ t ∈ (TokenStream.ofText options source).tokens, t.span.IsExact source) ∧
      (∀ d ∈ (TokenStream.ofText options source).diagnostics, d.span.IsExact source) ∧
      (TokenStream.ofText options source).tokens.Pairwise fun t u =>
        t.span.stop.offset ≤ u.span.start.offset := by
  obtain ⟨d, -, hlaid⟩ := @TokenStream.readFrom_laid options source source.glyphs.length
    (.ofText source) List.suffix_rfl (Nat.le_refl _) none
  refine ⟨fun t ht => (hlaid.passes ht).isExact, fun d hd => ?_, hlaid.pairwise⟩
  exact (TokenStream.readFrom_passes source.glyphs.length List.suffix_rfl d hd).isExact

/-- Characters of two bytes, a line end of two, a stray byte, and a block that is given up. -/
def brokenBlock : Text := Text.ofString "é\r\n" ++ 0xFF :: Text.ofString "<b>@if (x) é</b>"

theorem brokenBlock_located :
    Span.IsExact brokenBlock ⟨⟨16, 1, 12⟩, ⟨18, 1, 13⟩⟩ ∧
      Span.IsExact brokenBlock ⟨⟨8, 1, 4⟩, ⟨16, 1, 12⟩⟩ ∧
      (TokenStream.ofText ⟨false⟩ brokenBlock).tokens.Pairwise fun t u =>
        t.span.stop.offset ≤ u.span.start.offset := by
  obtain ⟨htokens, hproblems, hordered⟩ := locations_exact ⟨false⟩ brokenBlock
  have htext : (TokenStream.ofText ⟨false⟩ brokenBlock).tokens[3]? =
      some ⟨.text "é", ⟨⟨16, 1, 12⟩, ⟨18, 1, 13⟩⟩⟩ := by decide +kernel
  have hblock : (TokenStream.ofText ⟨false⟩ brokenBlock).diagnostics[0]? =
      some ⟨.incompleteBlock "if", ⟨⟨8, 1, 4⟩, ⟨16, 1, 12⟩⟩⟩ := by decide +kernel
  exact ⟨htokens _ (List.mem_of_getElem? htext), hproblems _ (List.mem_of_getElem? hblock), hordered⟩

end Markup

end Stencil
