import Stencil.Compiler
import Stencil.Proofs.Scanning
import Stencil.Proofs.TemplateMarkup

/-!
# Reading back what was written

A template that can be written is read back from what is written, places aside. The scanner is followed
construct by construct: each is read up to where the next one begins, whatever that is. Only a text needs
to know what comes after it, since it goes on until something interrupts it. The lexemes found are those of
the template's markup, and what the markup is turned into is the template.
-/

namespace Stencil.Template

open Markup (Lexeme Cursor Scan ScanOptions endsName)

variable {options : ScanOptions}

/-! ### Attributes and start tags -/

theorem glyphs_printAttr {a : Attr} (ha : IsWord a.name) :
    (printAttr a).glyphs =
      Glyph.ascii 0x20 :: (a.name.map Glyph.ascii ++ (printValue a).glyphs) := by
  have hblank : Text.ofString " " = [0x20] := rfl
  rw [printAttr, hblank, List.append_assoc, List.singleton_append,
    Text.glyphs_cons_ascii (by decide), Text.glyphs_ascii_append ha.isAscii]

theorem glyphs_quoted (value : Text) :
    (Text.ofString "=\"" ++ escape value ++ Text.ofString "\"").glyphs =
      Glyph.ascii 0x3D :: Glyph.ascii 0x22 :: ((escape value).glyphs ++ [Glyph.ascii 0x22]) := by
  have hopen : Text.ofString "=\"" = [0x3D, 0x22] := rfl
  have hclose : Text.ofString "\"" = [0x22] := rfl
  rw [hopen, hclose, List.append_assoc, List.cons_append, List.singleton_append,
    Text.glyphs_cons_ascii (by decide), Text.glyphs_cons_ascii (by decide),
    Text.glyphs_append_cons _ (by decide)]
  rfl

theorem attr_print_literal {name : Text} (hname : IsWord name) (value : Text) (spans : AttrSpans)
    (rest : List Glyph) (p : Position) :
    (Scan.attr options ⟨name.map Glyph.ascii ++
        ((printValue ⟨name, .literal, value, spans⟩).glyphs ++ rest), p⟩).Gives
      (markupAttr ⟨name, .literal, value, spans⟩).lexemes
      ⟨rest, p.afterAll (name.map Glyph.ascii ++
        (printValue ⟨name, .literal, value, spans⟩).glyphs)⟩ := by
  have hglyphs : (printValue ⟨name, .literal, value, spans⟩).glyphs =
      Glyph.ascii 0x3D :: Glyph.ascii 0x22 :: ((escape value).glyphs ++ [Glyph.ascii 0x22]) :=
    glyphs_quoted value
  have hbytes : (Text.ofGlyphs (escape value).glyphs) = escape value := Text.ofGlyphs_glyphs _
  -- No quote is left in an escaped value, so the quoted value ends where it was written to end.
  have hquoted := @Scan.attrValue_quoted options rest (escape value).glyphs
    (fun g hg => char_ne_of_mem_escape hg (b := 0x22) (by decide) (by decide))
    (p.afterAll (name.map Glyph.ascii ++ [Glyph.ascii 0x3D]))
  rw [hbytes, decoded_escape] at hquoted
  have hposition : (p.afterAll (name.map Glyph.ascii ++ [Glyph.ascii 0x3D])).afterAll
      (Glyph.ascii 0x22 :: (escape value).glyphs ++ [Glyph.ascii 0x22]) =
      p.afterAll (name.map Glyph.ascii ++ (Glyph.ascii 0x3D :: Glyph.ascii 0x22 ::
        ((escape value).glyphs ++ [Glyph.ascii 0x22]))) := by
    rw [← Position.afterAll_append, List.append_assoc]
    rfl
  rw [hposition] at hquoted
  rw [hglyphs]
  simp only [List.cons_append, List.append_assoc, List.nil_append]
  exact Scan.attr_valued hname p (by simp; decide) hquoted

theorem attr_print_path {name value : Text} (hname : IsWord name) (hvalue : IsWord value)
    (spans : AttrSpans) {rest : List Glyph} (hends : ∀ g ∈ rest.head?, endsName g.char = true)
    (p : Position) :
    (Scan.attr options ⟨name.map Glyph.ascii ++
        ((printValue ⟨name, .path, value, spans⟩).glyphs ++ rest), p⟩).Gives
      (markupAttr ⟨name, .path, value, spans⟩).lexemes
      ⟨rest, p.afterAll (name.map Glyph.ascii ++
        (printValue ⟨name, .path, value, spans⟩).glyphs)⟩ := by
  have hequals : Text.ofString "=" = [0x3D] := rfl
  have hglyphs : (printValue ⟨name, .path, value, spans⟩).glyphs =
      Glyph.ascii 0x3D :: value.map Glyph.ascii := by
    change (Text.ofString "=" ++ value).glyphs = _
    rw [hequals, List.singleton_append, Text.glyphs_cons_ascii (by decide),
      Text.glyphs_ascii hvalue.isAscii]
  have hunquoted := @Scan.attrValue_unquoted options value rest hvalue hends
    (p.afterAll (name.map Glyph.ascii ++ [Glyph.ascii 0x3D]))
  rw [← Position.afterAll_append, List.append_assoc, List.singleton_append] at hunquoted
  rw [hglyphs, List.cons_append]
  refine Scan.attr_valued hname p ?_ hunquoted
  intro g hg
  obtain ⟨first, more, hsplit, hfirst⟩ := Cursor.exists_first hvalue rest
  rw [hsplit] at hg
  obtain rfl : first = g := Option.some.inj hg
  exact Cursor.isMarkupSpace_of_endsName hfirst

/-- An attribute is read from what is written of it. Whether the blanks behind it are read with it depends
on its form. -/
theorem attr_print {a : Attr} (ha : isPrintableAttr a = true) {rest : List Glyph}
    (hends : ∀ g ∈ rest.head?, endsName g.char = true)
    (hnext : ∀ p, (Cursor.skipSpace ⟨rest, p⟩).isAt '=' = false) (p : Position) :
    ∃ d : Cursor, (Scan.attr options ⟨a.name.map Glyph.ascii ++ ((printValue a).glyphs ++ rest),
        p⟩).Gives (markupAttr a).lexemes d ∧
      d.skipSpace = Cursor.skipSpace
        ⟨rest, p.afterAll (a.name.map Glyph.ascii ++ (printValue a).glyphs)⟩ := by
  obtain ⟨name, form, value, spans⟩ := a
  obtain ⟨hname, hform⟩ := isPrintableAttr_cases ha
  rcases hform with ⟨rfl, rfl⟩ | rfl | ⟨rfl, hvalue⟩
  · -- The scanner looks for an equals sign behind the name and has skipped the blanks on its way.
    refine ⟨_, Scan.attr_boolean hname hends p (hnext _), ?_⟩
    rw [Cursor.skipSpace_skipSpace]
    simp [printValue, Text.glyphs, Text.glyphsAfter]
  · exact ⟨_, attr_print_literal hname value spans rest p, rfl⟩
  · exact ⟨_, attr_print_path hname hvalue spans hends p, rfl⟩

theorem glyphs_printAttrs_cons {a : Attr} (ha : IsWord a.name) {more : List Attr}
    (hmore : ∀ b ∈ more, IsWord b.name) :
    (printAttrs (a :: more)).glyphs =
      Glyph.ascii 0x20 :: (a.name.map Glyph.ascii ++
        ((printValue a).glyphs ++ (printAttrs more).glyphs)) := by
  have hcut : ∀ b ∈ (printAttrs more).head?, b < 0x80 := by
    cases more with
    | nil => simp [printAttrs]
    | cons c more =>
      intro b hb
      obtain rfl : 0x20 = b := Option.some.inj hb
      decide
  change (printAttr a ++ printAttrs more).glyphs = _
  rw [Text.glyphs_append _ hcut, glyphs_printAttr ha, List.cons_append, List.append_assoc]

/-- What follows an attribute in a start tag ends its name or value, and is no equals sign. -/
theorem attrs_follow {attrs : List Attr} (hattrs : ∀ a ∈ attrs, isPrintableAttr a = true) {g : Glyph}
    (hg : g.char = '>' ∨ g.char = '/') (rest : List Glyph) :
    (∀ h ∈ ((printAttrs attrs).glyphs ++ g :: rest).head?, endsName h.char = true) ∧
      ∀ p, (Cursor.skipSpace ⟨(printAttrs attrs).glyphs ++ g :: rest, p⟩).isAt '=' = false := by
  cases attrs with
  | nil =>
    have hspace : CharClass.isMarkupSpace g.char = false := by
      rcases hg with hg | hg <;> rw [hg] <;> decide
    refine ⟨?_, fun p => ?_⟩
    · intro h hh
      obtain rfl : g = h := Option.some.inj hh
      rcases hg with hg | hg <;> rw [hg] <;> decide
    · change (Cursor.skipSpace ⟨g :: rest, p⟩).isAt '=' = false
      rw [Cursor.skipSpace_cons hspace]
      rcases hg with hg | hg <;> simp [Cursor.isAt, Cursor.peek?, hg]
  | cons a more =>
    have ha : IsWord a.name := (isPrintableAttr_cases (hattrs a (by simp))).1
    have hmore : ∀ b ∈ more, IsWord b.name :=
      fun b hb => (isPrintableAttr_cases (hattrs b (by simp [hb]))).1
    rw [glyphs_printAttrs_cons ha hmore]
    refine ⟨?_, fun p => ?_⟩
    · intro h hh
      obtain rfl : Glyph.ascii 0x20 = h := Option.some.inj hh
      decide
    · rw [List.cons_append, List.append_assoc, Cursor.skipSpace_blank_word ha]
      obtain ⟨first, others, hsplit, hfirst⟩ := Cursor.exists_first ha
        ((printValue a).glyphs ++ (printAttrs more).glyphs ++ g :: rest)
      simp only [endsName, Bool.or_eq_false_iff] at hfirst
      rw [hsplit]
      simpa [Cursor.isAt, Cursor.peek?] using hfirst.2

/-- The attributes of a start tag are read up to its end. -/
theorem attrs_print {attrs : List Attr} (hattrs : ∀ a ∈ attrs, isPrintableAttr a = true) {g : Glyph}
    (hg : g.char = '>' ∨ g.char = '/') (rest : List Glyph) {fuel : Nat}
    (hfuel : attrs.length ≤ fuel) (p : Position) :
    (Scan.attrs options fuel ⟨(printAttrs attrs).glyphs ++ g :: rest, p⟩).Gives
      ((attrs.map markupAttr).flatMap Markup.Attr.lexemes)
      ⟨g :: rest, p.afterAll (printAttrs attrs).glyphs⟩ := by
  induction attrs generalizing fuel p with
  | nil => exact Scan.attrs_end hg fuel p
  | cons a more ih =>
    obtain ⟨fuel, rfl⟩ : ∃ n, fuel = n + 1 := ⟨fuel - 1, by simp at hfuel; omega⟩
    have ha : IsWord a.name := (isPrintableAttr_cases (hattrs a (by simp))).1
    have hprintable : ∀ b ∈ more, isPrintableAttr b = true := fun b hb => hattrs b (by simp [hb])
    obtain ⟨hends, hnext⟩ := attrs_follow hprintable hg rest
    obtain ⟨d, hread, hspace⟩ := @attr_print options a (hattrs a (by simp)) _ hends hnext
      (p.afterAll [Glyph.ascii 0x20])
    have hcount : more.length ≤ fuel := by simpa using hfuel
    have hothers := ih hprintable hcount
      ((p.afterAll [Glyph.ascii 0x20]).afterAll
        (a.name.map Glyph.ascii ++ (printValue a).glyphs))
    rw [glyphs_printAttrs_cons ha fun b hb => (isPrintableAttr_cases (hprintable b hb)).1,
      List.cons_append, List.append_assoc, List.append_assoc]
    have hposition : p.afterAll (Glyph.ascii 0x20 :: (a.name.map Glyph.ascii ++
        ((printValue a).glyphs ++ (printAttrs more).glyphs))) =
        ((p.afterAll [Glyph.ascii 0x20]).afterAll
          (a.name.map Glyph.ascii ++ (printValue a).glyphs)).afterAll
            (printAttrs more).glyphs := by
      rw [← Position.afterAll_append, ← Position.afterAll_append]
      simp
    rw [hposition]
    exact Scan.attrs_succ ha hread hspace hothers

theorem length_le_glyphs_printAttrs {attrs : List Attr}
    (hattrs : ∀ a ∈ attrs, isPrintableAttr a = true) :
    attrs.length ≤ (printAttrs attrs).glyphs.length := by
  induction attrs with
  | nil => exact Nat.zero_le _
  | cons a more ih =>
    have hcount := ih fun b hb => hattrs b (by simp [hb])
    rw [glyphs_printAttrs_cons (isPrintableAttr_cases (hattrs a (by simp))).1
      fun b hb => (isPrintableAttr_cases (hattrs b (by simp [hb]))).1]
    simp only [List.length_cons, List.length_append]
    omega

/-- The two ends of a start tag as they are written. -/
def IsTagEnd (ending : Text) (lexeme : Lexeme) : Prop :=
  ending = [0x3E] ∧ lexeme = .tagOpenEnd ∨ ending = [0x2F, 0x3E] ∧ lexeme = .tagOpenEndVoid

theorem startTagEnd_print {ending : Text} {lexeme : Lexeme} (hending : IsTagEnd ending lexeme)
    (rest : List Glyph) (p : Position) :
    (Scan.startTagEnd ⟨ending.map Glyph.ascii ++ rest, p⟩).Gives [lexeme]
      ⟨rest, p.afterAll (ending.map Glyph.ascii)⟩ := by
  rcases hending with ⟨rfl, rfl⟩ | ⟨rfl, rfl⟩
  · exact Scan.startTagEnd_open p
  · exact Scan.startTagEnd_selfClosing p

theorem next_startTag_print {name : Text} (hname : isPrintableTag name = true) {attrs : List Attr}
    (hattrs : ∀ a ∈ attrs, isPrintableAttr a = true) {ending : Text} {lexeme : Lexeme}
    (hending : IsTagEnd ending lexeme) (rest : List Glyph) (p : Position) :
    (Scan.next options ⟨Glyph.ascii 0x3C :: (name.map Glyph.ascii ++ ((printAttrs attrs).glyphs ++
        (ending.map Glyph.ascii ++ rest))), p⟩).Gives
      (.tagOpenStart name :: (attrs.map markupAttr).flatMap Markup.Attr.lexemes ++ [lexeme])
      ⟨rest, p.afterAll (Glyph.ascii 0x3C :: (name.map Glyph.ascii ++ ((printAttrs attrs).glyphs ++
        ending.map Glyph.ascii)))⟩ := by
  obtain ⟨htag, hparsable, _⟩ := isPrintableTag_spec hname
  have hword := isWord_of_isTagName htag
  obtain ⟨g, more, hsplit, hg⟩ : ∃ g more, ending.map Glyph.ascii ++ rest = g :: more ∧
      (g.char = '>' ∨ g.char = '/') := by
    rcases hending with ⟨rfl, _⟩ | ⟨rfl, _⟩
    · exact ⟨_, _, rfl, .inl (by decide)⟩
    · exact ⟨_, _, rfl, .inr (by decide)⟩
  cases name with
  | nil => cases htag
  | cons b name =>
    have hletter : CharClass.isLetter (byteChar b) = true := (Bool.and_eq_true_iff.mp htag).1
    have hfirst : CharClass.isLetter (Glyph.ascii b).char = true := hletter
    have hends := (attrs_follow hattrs hg more).1
    have hfuel : attrs.length ≤ ((printAttrs attrs).glyphs ++ g :: more).length := by
      have hcount := length_le_glyphs_printAttrs hattrs
      rw [List.length_append]
      omega
    have hread := @attrs_print options attrs hattrs g hg more _ hfuel
      ((p.afterAll [Glyph.ascii 0x3C]).afterAll ((b :: name).map Glyph.ascii))
    have hend := startTagEnd_print hending rest
      (((p.afterAll [Glyph.ascii 0x3C]).afterAll ((b :: name).map Glyph.ascii)).afterAll
        (printAttrs attrs).glyphs)
    rw [hsplit] at hend ⊢
    have hposition : p.afterAll (Glyph.ascii 0x3C :: ((b :: name).map Glyph.ascii ++
        ((printAttrs attrs).glyphs ++ ending.map Glyph.ascii))) =
        (((p.afterAll [Glyph.ascii 0x3C]).afterAll ((b :: name).map Glyph.ascii)).afterAll
          (printAttrs attrs).glyphs).afterAll (ending.map Glyph.ascii) := by
      rw [← Position.afterAll_append, ← Position.afterAll_append, ← Position.afterAll_append]
      simp
    rw [hposition, List.map_cons, List.cons_append, Scan.next_startTag hfirst]
    exact Scan.startTag_of_attrs hletter hword hends hparsable hread hend

/-! ### Reading on -/

/-- From this cursor on these lexemes are read, and no problem is met. -/
def ReadsFrom (options : ScanOptions) (c : Cursor) (lexemes : List Lexeme) : Prop :=
  ∀ fuel, c.rest.length ≤ fuel →
    (Markup.TokenStream.readFrom options fuel c).tokens.map Markup.Token.lexeme = lexemes ∧
      (Markup.TokenStream.readFrom options fuel c).diagnostics = []

/-- Wherever these glyphs are left, these lexemes are read from there on. -/
def Reads (options : ScanOptions) (gs : List Glyph) (lexemes : List Lexeme) : Prop :=
  ∀ p, ReadsFrom options ⟨gs, p⟩ lexemes

/-- The text run at `used` goes on behind it, and from where it ends the rest of these lexemes is read. -/
def Runs (options : ScanOptions) (used gs : List Glyph) (lexemes : List Lexeme) : Prop :=
  ∀ fuel p, (used ++ gs).length < fuel → ∃ more rest first others, gs = more ++ rest ∧
    (Scan.textRun options fuel ⟨used ++ gs, p⟩).Gives first ⟨rest, p.afterAll (used ++ more)⟩ ∧
      Reads options rest others ∧ lexemes = first ++ others

theorem reads_nil : Reads options [] [.eof] := by
  intro p fuel _
  cases fuel <;> exact ⟨rfl, rfl⟩

/-- A construct that is read up to `rest`, and what is read from there on. -/
theorem ReadsFrom.step {g : Glyph} {gs rest : List Glyph} {p : Position}
    {first others : List Lexeme} (hg : g.bytes ≠ [])
    (hnext : (Scan.next options ⟨g :: gs ++ rest, p⟩).Gives first ⟨rest, p.afterAll (g :: gs)⟩)
    (hrest : ReadsFrom options ⟨rest, p.afterAll (g :: gs)⟩ others) :
    ReadsFrom options ⟨g :: gs ++ rest, p⟩ (first ++ others) := by
  intro fuel hfuel
  rw [List.cons_append, List.length_cons, List.length_append] at hfuel
  obtain ⟨fuel, rfl⟩ : ∃ n, fuel = n + 1 := ⟨fuel - 1, by omega⟩
  have hresume : Markup.TokenStream.resume ⟨g :: gs ++ rest, p⟩
      (Scan.next options ⟨g :: gs ++ rest, p⟩) = ⟨rest, p.afterAll (g :: gs)⟩ := by
    rw [Markup.TokenStream.resume, hnext.cursor, if_neg (Position.offset_afterAll_ne p gs hg)]
  have hbehind : rest.length ≤ fuel := by omega
  obtain ⟨htokens, hproblems⟩ := hrest fuel hbehind
  rw [Markup.TokenStream.readFrom, if_neg (by simp [Cursor.atEnd])]
  dsimp only
  rw [hresume, List.map_append, hnext.lexemes, htokens, Markup.TokenStream.diagnosticOf,
    hnext.failure, hproblems]
  exact ⟨rfl, rfl⟩

theorem Reads.step {g : Glyph} {gs rest : List Glyph} {first others : List Lexeme}
    (hg : g.bytes ≠ [])
    (hnext : ∀ p, (Scan.next options ⟨g :: gs ++ rest, p⟩).Gives first
      ⟨rest, p.afterAll (g :: gs)⟩)
    (hrest : Reads options rest others) : Reads options (g :: gs ++ rest) (first ++ others) :=
  fun p => (hrest _).step hg (hnext p)

/-- A run that is interrupted at once leaves everything to be read. -/
theorem Runs.of_endsText {gs : List Glyph} {lexemes : List Lexeme}
    (hends : Markup.endsText gs = true) (hinterpolation : Markup.beginsInterpolation gs = false)
    (hreads : Reads options gs lexemes) : Runs options [] gs lexemes := by
  intro fuel p hfuel
  obtain ⟨fuel, rfl⟩ : ∃ n, fuel = n + 1 := ⟨fuel - 1, by omega⟩
  exact ⟨[], gs, [], lexemes, rfl, Scan.textRun_endsText hends hinterpolation fuel p, hreads, rfl⟩

theorem Runs.widen {used gs : List Glyph} {lexemes : List Lexeme}
    (hruns : Runs options used gs lexemes) : Runs options [] (used ++ gs) lexemes := by
  intro fuel p hfuel
  obtain ⟨more, rest, first, others, rfl, hgives, hreads, hlexemes⟩ := hruns fuel p hfuel
  exact ⟨used ++ more, rest, first, others, (List.append_assoc ..).symm, hgives, hreads, hlexemes⟩

theorem Runs.text {gs rest : List Glyph} {lexemes : List Lexeme}
    (hne : Text.ofGlyphs gs ≠ []) (hgs : ∀ g ∈ gs, Scan.isTextChar g.char = true)
    (hboundary : Scan.isBoundary rest = true) (hruns : Runs options [] rest lexemes) :
    Runs options gs rest (.text (Scan.decoded options (Text.ofGlyphs gs)) :: lexemes) := by
  intro fuel p hfuel
  obtain ⟨fuel, rfl⟩ : ∃ n, fuel = n + 1 := ⟨fuel - 1, by omega⟩
  have hbehind : rest.length < fuel + 1 := by
    rw [List.length_append] at hfuel
    omega
  obtain ⟨more, behind, first, others, rfl, hgives, hreads, rfl⟩ :=
    hruns (fuel + 1) (p.afterAll gs) hbehind
  rw [List.nil_append, List.nil_append, ← Position.afterAll_append] at hgives
  exact ⟨more, behind, _, others, rfl, Scan.textRun_text hne hgs hboundary hgives, hreads, rfl⟩

/-- An interpolation as it is written. -/
def interpolationGlyphs (w : Text) : List Glyph :=
  Glyph.ascii 0x7B :: Glyph.ascii 0x7B ::
    (w.map Glyph.ascii ++ [Glyph.ascii 0x7D, Glyph.ascii 0x7D])

theorem Runs.interpolation {w : Text} (hw : IsWord w) {rest : List Glyph} {lexemes : List Lexeme}
    (hruns : Runs options [] rest lexemes) :
    Runs options (interpolationGlyphs w) rest (.interpolation w :: lexemes) := by
  intro fuel p hfuel
  obtain ⟨fuel, rfl⟩ : ∃ n, fuel = n + 1 := ⟨fuel - 1, by omega⟩
  have hbehind : rest.length < fuel := by
    simp only [interpolationGlyphs, List.length_append, List.length_cons] at hfuel
    omega
  obtain ⟨more, behind, first, others, rfl, hgives, hreads, rfl⟩ :=
    hruns fuel (p.afterAll (interpolationGlyphs w)) hbehind
  rw [List.nil_append, List.nil_append, ← Position.afterAll_append] at hgives
  refine ⟨more, behind, .interpolation w :: first, others, rfl, ?_, hreads, rfl⟩
  have hread := Scan.textRun_interpolation hw hgives
  simpa [interpolationGlyphs] using hread

/-- A run that begins with text is the construct that comes next. -/
theorem Runs.reads {g : Glyph} {gs rest : List Glyph} {lexemes : List Lexeme} (hg : g.bytes ≠ [])
    (hless : g.char ≠ '<') (hat : g.char ≠ '@') (hclose : g.char ≠ '\x7d')
    (hruns : Runs options (g :: gs) rest lexemes) : Reads options (g :: gs ++ rest) lexemes := by
  intro p
  -- A run that comes next is given one step more than there are glyphs.
  obtain ⟨more, behind, first, others, rfl, hgives, hreads, rfl⟩ := hruns _ p (Nat.lt_succ_self _)
  have hsplit : g :: gs ++ (more ++ behind) = g :: (gs ++ more) ++ behind := by simp
  have hnext : (Scan.next options ⟨g :: (gs ++ more) ++ behind, p⟩).Gives first
      ⟨behind, p.afterAll (g :: (gs ++ more))⟩ := by
    rw [← hsplit, List.cons_append, Scan.next_text hless hat hclose]
    exact hgives
  rw [hsplit]
  exact (hreads _).step hg hnext

/-- A source that is scanned as these lexemes, where a construct begins and inside a run of text. -/
structure Scanned (options : ScanOptions) (t : Text) (lexemes : List Lexeme) : Prop where
  runs : Runs options [] t.glyphs lexemes
  reads : Reads options t.glyphs lexemes

namespace Scanned

variable {t : Text} {lexemes : List Lexeme}

theorem of_endsText (hends : Markup.endsText t.glyphs = true)
    (hinterpolation : Markup.beginsInterpolation t.glyphs = false)
    (hreads : Reads options t.glyphs lexemes) : Scanned options t lexemes :=
  ⟨.of_endsText hends hinterpolation hreads, hreads⟩

theorem nil : Scanned options [] [.eof] := of_endsText rfl rfl reads_nil

/-- A construct whose glyphs end a text. -/
theorem construct (first : List Lexeme) {gs : List Glyph} {b : UInt8} {source : Text}
    (hglyphs : source.glyphs = Glyph.ascii b :: gs ++ t.glyphs)
    (hends : Markup.endsText (Glyph.ascii b :: gs ++ t.glyphs) = true) (hb : byteChar b ≠ '\x7b')
    (hnext : ∀ p, (Scan.next options ⟨Glyph.ascii b :: gs ++ t.glyphs, p⟩).Gives first
      ⟨t.glyphs, p.afterAll (Glyph.ascii b :: gs)⟩)
    (ht : Scanned options t lexemes) : Scanned options source (first ++ lexemes) := by
  refine of_endsText ?_ ?_ ?_
  · rw [hglyphs]
    exact hends
  · rw [hglyphs]
    simp [Markup.beginsInterpolation, Cursor.beginsWith, char_ascii, hb]
  · rw [hglyphs]
    exact ht.reads.step (List.cons_ne_nil b []) hnext

/-! ### Constructs as they are written -/

theorem beginsTag_letter {g : Glyph} (hg : CharClass.isLetter g.char = true) (rest : List Glyph) :
    Markup.beginsTag (Glyph.ascii 0x3C :: g :: rest) = true := by
  rw [Markup.beginsTag, hg]
  rfl

theorem endsText_of_beginsTag {gs : List Glyph} (hgs : Markup.beginsTag gs = true) :
    Markup.endsText gs = true := by
  simp [Markup.endsText, hgs]

theorem blockClose (ht : Scanned options t lexemes) :
    Scanned options ("\x7d" ++ t) (.blockClose :: lexemes) := by
  have hglyphs : (Text.ofString "\x7d" ++ t).glyphs = [Glyph.ascii 0x7D] ++ t.glyphs :=
    Text.glyphs_cons_ascii (by decide) t
  exact construct [.blockClose] hglyphs rfl (by decide) (Scan.next_blockClose t.glyphs) ht

theorem endTag {name : Text} (hname : IsWord name) (ht : Scanned options t lexemes) :
    Scanned options ("</" ++ name ++ ">" ++ t) (.tagClose name :: lexemes) := by
  have hglyphs : (Text.ofString "</" ++ name ++ Text.ofString ">" ++ t).glyphs =
      Glyph.ascii 0x3C :: (Glyph.ascii 0x2F :: (name.map Glyph.ascii ++ [Glyph.ascii 0x3E])) ++
        t.glyphs := by
    have hopen : Text.ofString "</" = [0x3C, 0x2F] := rfl
    have hclose : Text.ofString ">" = [0x3E] := rfl
    rw [hopen, hclose]
    simp only [List.append_assoc, List.cons_append, List.nil_append]
    rw [Text.glyphs_cons_ascii (by decide), Text.glyphs_cons_ascii (by decide),
      Text.glyphs_ascii_append hname.isAscii, Text.glyphs_cons_ascii (by decide)]
  refine construct [.tagClose name] hglyphs rfl (by decide) (fun p => ?_) ht
  simp only [List.cons_append, List.append_assoc, List.nil_append]
  rw [Scan.next_endTag]
  have hread := @Scan.endTag_word name t.glyphs hname
    ⟨Glyph.ascii 0x3C :: Glyph.ascii 0x2F :: (name.map Glyph.ascii ++ Glyph.ascii 0x3E :: t.glyphs),
      p⟩ (p.afterAll [Glyph.ascii 0x3C, Glyph.ascii 0x2F])
  rwa [← Position.afterAll_append] at hread

theorem startTag {name : Text} (hname : isPrintableTag name = true) {attrs : List Attr}
    (hattrs : ∀ a ∈ attrs, isPrintableAttr a = true) {ending : Text} {lexeme : Lexeme}
    (hending : IsTagEnd ending lexeme) (ht : Scanned options t lexemes) :
    Scanned options ("<" ++ name ++ printAttrs attrs ++ (ending ++ t))
      (.tagOpenStart name :: ((attrs.map markupAttr).flatMap Markup.Attr.lexemes ++
        lexeme :: lexemes)) := by
  have htag := (isPrintableTag_spec hname).1
  have hascii : Text.IsAscii ending := by
    rcases hending with ⟨rfl, _⟩ | ⟨rfl, _⟩ <;> decide
  have hcut : ∀ b ∈ (ending ++ t).head?, b < 0x80 := by
    rcases hending with ⟨rfl, _⟩ | ⟨rfl, _⟩ <;> simp
  have hglyphs : (Text.ofString "<" ++ name ++ printAttrs attrs ++ (ending ++ t)).glyphs =
      Glyph.ascii 0x3C :: (name.map Glyph.ascii ++ ((printAttrs attrs).glyphs ++
        ending.map Glyph.ascii)) ++ t.glyphs := by
    have hopen : Text.ofString "<" = [0x3C] := rfl
    rw [hopen]
    simp only [List.append_assoc, List.cons_append, List.nil_append]
    rw [Text.glyphs_cons_ascii (by decide),
      Text.glyphs_ascii_append (isWord_of_isTagName htag).isAscii, Text.glyphs_append _ hcut,
      Text.glyphs_ascii_append hascii]
  have hends : Markup.endsText (Glyph.ascii 0x3C :: (name.map Glyph.ascii ++
      ((printAttrs attrs).glyphs ++ ending.map Glyph.ascii)) ++ t.glyphs) = true := by
    cases name with
    | nil => cases htag
    | cons b name =>
      have hletter : CharClass.isLetter (Glyph.ascii b).char = true :=
        (Bool.and_eq_true_iff.mp htag).1
      exact endsText_of_beginsTag (by rw [List.map_cons]; exact beginsTag_letter hletter _)
  have hscanned := construct
    (.tagOpenStart name :: (attrs.map markupAttr).flatMap Markup.Attr.lexemes ++ [lexeme]) hglyphs
    hends (by decide) (fun p => by
      have hread := @next_startTag_print options name hname attrs hattrs ending lexeme hending
        t.glyphs p
      simpa only [List.cons_append, List.append_assoc] using hread) ht
  simpa only [List.cons_append, List.append_assoc, List.nil_append] using hscanned

theorem endsText_of_beginsBlock {gs : List Glyph} (hgs : Markup.beginsBlock gs = true) :
    Markup.endsText gs = true := by
  simp [Markup.endsText, hgs]

/-- The blocks that have a parameter. -/
def IsParameterized (name : Text) : Prop := name = Text.ofString "if" ∨ name = Text.ofString "for"

theorem blockHeader {name w : Text} (hname : IsParameterized name) (hw : Scan.IsParameter w)
    (ht : Scanned options t lexemes) :
    Scanned options (0x40 :: (name ++ 0x20 :: 0x28 :: (w ++ 0x29 :: 0x20 :: 0x7B :: t)))
      (.blockOpenStart name :: .blockParameter w :: .blockOpenEnd :: lexemes) := by
  have hascii : Text.IsAscii name := by
    rcases hname with rfl | rfl <;> decide
  have hblock : ∀ b ∈ name, CharClass.isBlockName (byteChar b) = true := by
    rcases hname with rfl | rfl <;> exact List.all_eq_true.mp rfl
  have hbegins : ∀ gs, Markup.beginsBlock
      (Glyph.ascii 0x40 :: (name.map Glyph.ascii ++ Glyph.ascii 0x20 :: gs)) = true := by
    intro gs
    rcases hname with rfl | rfl <;> rfl
  have hglyphs : Text.glyphs (0x40 :: (name ++ 0x20 :: 0x28 ::
      (w ++ 0x29 :: 0x20 :: 0x7B :: t))) =
      Glyph.ascii 0x40 :: (name.map Glyph.ascii ++ Glyph.ascii 0x20 :: Glyph.ascii 0x28 ::
        (w.map Glyph.ascii ++ [Glyph.ascii 0x29, Glyph.ascii 0x20, Glyph.ascii 0x7B])) ++
          t.glyphs := by
    rw [Text.glyphs_cons_ascii (by decide), Text.glyphs_ascii_append hascii,
      Text.glyphs_cons_ascii (by decide), Text.glyphs_cons_ascii (by decide),
      Text.glyphs_ascii_append hw.isAscii, Text.glyphs_cons_ascii (by decide),
      Text.glyphs_cons_ascii (by decide), Text.glyphs_cons_ascii (by decide)]
    simp
  refine construct [.blockOpenStart name, .blockParameter w, .blockOpenEnd] hglyphs ?_ (by decide)
    (fun p => ?_) ht
  · simp only [List.cons_append, List.append_assoc]
    exact endsText_of_beginsBlock (hbegins _)
  · simp only [List.cons_append, List.append_assoc, List.nil_append]
    rw [Scan.next_block (hbegins _)]
    exact Scan.blockHeader_parameter hblock hw p

theorem elseHeader (ht : Scanned options t lexemes) :
    Scanned options ("@else \x7b" ++ t) (.blockOpenStart "else" :: .blockOpenEnd :: lexemes) := by
  have hbegins : ∀ gs, Markup.beginsBlock (Glyph.ascii 0x40 ::
      ((Text.ofString "else").map Glyph.ascii ++ Glyph.ascii 0x20 :: gs)) = true := fun _ => rfl
  have hglyphs : (Text.ofString "@else \x7b" ++ t).glyphs =
      Glyph.ascii 0x40 :: ((Text.ofString "else").map Glyph.ascii ++
        [Glyph.ascii 0x20, Glyph.ascii 0x7B]) ++ t.glyphs :=
    Text.glyphs_ascii_append (by decide) t
  refine construct [.blockOpenStart "else", .blockOpenEnd] hglyphs ?_ (by decide) (fun p => ?_) ht
  · simp only [List.cons_append, List.append_assoc]
    exact endsText_of_beginsBlock (hbegins _)
  · simp only [List.cons_append, List.append_assoc, List.nil_append]
    rw [Scan.next_block (hbegins _)]
    exact Scan.blockHeader_plain (List.all_eq_true.mp rfl) p

theorem interpolation {path : Path} (hpath : isPlainPath path = true)
    (ht : Scanned options t lexemes) :
    Scanned options ("\x7b\x7b" ++ path.toText ++ "\x7d\x7d" ++ t)
      (.interpolation path.toText :: lexemes) := by
  have hword := isWord_toText hpath
  have hglyphs : (Text.ofString "\x7b\x7b" ++ path.toText ++ Text.ofString "\x7d\x7d" ++ t).glyphs =
      interpolationGlyphs path.toText ++ t.glyphs := by
    have hopen : Text.ofString "\x7b\x7b" = [0x7B, 0x7B] := rfl
    have hclose : Text.ofString "\x7d\x7d" = [0x7D, 0x7D] := rfl
    rw [hopen, hclose]
    simp only [List.append_assoc, List.cons_append, List.nil_append]
    rw [Text.glyphs_cons_ascii (by decide), Text.glyphs_cons_ascii (by decide),
      Text.glyphs_ascii_append hword.isAscii, Text.glyphs_cons_ascii (by decide),
      Text.glyphs_cons_ascii (by decide)]
    simp [interpolationGlyphs]
  have hruns := Runs.interpolation hword ht.runs
  refine ⟨?_, ?_⟩
  · rw [hglyphs]
    exact hruns.widen
  · rw [hglyphs]
    exact Runs.reads (List.cons_ne_nil _ _) (by decide) (by decide) (by decide) hruns

/-- Only an ASCII byte can interrupt a text. -/
theorem lt_of_isBoundary (ht : Scan.isBoundary t.glyphs = true) : ∀ b ∈ t.head?, b < 0x80 := by
  cases t with
  | nil => simp
  | cons b rest =>
    intro c hc
    obtain rfl : b = c := Option.some.inj hc
    by_cases hlow : b < 0x80
    · exact hlow
    · have hhigh := Glyph.le_char_first hlow rest
      have hchar : ∀ x : Char, x.toNat < 0x80 → (Glyph.first b rest).char ≠ x := by
        rintro x hx rfl
        omega
      have htext : Scan.isTextChar (Glyph.first b rest).char = true := by
        simp [Scan.isTextChar, hchar '<' (by decide), hchar '@' (by decide),
          hchar '\x7b' (by decide), hchar '\x7d' (by decide)]
      have hno : Scan.isBoundary (Text.glyphs (b :: rest)) = false := Scan.not_isBoundary htext _
      rw [ht] at hno
      cases hno

theorem text {value : Text} (hvalue : value ≠ []) (hboundary : Scan.isBoundary t.glyphs = true)
    (ht : Scanned options t lexemes) :
    Scanned options (escape value ++ t) (.text value :: lexemes) := by
  have hglyphs : (escape value ++ t).glyphs = (escape value).glyphs ++ t.glyphs :=
    Text.glyphs_append _ (lt_of_isBoundary hboundary)
  have hless : ∀ g ∈ (escape value).glyphs, g.char ≠ '<' :=
    fun g hg => char_ne_of_mem_escape hg (b := 0x3C) (by decide) (by decide)
  have hat : ∀ g ∈ (escape value).glyphs, g.char ≠ '@' :=
    fun g hg => char_ne_of_mem_escape hg (b := 0x40) (by decide) (by decide)
  have hopen : ∀ g ∈ (escape value).glyphs, g.char ≠ '\x7b' :=
    fun g hg => char_ne_of_mem_escape hg (b := 0x7B) (by decide) (by decide)
  have hclose : ∀ g ∈ (escape value).glyphs, g.char ≠ '\x7d' :=
    fun g hg => char_ne_of_mem_escape hg (b := 0x7D) (by decide) (by decide)
  have hchars : ∀ g ∈ (escape value).glyphs, Scan.isTextChar g.char = true := by
    intro g hg
    simp [Scan.isTextChar, hless g hg, hat g hg, hopen g hg, hclose g hg]
  have hbytes : Text.ofGlyphs (escape value).glyphs = escape value := Text.ofGlyphs_glyphs _
  have hne : Text.ofGlyphs (escape value).glyphs ≠ [] := by
    rw [hbytes]
    exact escape_ne_nil hvalue
  have hruns := Runs.text hne hchars hboundary ht.runs
  rw [hbytes, decoded_escape] at hruns
  refine ⟨?_, ?_⟩
  · rw [hglyphs]
    exact hruns.widen
  · rw [hglyphs]
    obtain ⟨g, gs, hsplit⟩ : ∃ g gs, (escape value).glyphs = g :: gs := by
      cases hcase : (escape value).glyphs with
      | nil => exact absurd (by rw [hcase]; rfl) hne
      | cons g gs => exact ⟨g, gs, rfl⟩
    have hg : g ∈ (escape value).glyphs := by simp [hsplit]
    rw [hsplit] at hruns ⊢
    exact Runs.reads (Text.bytes_ne_nil_of_mem_glyphs hg) (hless g hg) (hat g hg) (hclose g hg) hruns

end Scanned

/-! ### Whole templates -/

theorem isParameter_word {w : Text} (hw : IsWord w) : Scan.IsParameter w where
  isAscii := hw.isAscii
  trim_eq := hw.trim_eq
  first := by
    obtain ⟨b, t, rfl⟩ := List.exists_cons_of_ne_nil hw.ne_nil
    have hb : endsName (Glyph.ascii b).char = false := hw.not_endsName (by simp)
    exact ⟨b, t, rfl, Cursor.isMarkupSpace_of_endsName hb⟩
  chars b hb := by
    have hmem : Glyph.ascii b ∈ w.map Glyph.ascii := List.mem_map_of_mem hb
    exact ⟨hw.char_ne hmem (by decide), hw.char_ne hmem (by decide), hw.char_ne hmem (by decide)⟩

theorem mem_printLoop {collection : Path} {key value : Text} {b : UInt8}
    (hb : b ∈ printLoop collection key value) :
    b ∈ value ∨ b ∈ key ∨ b ∈ collection.toText ∨ b ∈ [(0x2C : UInt8), 0x20, 0x6F, 0x66] := by
  have hcomma : Text.ofString ", " = [0x2C, 0x20] := rfl
  have hof : Text.ofString " of " = [0x20, 0x6F, 0x66, 0x20] := rfl
  have hspaces : ∀ c ∈ [(0x20 : UInt8), 0x6F, 0x66, 0x20], c ∈ [(0x2C : UInt8), 0x20, 0x6F, 0x66] := by
    simp
  rw [printLoop, hcomma, hof] at hb
  simp only [List.mem_append] at hb
  rcases hb with (((hb | hb) | hb) | hb) | hb
  · exact .inl hb
  · exact .inr (.inr (.inr (List.mem_append_left _ hb)))
  · exact .inr (.inl hb)
  · exact .inr (.inr (.inr (hspaces b hb)))
  · exact .inr (.inr (.inl hb))

theorem isParameter_printLoop {collection : Path} {key value : Text}
    (hcollection : isPlainPath collection = true) (hkey : IsWord key) (hvalue : IsWord value) :
    Scan.IsParameter (printLoop collection key value) := by
  have hpath := isWord_toText hcollection
  have hseparators : ∀ b ∈ [(0x2C : UInt8), 0x20, 0x6F, 0x66], b < 0x80 ∧
      byteChar b ≠ ';' ∧ byteChar b ≠ '(' ∧ byteChar b ≠ ')' := by
    simp only [List.mem_cons, List.not_mem_nil, or_false, forall_eq_or_imp, forall_eq]
    decide
  have hwords : ∀ w, IsWord w → ∀ b ∈ w, b < 0x80 ∧
      byteChar b ≠ ';' ∧ byteChar b ≠ '(' ∧ byteChar b ≠ ')' :=
    fun w hw b hb => ⟨hw.isAscii b hb, (isParameter_word hw).chars b hb⟩
  have hbytes : ∀ b ∈ printLoop collection key value, b < 0x80 ∧
      byteChar b ≠ ';' ∧ byteChar b ≠ '(' ∧ byteChar b ≠ ')' := by
    intro b hb
    rcases mem_printLoop hb with hb | hb | hb | hb
    · exact hwords value hvalue b hb
    · exact hwords key hkey b hb
    · exact hwords collection.toText hpath b hb
    · exact hseparators b hb
  have hascii : Text.IsAscii (printLoop collection key value) := fun b hb => (hbytes b hb).1
  obtain ⟨b, t, hsplit, hfirst⟩ := (isParameter_word hvalue).first
  have hcons : ∃ more, printLoop collection key value = b :: more := by
    rw [printLoop, hsplit]
    exact ⟨_, rfl⟩
  obtain ⟨more, hmore⟩ := hcons
  refine ⟨hascii, trim_eq_self hascii ?_ ?_, ⟨b, more, hmore, hfirst⟩, fun b hb => (hbytes b hb).2⟩
  · intro c hc
    rw [hmore] at hc
    obtain rfl : b = c := Option.some.inj hc
    exact hvalue.not_isWhiteSpace_byte (by simp [hsplit])
  · intro c hc
    obtain ⟨last, hlast⟩ := Option.ne_none_iff_exists'.mp
      (mt List.getLast?_eq_none_iff.mp hpath.ne_nil)
    rw [printLoop, List.getLast?_append, hlast] at hc
    obtain rfl : last = c := Option.some.inj hc
    exact hpath.not_isWhiteSpace_byte (List.mem_of_mem_getLast? hlast)

theorem isBoundary_of_endsText {gs : List Glyph} (hgs : Markup.endsText gs = true) :
    Scan.isBoundary gs = true := by
  rw [Scan.isBoundary, hgs, Bool.true_or]

theorem isBoundary_append {s : Text} (hs : s.IsAscii)
    (hboundary : ∀ gs, Scan.isBoundary (s.map Glyph.ascii ++ gs) = true) (t : Text) :
    Scan.isBoundary (s ++ t).glyphs = true := by
  rw [Text.glyphs_ascii_append hs]
  exact hboundary _

/-- A template that does not begin with a text interrupts one. -/
theorem isBoundary_printAll {nodes : List Node} (hnodes : arePrintable nodes = true)
    (hstart : startsWithText nodes = false) {t : Text} (ht : Scan.isBoundary t.glyphs = true) :
    Scan.isBoundary (printAll nodes ++ t).glyphs = true := by
  cases nodes with
  | nil => exact ht
  | cons node rest =>
    have hnode := (Bool.and_eq_true_iff.mp (Bool.and_eq_true_iff.mp hnodes).1).1
    cases node with
    | text => cases hstart
    | block => cases hnode
    | hole => cases hnode
    | foreign => cases hnode
    | element name attrs content selfClosing spans =>
      simp only [isPrintable, Bool.and_eq_true] at hnode
      have htag := (isPrintableTag_spec hnode.1.1.1.1).1
      cases name with
      | nil => cases htag
      | cons b name =>
        obtain ⟨more, hsource⟩ : ∃ more, printAll (.element (b :: name) attrs content selfClosing
            spans :: rest) ++ t = 0x3C :: b :: more := by
          rw [printAll, print]
          exact ⟨_, rfl⟩
        have hb : b < 0x80 := (isWord_of_isTagName htag).isAscii b (by simp)
        have hletter : CharClass.isLetter (Glyph.ascii b).char = true :=
          (Bool.and_eq_true_iff.mp htag).1
        rw [hsource, Text.glyphs_cons_ascii (by decide), Text.glyphs_cons_ascii hb]
        exact isBoundary_of_endsText
          (Scanned.endsText_of_beginsTag (Scanned.beginsTag_letter hletter _))
    | expression path span =>
      simp only [printAll, print, List.append_assoc]
      exact isBoundary_append (s := Text.ofString "\x7b\x7b") (by decide) (fun _ => rfl) _
    | conditional test consequent alternate spans =>
      simp only [printAll, print, List.append_assoc]
      exact isBoundary_append (s := Text.ofString "@if (") (by decide) (fun _ => rfl) _
    | iteration collection key value body spans =>
      simp only [printAll, print, List.append_assoc]
      exact isBoundary_append (s := Text.ofString "@for (") (by decide) (fun _ => rfl) _

theorem isBoundary_blockClose (t : Text) :
    Scan.isBoundary (Text.ofString "\x7d" ++ t).glyphs = true :=
  isBoundary_append (by decide) (fun _ => rfl) t

theorem isBoundary_endTag (name t : Text) :
    Scan.isBoundary (Text.ofString "</" ++ name ++ Text.ofString ">" ++ t).glyphs = true := by
  rw [List.append_assoc, List.append_assoc]
  exact isBoundary_append (by decide) (fun _ => rfl) _

mutual

/-- What is written of a node is scanned as the lexemes of its markup, whatever follows it. -/
theorem scanned_print (node : Node) (hnode : isPrintable node = true) {t : Text}
    {rest : List Markup.Node} {lexemes : List Lexeme}
    (ht : Scanned options t (Markup.lexemesIn rest ++ lexemes))
    (htext : startsWithText [node] = true → Scan.isBoundary t.glyphs = true) :
    Scanned options (print node ++ t) (Markup.lexemesIn (markup node rest) ++ lexemes) := by
  match node with
  | .element name attrs content selfClosing spans =>
    simp only [isPrintable, Bool.and_eq_true, List.all_eq_true] at hnode
    obtain ⟨⟨⟨⟨hname, hattrs⟩, _⟩, _⟩, hcontent⟩ := hnode
    cases selfClosing with
    | true =>
      have hending : IsTagEnd (Text.ofString "/>") .tagOpenEndVoid := .inr ⟨rfl, rfl⟩
      have hopen := ht.startTag hname hattrs hending
      rw [markup, lexemesIn_selfClosing, print, if_pos rfl]
      simpa only [List.cons_append, List.append_assoc] using hopen
    | false =>
      have hword := isWord_of_isTagName (isPrintableTag_spec hname).1
      have hclose := ht.endTag hword
      have hbody := scanned_printAll content hcontent hclose (isBoundary_endTag name t)
      have hending : IsTagEnd (Text.ofString ">") .tagOpenEnd := .inl ⟨rfl, rfl⟩
      have hopen := hbody.startTag hname hattrs hending
      rw [markup, lexemesIn_container, print, if_neg (by decide)]
      simpa only [List.cons_append, List.append_assoc] using hopen
  | .text value span =>
    rw [isPrintable] at hnode
    rw [markup, lexemesIn_consLexeme, print]
    exact ht.text (by simpa using hnode) (htext rfl)
  | .expression path span =>
    rw [isPrintable] at hnode
    rw [markup, lexemesIn_consLexeme, print]
    exact ht.interpolation hnode
  | .conditional test consequent alternate spans =>
    simp only [isPrintable, Bool.and_eq_true] at hnode
    obtain ⟨⟨htest, hconsequent⟩, halternate⟩ := hnode
    have hclose := (scanned_printAlternate alternate halternate ht).blockClose
    have hbody := scanned_printAll consequent hconsequent hclose (isBoundary_blockClose _)
    have hopen := hbody.blockHeader (.inl rfl) (isParameter_word (isWord_toText htest))
    rw [markup, lexemesIn_markupBlock, print]
    simp only [List.cons_append, List.append_assoc, List.map_cons, List.map_nil, List.nil_append]
    exact hopen
  | .iteration collection key value body spans =>
    simp only [isPrintable, Bool.and_eq_true] at hnode
    obtain ⟨⟨⟨⟨hcollection, hkey⟩, hvalue⟩, _⟩, hcontent⟩ := hnode
    have hbody := scanned_printAll body hcontent ht.blockClose (isBoundary_blockClose t)
    have hopen := hbody.blockHeader (.inr rfl) (isParameter_printLoop hcollection
      (isWord_of_isVariableName hkey) (isWord_of_isVariableName hvalue))
    rw [markup, lexemesIn_markupBlock, print]
    simp only [List.cons_append, List.append_assoc, List.map_cons, List.map_nil, List.nil_append]
    exact hopen
  | .block .. => cases hnode
  | .hole => cases hnode
  | .foreign .. => cases hnode

theorem scanned_printAlternate (alternate : Option (List Node))
    (halternate : isPrintableAlternate alternate = true) {t : Text} {rest : List Markup.Node}
    {lexemes : List Lexeme} (ht : Scanned options t (Markup.lexemesIn rest ++ lexemes)) :
    Scanned options (printAlternate alternate ++ t)
      (Markup.lexemesIn (markupAlternate alternate rest) ++ lexemes) := by
  match alternate with
  | none => exact ht
  | some nodes =>
    have hbody := scanned_printAll nodes halternate ht.blockClose (isBoundary_blockClose t)
    have hopen := hbody.elseHeader
    rw [markupAlternate, lexemesIn_markupBlock, printAlternate]
    simpa only [List.cons_append, List.append_assoc, List.map_nil, List.nil_append] using hopen

theorem scanned_printAll (nodes : List Node) (hnodes : arePrintable nodes = true) {t : Text}
    {lexemes : List Lexeme} (ht : Scanned options t lexemes)
    (hboundary : Scan.isBoundary t.glyphs = true) :
    Scanned options (printAll nodes ++ t) (Markup.lexemesIn (markupAll nodes) ++ lexemes) := by
  match nodes with
  | [] => exact ht
  | node :: rest =>
    simp only [arePrintable, Bool.and_eq_true, Bool.not_eq_true'] at hnodes
    obtain ⟨⟨hnode, hseparate⟩, hrest⟩ := hnodes
    rw [printAll, markupAll, List.append_assoc]
    -- A text goes on until it is interrupted. No text follows a text, so what follows interrupts it.
    refine scanned_print node hnode (scanned_printAll rest hrest ht hboundary) fun htext => ?_
    rw [htext, Bool.true_and] at hseparate
    exact isBoundary_printAll hrest hseparate hboundary

end

end Stencil.Template

namespace Stencil

open Template

theorem Markup.Token.map_bare (tokens : List Markup.Token) :
    tokens.map Markup.Token.bare = (tokens.map Markup.Token.lexeme).map Markup.Lexeme.token := by
  rw [List.map_map]
  rfl

/-- What is written of a template is scanned without problems, as the lexemes of its markup. -/
theorem tokens_printAll {children : List Node} (hchildren : arePrintable children = true)
    (options : Markup.ScanOptions) :
    (Markup.TokenStream.ofText options (printAll children)).tokens.map Markup.Token.lexeme =
        Markup.lexemesIn (markupAll children) ++ [.eof] ∧
      (Markup.TokenStream.ofText options (printAll children)).diagnostics = [] := by
  have hscanned := scanned_printAll children hchildren (@Scanned.nil options) rfl
  rw [List.append_nil] at hscanned
  exact hscanned.reads .origin _ (Nat.le_refl _)

/-- Places aside, the tree of what is written of a template is the template's markup. -/
theorem tree_printAll {children : List Node} (hchildren : arePrintable children = true)
    (options : Markup.ScanOptions) :
    (Markup.Tree.ofText options (printAll children)).nodes.map Markup.Node.bare =
        markupAll children ∧
      (Markup.Tree.ofText options (printAll children)).diagnostics = [] := by
  obtain ⟨hlexemes, hproblems⟩ := tokens_printAll hchildren options
  have htree := Markup.Tree.ofTokens_bare
    (Markup.TokenStream.ofText options (printAll children)).tokens
  rw [Markup.Token.map_bare, hlexemes,
    Markup.Tree.ofTokens_lexemesIn (markupAll_regular children hchildren)] at htree
  obtain ⟨hnodes, hdiagnostics⟩ := Markup.Tree.mk.inj htree
  refine ⟨hnodes, ?_⟩
  rw [Markup.Tree.ofText]
  dsimp only
  rw [hproblems, List.map_eq_nil_iff.mp hdiagnostics]
  rfl

/-- A template that can be written is read back from what is written, up to where its parts stand. -/
theorem parse_print (o : Options) {root : Node} (hroot : Printable root = true) :
    ∃ read, parse { o with preserve := true } (print root) = .ok read ∧
      read.unplaced = root.unplaced := by
  cases root with
  | block children span =>
    obtain ⟨hnodes, hproblems⟩ := tree_printAll hroot ⟨false⟩
    obtain ⟨hread, hdiagnostics⟩ := ofMarkup_markupAll hroot span
    obtain ⟨hsame, hnone⟩ := ofMarkup_bare (Markup.Tree.ofText ⟨false⟩ (printAll children)).nodes
    rw [hnodes, hread] at hsame
    rw [hnodes, hdiagnostics] at hnone
    have hmarkup : parseMarkup { o with preserve := true } (printAll children) =
        .ok (Markup.Tree.ofText ⟨false⟩ (printAll children)).nodes := by
      rw [parseMarkup]
      dsimp only
      rw [hproblems]
      rfl
    refine ⟨_, ?_, hsame.symm⟩
    rw [print, parse, hmarkup]
    dsimp only
    rw [List.map_eq_nil_iff.mp hnone.symm]
    rfl
  | _ => cases hroot

/-- Text full of marks, an alternate right behind its block, a path in front of a slash, and braces that
close an interpolation in front of one that closes a block. -/
def noticeBoard : Node :=
  .block
    [.text "1 < 2 & \x7b\x7bx\x7d\x7d @if (y) \x7b\r\n" none,
      .conditional ["user", "name"] [.expression ["user", "name"] none]
        (some [.text "\x7d" none, .expression [] none]) ⟨none, none, none⟩,
      .iteration ["items"] "k" "v"
        [.element "li"
          [⟨"class", .literal, [0x22, 0xFF, 0x3E], ⟨none, none, none⟩⟩,
            ⟨"...v.attrs", .boolean, [], ⟨none, none, none⟩⟩,
            ⟨"onclick", .path, "v.on-click", ⟨none, none, none⟩⟩]
          [.text "\n@" none] false ⟨none, none, none, none⟩,
          .element "br" [⟨"id", .path, "k", ⟨none, none, none⟩⟩] [] true ⟨none, none, none, none⟩]
        ⟨none, none⟩]
    none

theorem noticeBoard_parse_print :
    Printable noticeBoard = true ∧
      ∃ read, parse ⟨[], true, []⟩ (print noticeBoard) = .ok read ∧
        read.unplaced = noticeBoard.unplaced := by
  have hprintable : Printable noticeBoard = true := by decide +kernel
  exact ⟨hprintable, parse_print .default hprintable⟩

end Stencil
