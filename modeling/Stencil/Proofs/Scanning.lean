import Stencil.Proofs.Cursors
import Stencil.Proofs.Words

/-!
# Scanning constructs

What each construct of the scanner gives when it is known how the source begins: attributes, start and
end tags, block headers, texts and interpolations. A construct is read the same way whatever follows it,
as long as what follows cannot be taken for more of it.
-/

namespace Stencil.Markup

open Template (IsWord byteChar char_ascii)

/-- A construct was read without failure: these lexemes, up to this cursor. -/
structure Scan.Gives (s : Scan) (lexemes : List Lexeme) (c : Cursor) : Prop where
  lexemes : s.tokens.map Token.lexeme = lexemes
  cursor : s.cursor = c
  failure : s.failure = none

namespace Scan

theorem gives_done (tokens : List Token) (c : Cursor) :
    (done tokens c).Gives (tokens.map Token.lexeme) c :=
  ⟨rfl, rfl, rfl⟩

theorem Gives.andThen {s : Scan} {next : Cursor → Scan} {first others : List Lexeme} {c d : Cursor}
    (hs : s.Gives first c) (hnext : (next c).Gives others d) :
    (s.andThen next).Gives (first ++ others) d := by
  rw [Scan.andThen, hs.failure, hs.cursor]
  refine ⟨?_, hnext.cursor, hnext.failure⟩
  rw [List.map_append, hs.lexemes, hnext.lexemes]

end Scan

/-! ### Blanks and names -/

namespace Cursor

variable {w : Text} {rest : List Glyph}

theorem skipSpace_skipSpace (c : Cursor) : c.skipSpace.skipSpace = c.skipSpace := by
  obtain ⟨gs, p⟩ := c
  induction gs generalizing p with
  | nil => rfl
  | cons g gs ih =>
    cases hg : CharClass.isMarkupSpace g.char with
    | true =>
      have hskip : skipSpace ⟨g :: gs, p⟩ = skipSpace ⟨gs, p.after g⟩ := by
        simp [skipSpace, skipWhile, seek, seekFrom, hg]
      rw [hskip, ih]
    | false =>
      have hskip : skipSpace ⟨g :: gs, p⟩ = ⟨g :: gs, p⟩ := skipWhile_eq_self (by simp [hg]) p
      rw [hskip, hskip]

theorem skipSpace_cons {g : Glyph} (hg : CharClass.isMarkupSpace g.char = false) (p : Position) :
    skipSpace ⟨g :: rest, p⟩ = ⟨g :: rest, p⟩ :=
  skipWhile_eq_self (by simp [hg]) p

/-- The blank that is written between two parts of a construct is passed over. -/
theorem skipSpace_blank {g : Glyph} (hg : CharClass.isMarkupSpace g.char = false) (p : Position) :
    skipSpace ⟨Glyph.ascii 0x20 :: g :: rest, p⟩ = ⟨g :: rest, p.afterAll [Glyph.ascii 0x20]⟩ :=
  @skipWhile_append [Glyph.ascii 0x20] (g :: rest) _ (by decide) (by simp [hg]) p

theorem isMarkupSpace_of_endsName {c : Char} (hc : endsName c = false) :
    CharClass.isMarkupSpace c = false := by
  simp only [endsName, Bool.or_eq_false_iff] at hc
  exact hc.1.1.1.1.1

theorem exists_first (hw : IsWord w) (rest : List Glyph) :
    ∃ g gs, w.map Glyph.ascii ++ rest = g :: gs ∧ endsName g.char = false := by
  obtain ⟨b, w, rfl⟩ := List.exists_cons_of_ne_nil hw.ne_nil
  exact ⟨Glyph.ascii b, w.map Glyph.ascii ++ rest, rfl, hw.not_endsName (by simp)⟩

theorem skipSpace_word (hw : IsWord w) (p : Position) :
    skipSpace ⟨w.map Glyph.ascii ++ rest, p⟩ = ⟨w.map Glyph.ascii ++ rest, p⟩ := by
  obtain ⟨g, gs, hsplit, hg⟩ := exists_first hw rest
  rw [hsplit, skipSpace_cons (isMarkupSpace_of_endsName hg)]

theorem skipSpace_blank_word (hw : IsWord w) (p : Position) :
    skipSpace ⟨Glyph.ascii 0x20 :: (w.map Glyph.ascii ++ rest), p⟩ =
      ⟨w.map Glyph.ascii ++ rest, p.afterAll [Glyph.ascii 0x20]⟩ := by
  obtain ⟨g, gs, hsplit, hg⟩ := exists_first hw rest
  rw [hsplit, skipSpace_blank (isMarkupSpace_of_endsName hg)]

theorem skipName_word (hw : IsWord w) (hrest : ∀ g ∈ rest.head?, endsName g.char = true)
    (p : Position) :
    skipName ⟨w.map Glyph.ascii ++ rest, p⟩ = ⟨rest, p.afterAll (w.map Glyph.ascii)⟩ :=
  skipWhile_append (fun g hg => by simp [hw.not_endsName hg]) (fun g hg => by simp [hrest g hg]) p

theorem textTo_word (w : Text) (rest : List Glyph) (p q : Position) :
    textTo ⟨w.map Glyph.ascii ++ rest, p⟩ ⟨rest, q⟩ = w := by
  rw [textTo_append, Text.ofGlyphs_ascii]

end Cursor

/-! ### Attributes -/

namespace Scan

variable {options : ScanOptions} {name value : Text} {rest : List Glyph}

theorem attr_boolean (hname : IsWord name) (hends : ∀ g ∈ rest.head?, endsName g.char = true)
    (p : Position)
    (hnext : (Cursor.skipSpace ⟨rest, p.afterAll (name.map Glyph.ascii)⟩).isAt '=' = false) :
    (attr options ⟨name.map Glyph.ascii ++ rest, p⟩).Gives [.attrName name]
      (Cursor.skipSpace ⟨rest, p.afterAll (name.map Glyph.ascii)⟩) := by
  rw [attr, Cursor.skipName_word hname hends, Cursor.textTo_word]
  rw [if_neg (by simp [hname.ne_nil]), if_neg (by simp [hnext])]
  exact gives_done _ _

/-- An attribute whose name is followed by an equals sign. -/
theorem attr_valued (hname : IsWord name) (p : Position) {lexemes : List Lexeme} {c : Cursor}
    (hfirst : ∀ g ∈ rest.head?, CharClass.isMarkupSpace g.char = false)
    (hvalue : (attrValue options ⟨rest, p.afterAll (name.map Glyph.ascii ++ [Glyph.ascii 0x3D])⟩).Gives
      lexemes c) :
    (attr options ⟨name.map Glyph.ascii ++ Glyph.ascii 0x3D :: rest, p⟩).Gives
      (.attrName name :: lexemes) c := by
  rw [attr, Cursor.skipName_word hname (by simp; decide), Cursor.textTo_word]
  rw [if_neg (by simp [hname.ne_nil])]
  dsimp only
  rw [Cursor.skipSpace_cons (by decide), if_pos (by rfl), Cursor.advance_cons, Cursor.skipSpace,
    Cursor.skipWhile_eq_self hfirst, ← Position.afterAll_append]
  exact (gives_done _ _).andThen hvalue

theorem attrValue_quoted {gs : List Glyph} (hgs : ∀ g ∈ gs, g.char ≠ '"') (p : Position) :
    (attrValue options ⟨Glyph.ascii 0x22 :: (gs ++ Glyph.ascii 0x22 :: rest), p⟩).Gives
      [.attrQuote [0x22], .attrValue (decoded options (Text.ofGlyphs gs)), .attrQuote [0x22]]
      ⟨rest, p.afterAll (Glyph.ascii 0x22 :: gs ++ [Glyph.ascii 0x22])⟩ := by
  have hpeek : Cursor.peek? ⟨Glyph.ascii 0x22 :: (gs ++ Glyph.ascii 0x22 :: rest), p⟩ =
    some '"' := rfl
  rw [attrValue, hpeek]
  dsimp only
  rw [if_pos (by decide), Cursor.advance_cons,
    Cursor.skipWhile_append (by simpa using hgs) (by simp; decide), if_neg (by simp [Cursor.atEnd]),
    Cursor.textTo_append, Cursor.advance_cons]
  exact ⟨rfl, by simp [done, Position.afterAll], rfl⟩

theorem attrValue_unquoted (hvalue : IsWord value)
    (hends : ∀ g ∈ rest.head?, endsName g.char = true) (p : Position) :
    (attrValue options ⟨value.map Glyph.ascii ++ rest, p⟩).Gives [.attrValue value]
      ⟨rest, p.afterAll (value.map Glyph.ascii)⟩ := by
  obtain ⟨g, gs, hsplit, hg⟩ := Cursor.exists_first hvalue rest
  have hpeek : Cursor.peek? ⟨value.map Glyph.ascii ++ rest, p⟩ = some g.char := by
    rw [hsplit]
    rfl
  have hquote : CharClass.isQuote g.char = false := by
    simp only [endsName, Bool.or_eq_false_iff] at hg
    exact hg.1.2
  rw [attrValue, hpeek]
  dsimp only
  rw [if_neg (by simp [hquote]), Cursor.skipName_word hvalue hends, Cursor.textTo_word,
    if_neg (by simp [hvalue.ne_nil])]
  exact gives_done _ _

/-! ### Tags -/

theorem attrs_skipSpace (fuel : Nat) (c : Cursor) :
    attrs options fuel c.skipSpace = attrs options fuel c := by
  cases fuel <;> simp only [attrs, Cursor.skipSpace_skipSpace]

/-- One attribute after a blank, and the attributes after it. It does not matter whether the blanks
behind an attribute are passed over with it. -/
theorem attrs_succ (hname : IsWord name) {fuel : Nat} {p : Position} {first others : List Lexeme}
    {c d e : Cursor}
    (hattr : (attr options
      ⟨name.map Glyph.ascii ++ rest, p.afterAll [Glyph.ascii 0x20]⟩).Gives first c)
    (hspace : c.skipSpace = d.skipSpace) (hothers : (attrs options fuel d).Gives others e) :
    (attrs options (fuel + 1) ⟨Glyph.ascii 0x20 :: (name.map Glyph.ascii ++ rest), p⟩).Gives
      (first ++ others) e := by
  rw [attrs, Cursor.skipSpace_blank_word hname]
  have hmore : endsAttributes ⟨name.map Glyph.ascii ++ rest, p.afterAll [Glyph.ascii 0x20]⟩ =
      false := by
    obtain ⟨g, gs, hsplit, hg⟩ := Cursor.exists_first hname rest
    simp only [endsName, Bool.or_eq_false_iff] at hg
    simp [hsplit, endsAttributes, Cursor.atEnd, Cursor.isIn, Cursor.peek?, hg]
  rw [if_neg (by simp [hmore])]
  refine hattr.andThen ?_
  rwa [← attrs_skipSpace, hspace, attrs_skipSpace]

theorem attrs_end {g : Glyph} (hg : g.char = '>' ∨ g.char = '/') (fuel : Nat) (p : Position) :
    (attrs options fuel ⟨g :: rest, p⟩).Gives [] ⟨g :: rest, p⟩ := by
  have hspace : CharClass.isMarkupSpace g.char = false := by
    rcases hg with hg | hg <;> rw [hg] <;> decide
  cases fuel with
  | zero =>
    rw [attrs, Cursor.skipSpace_cons hspace]
    exact gives_done _ _
  | succ fuel =>
    have hends : endsAttributes ⟨g :: rest, p⟩ = true := by
      rcases hg with hg | hg <;> simp [endsAttributes, Cursor.isIn, Cursor.peek?, hg]
    rw [attrs, Cursor.skipSpace_cons hspace, if_pos hends]
    exact gives_done _ _

theorem startTagEnd_open (p : Position) :
    (startTagEnd ⟨Glyph.ascii 0x3E :: rest, p⟩).Gives [.tagOpenEnd]
      ⟨rest, p.afterAll [Glyph.ascii 0x3E]⟩ := by
  rw [startTagEnd, if_neg (by simp [Cursor.isAt, Cursor.peek?]; decide), if_pos (by rfl)]
  exact gives_done _ _

theorem startTagEnd_selfClosing (p : Position) :
    (startTagEnd ⟨Glyph.ascii 0x2F :: Glyph.ascii 0x3E :: rest, p⟩).Gives [.tagOpenEndVoid]
      ⟨rest, p.afterAll [Glyph.ascii 0x2F, Glyph.ascii 0x3E]⟩ := by
  rw [startTagEnd, if_pos (by rfl), if_pos (by rfl)]
  exact gives_done _ _

/-- A start tag whose attributes and end are known to be read, and the verbatim content behind it. -/
theorem startTag_of_content {b : UInt8} (hletter : CharClass.isLetter (byteChar b) = true)
    (hname : IsWord (b :: name)) (hends : ∀ g ∈ rest.head?, endsName g.char = true) {start : Cursor}
    {p : Position} {attrLexemes ending content : List Lexeme} {c d e : Cursor}
    (hattrs : (attrs options rest.length
      ⟨rest, p.afterAll ((b :: name).map Glyph.ascii)⟩).Gives attrLexemes c)
    (hending : (startTagEnd c).Gives ending d)
    (hcontent : (if !c.isAt '/' && (Tag.ofName (b :: name)).content == .raw
      then rawText options (b :: name) d else done [] d).Gives content e) :
    (startTag options start ⟨(b :: name).map Glyph.ascii ++ rest, p⟩).Gives
      (.tagOpenStart (b :: name) :: attrLexemes ++ (ending ++ content)) e := by
  have hfirst : Cursor.isIn ⟨(b :: name).map Glyph.ascii ++ rest, p⟩ CharClass.isLetter = true :=
    hletter
  rw [startTag, hfirst, if_neg (by decide), Cursor.skipName_word hname hends]
  dsimp only
  rw [Cursor.textTo_word]
  exact ((gives_done _ _).andThen hattrs).andThen (hending.andThen hcontent)

/-- A start tag of an element without verbatim content. -/
theorem startTag_of_attrs {b : UInt8} (hletter : CharClass.isLetter (byteChar b) = true)
    (hname : IsWord (b :: name)) (hends : ∀ g ∈ rest.head?, endsName g.char = true)
    (hparsable : (Tag.ofName (b :: name)).content = .parsable) {start : Cursor} {p : Position}
    {attrLexemes ending : List Lexeme} {c d : Cursor}
    (hattrs : (attrs options rest.length
      ⟨rest, p.afterAll ((b :: name).map Glyph.ascii)⟩).Gives attrLexemes c)
    (hending : (startTagEnd c).Gives ending d) :
    (startTag options start ⟨(b :: name).map Glyph.ascii ++ rest, p⟩).Gives
      (.tagOpenStart (b :: name) :: attrLexemes ++ ending) d := by
  rw [← List.append_nil ending]
  refine startTag_of_content hletter hname hends hattrs hending ?_
  rw [hparsable, if_neg (by simp)]
  exact gives_done _ _

theorem endTag_word (hname : IsWord name) (start : Cursor) (p : Position) :
    (endTag start ⟨name.map Glyph.ascii ++ Glyph.ascii 0x3E :: rest, p⟩).Gives [.tagClose name]
      ⟨rest, p.afterAll (name.map Glyph.ascii ++ [Glyph.ascii 0x3E])⟩ := by
  rw [endTag, Cursor.skipSpace_word hname, Cursor.skipName_word hname (by simp; decide)]
  dsimp only
  rw [Cursor.textTo_word, if_neg (by simp [hname.ne_nil]), Cursor.skipSpace_cons (by decide),
    if_pos (by rfl), Cursor.advance_cons, ← Position.afterAll_append]
  exact gives_done _ _

/-! ### Block headers -/

theorem parameterStop_append {gs : List Glyph}
    (hgs : ∀ g ∈ gs, g.char ≠ ';' ∧ g.char ≠ '(' ∧ g.char ≠ ')') (p : Position) :
    parameterStop 0 (gs ++ Glyph.ascii 0x29 :: rest) p =
      ⟨Glyph.ascii 0x29 :: rest, p.afterAll gs⟩ := by
  induction gs generalizing p with
  | nil =>
    rw [List.nil_append, parameterStop, if_pos (by decide)]
    rfl
  | cons g gs ih =>
    obtain ⟨hsemicolon, hopen, hclose⟩ := hgs g (by simp)
    rw [List.cons_append, parameterStop, if_neg (by simp [hsemicolon, hclose])]
    dsimp only
    rw [if_neg hopen, if_neg hclose]
    exact ih (fun h hh => hgs h (by simp [hh])) (p.after g)

/-- A header can have this text as its parameter: it is not cut, and nothing is trimmed from it. -/
structure IsParameter (w : Text) : Prop where
  isAscii : w.IsAscii
  trim_eq : w.trim = w
  first : ∃ b t, w = b :: t ∧ CharClass.isMarkupSpace (byteChar b) = false
  chars : ∀ b ∈ w, byteChar b ≠ ';' ∧ byteChar b ≠ '(' ∧ byteChar b ≠ ')'

theorem blockParameters_single {w : Text} (hw : IsParameter w) (rest : List Glyph) {fuel : Nat}
    (hfuel : 2 ≤ fuel) (p : Position) :
    (blockParameters fuel ⟨w.map Glyph.ascii ++ Glyph.ascii 0x29 :: rest, p⟩).Gives
      [.blockParameter w] ⟨Glyph.ascii 0x29 :: rest, p.afterAll (w.map Glyph.ascii)⟩ := by
  obtain ⟨fuel, rfl⟩ : ∃ n, fuel = n + 2 := ⟨fuel - 2, by omega⟩
  obtain ⟨b, t, hsplit, _⟩ := hw.first
  have hclose := (hw.chars b (by simp [hsplit])).2.2
  have hmore : ((Cursor.atEnd ⟨w.map Glyph.ascii ++ Glyph.ascii 0x29 :: rest, p⟩ ||
      Cursor.isAt ⟨w.map Glyph.ascii ++ Glyph.ascii 0x29 :: rest, p⟩ ')') = true) = False := by
    simp [hsplit, Cursor.atEnd, Cursor.isAt, Cursor.peek?, char_ascii, hclose]
  have hstop : parameterStop 0 (w.map Glyph.ascii ++ Glyph.ascii 0x29 :: rest) p =
      ⟨Glyph.ascii 0x29 :: rest, p.afterAll (w.map Glyph.ascii)⟩ := by
    apply parameterStop_append
    intro g hg
    obtain ⟨c, hc, rfl⟩ := List.mem_map.mp hg
    exact hw.chars c hc
  have hend : (blockParameters (fuel + 1)
      ⟨Glyph.ascii 0x29 :: rest, p.afterAll (w.map Glyph.ascii)⟩).Gives []
      ⟨Glyph.ascii 0x29 :: rest, p.afterAll (w.map Glyph.ascii)⟩ := by
    rw [blockParameters, if_pos (by rfl)]
    exact gives_done _ _
  rw [blockParameters, if_neg (by simp [hmore]), hstop]
  dsimp only
  rw [if_neg (by simp [Cursor.isAt, Cursor.peek?]; decide), Cursor.textTo_word, hw.trim_eq,
    Cursor.skipSpace_cons (by decide)]
  exact (gives_done _ _).andThen hend

variable {w : Text}

theorem isBlockName_ascii (hname : ∀ b ∈ name, CharClass.isBlockName (byteChar b) = true) :
    ∀ g ∈ name.map Glyph.ascii, CharClass.isBlockName g.char = true := by
  intro g hg
  obtain ⟨b, hb, rfl⟩ := List.mem_map.mp hg
  exact hname b hb

theorem blockHeader_parameter
    (hname : ∀ b ∈ name, CharClass.isBlockName (byteChar b) = true) (hw : IsParameter w)
    (p : Position) :
    (blockHeader ⟨Glyph.ascii 0x40 :: (name.map Glyph.ascii ++ Glyph.ascii 0x20 ::
      Glyph.ascii 0x28 :: (w.map Glyph.ascii ++ Glyph.ascii 0x29 :: Glyph.ascii 0x20 ::
        Glyph.ascii 0x7B :: rest)), p⟩).Gives
      [.blockOpenStart name, .blockParameter w, .blockOpenEnd]
      ⟨rest, p.afterAll (Glyph.ascii 0x40 :: (name.map Glyph.ascii ++ Glyph.ascii 0x20 ::
        Glyph.ascii 0x28 :: (w.map Glyph.ascii ++ [Glyph.ascii 0x29, Glyph.ascii 0x20,
          Glyph.ascii 0x7B])))⟩ := by
  obtain ⟨b, t, hsplit, hfirst⟩ := hw.first
  have hnotSpace : CharClass.isMarkupSpace (Glyph.ascii b).char = false := hfirst
  have hspace : ∀ more q, Cursor.skipSpace ⟨w.map Glyph.ascii ++ more, q⟩ =
      ⟨w.map Glyph.ascii ++ more, q⟩ := by
    intro more q
    rw [hsplit]
    exact Cursor.skipSpace_cons hnotSpace q
  rw [blockHeader, Cursor.advance_cons,
    Cursor.skipWhile_append (isBlockName_ascii hname) (by simp; decide)]
  dsimp only
  rw [Cursor.textTo_word, Cursor.skipSpace_blank (by decide), if_pos (by rfl), Cursor.advance_cons,
    hspace]
  have hfuel : 2 ≤ (w.map Glyph.ascii ++ Glyph.ascii 0x29 :: Glyph.ascii 0x20 ::
      Glyph.ascii 0x7B :: rest).length := by simp; omega
  have hparameters := blockParameters_single hw (Glyph.ascii 0x20 :: Glyph.ascii 0x7B :: rest) hfuel
    ((((p.afterAll [Glyph.ascii 0x40]).afterAll (name.map Glyph.ascii)).afterAll
      [Glyph.ascii 0x20]).afterAll [Glyph.ascii 0x28])
  rw [hparameters.cursor, Cursor.skipSpace_cons (by decide), if_pos (by rfl), Cursor.advance_cons,
    Cursor.skipSpace_blank (by decide), if_pos (by rfl), Cursor.advance_cons]
  refine ⟨?_, ?_, rfl⟩
  · simp only [done, List.map_append, List.map_cons, List.map_nil, hparameters.lexemes,
      List.cons_append, List.nil_append]
  · simp [done, Position.afterAll]

theorem blockHeader_plain (hname : ∀ b ∈ name, CharClass.isBlockName (byteChar b) = true)
    (p : Position) :
    (blockHeader ⟨Glyph.ascii 0x40 :: (name.map Glyph.ascii ++ Glyph.ascii 0x20 ::
      Glyph.ascii 0x7B :: rest), p⟩).Gives [.blockOpenStart name, .blockOpenEnd]
      ⟨rest, p.afterAll (Glyph.ascii 0x40 :: (name.map Glyph.ascii ++
        [Glyph.ascii 0x20, Glyph.ascii 0x7B]))⟩ := by
  rw [blockHeader, Cursor.advance_cons,
    Cursor.skipWhile_append (isBlockName_ascii hname) (by simp; decide)]
  dsimp only
  rw [Cursor.textTo_word, Cursor.skipSpace_blank (by decide),
    if_neg (by simp [Cursor.isAt, Cursor.peek?]; decide), if_pos (by rfl), Cursor.advance_cons]
  exact ⟨rfl, by simp [done, Position.afterAll], rfl⟩

/-! ### Text runs -/

/-- Whether a run of text is interrupted before these glyphs. -/
def isBoundary (gs : List Glyph) : Bool := endsText gs || beginsInterpolation gs

/-- Whether a character is text wherever it stands. -/
def isTextChar (c : Char) : Bool := c != '<' && c != '@' && c != '\x7b' && c != '\x7d'

theorem not_isBoundary {g : Glyph} (hg : isTextChar g.char = true) (more : List Glyph) :
    isBoundary (g :: more) = false := by
  simp only [isTextChar, Bool.and_eq_true, bne_iff_ne] at hg
  obtain ⟨⟨⟨hless, hat⟩, hopen⟩, hclose⟩ := hg
  have htag : beginsTag (g :: more) = false := by cases more <;> simp [beginsTag, hless]
  simp [isBoundary, endsText, htag, beginsBlock, beginsInterpolation, Cursor.beginsWith, hat, hopen,
    hclose]

/-- Where a run is interrupted at once, there is no text in front. -/
theorem seek_boundary {gs : List Glyph} (hgs : isBoundary gs = true) (p : Position) :
    Cursor.seek (fun gs => endsText gs || beginsInterpolation gs) ⟨gs, p⟩ = ⟨gs, p⟩ :=
  @Cursor.seek_append [] gs _ (by simp) (.inr hgs) p

theorem textToken_self (c : Cursor) : textToken options c c = [] := by
  simp [textToken, Cursor.textTo, Text.ofGlyphs]

theorem textRun_endsText {gs : List Glyph} (hends : endsText gs = true)
    (hinterpolation : beginsInterpolation gs = false) (fuel : Nat) (p : Position) :
    (textRun options (fuel + 1) ⟨gs, p⟩).Gives [] ⟨gs, p⟩ := by
  rw [textRun, seek_boundary (by simp [isBoundary, hends]), if_neg (by simp [hinterpolation]),
    textToken_self]
  exact gives_done _ _

/-- A text in front of a run is one more token of it. -/
theorem textRun_text {gs rest : List Glyph} (hne : Text.ofGlyphs gs ≠ [])
    (hgs : ∀ g ∈ gs, isTextChar g.char = true) (hrest : isBoundary rest = true) {fuel : Nat}
    {p : Position} {lexemes : List Lexeme} {c : Cursor}
    (hrun : (textRun options (fuel + 1) ⟨rest, p.afterAll gs⟩).Gives lexemes c) :
    (textRun options (fuel + 1) ⟨gs ++ rest, p⟩).Gives
      (.text (decoded options (Text.ofGlyphs gs)) :: lexemes) c := by
  have hseek : Cursor.seek (fun gs => endsText gs || beginsInterpolation gs) ⟨gs ++ rest, p⟩ =
      ⟨rest, p.afterAll gs⟩ :=
    Cursor.seek_append (fun g hg more => not_isBoundary (hgs g hg) more) (.inr hrest) p
  rw [textRun, seek_boundary hrest, textToken_self] at hrun
  have htoken : textToken options ⟨gs ++ rest, p⟩ ⟨rest, p.afterAll gs⟩ =
      [⟨.text (decoded options (Text.ofGlyphs gs)),
        Cursor.spanTo ⟨gs ++ rest, p⟩ ⟨rest, p.afterAll gs⟩⟩] := by
    rw [textToken, Cursor.textTo_append, if_neg (by simp [hne])]
  rw [textRun, hseek, htoken]
  -- Both runs go on from the end of the text, so they take the same branch there.
  by_cases hinterpolation : beginsInterpolation rest = true
  · rw [if_pos hinterpolation] at hrun ⊢
    dsimp only at hrun ⊢
    split
    · rename_i hend
      rw [if_pos hend] at hrun
      cases hrun.failure
    · rename_i hclosed
      rw [if_neg hclosed] at hrun
      exact ⟨by rw [← hrun.lexemes]; rfl, hrun.cursor, hrun.failure⟩
  · rw [if_neg hinterpolation] at hrun ⊢
    exact ⟨by rw [← hrun.lexemes]; rfl, hrun.cursor, rfl⟩

/-- An interpolation in front of a run. -/
theorem textRun_interpolation (hw : IsWord w) {fuel : Nat} {p : Position} {lexemes : List Lexeme}
    {c : Cursor}
    (hrun : (textRun options fuel ⟨rest, p.afterAll (Glyph.ascii 0x7B :: Glyph.ascii 0x7B ::
      (w.map Glyph.ascii ++ [Glyph.ascii 0x7D, Glyph.ascii 0x7D]))⟩).Gives lexemes c) :
    (textRun options (fuel + 1) ⟨Glyph.ascii 0x7B :: Glyph.ascii 0x7B ::
      (w.map Glyph.ascii ++ Glyph.ascii 0x7D :: Glyph.ascii 0x7D :: rest), p⟩).Gives
      (.interpolation w :: lexemes) c := by
  have hbegins : beginsInterpolation (Glyph.ascii 0x7B :: Glyph.ascii 0x7B ::
      (w.map Glyph.ascii ++ Glyph.ascii 0x7D :: Glyph.ascii 0x7D :: rest)) = true := by rfl
  have hclose : ∀ q, Cursor.seek (Cursor.beginsWith ['\x7d', '\x7d'])
      ⟨w.map Glyph.ascii ++ Glyph.ascii 0x7D :: Glyph.ascii 0x7D :: rest, q⟩ =
      ⟨Glyph.ascii 0x7D :: Glyph.ascii 0x7D :: rest, q.afterAll (w.map Glyph.ascii)⟩ := by
    apply Cursor.seek_append
    · intro g hg more
      simp [Cursor.beginsWith, hw.char_ne hg (x := '\x7d') (by decide)]
    · exact .inr rfl
  have hafter : ∀ gs q, Cursor.advanceBy ⟨gs, q⟩ 2 = (Cursor.advance ⟨gs, q⟩).advance :=
    fun _ _ => rfl
  rw [textRun, seek_boundary (by simp [isBoundary, hbegins]), if_pos hbegins, textToken_self]
  dsimp only
  rw [hafter, Cursor.advance_cons, Cursor.advance_cons, hclose, if_neg (by simp [Cursor.atEnd]),
    Cursor.textTo_word, hafter, Cursor.advance_cons, Cursor.advance_cons]
  refine (gives_done _ _).andThen ?_
  simpa [Position.afterAll] using hrun

/-! ### The construct that comes next -/

theorem next_startTag {g : Glyph} (hletter : CharClass.isLetter g.char = true) (p : Position) :
    next options ⟨Glyph.ascii 0x3C :: g :: rest, p⟩ =
      startTag options ⟨Glyph.ascii 0x3C :: g :: rest, p⟩
        ⟨g :: rest, p.afterAll [Glyph.ascii 0x3C]⟩ := by
  have hcomment : g.char ≠ '!' := by
    intro heq
    rw [heq] at hletter
    exact absurd hletter (by decide)
  have hend : g.char ≠ '/' := by
    intro heq
    rw [heq] at hletter
    exact absurd hletter (by decide)
  rw [next, if_neg (by simp [Cursor.isBefore, Cursor.beginsWith, hcomment]),
    if_neg (by simp [Cursor.isBefore, Cursor.beginsWith, hend]), if_pos (by rfl),
    Cursor.advance_cons]

theorem next_endTag (rest : List Glyph) (p : Position) :
    next options ⟨Glyph.ascii 0x3C :: Glyph.ascii 0x2F :: rest, p⟩ =
      endTag ⟨Glyph.ascii 0x3C :: Glyph.ascii 0x2F :: rest, p⟩
        ⟨rest, p.afterAll [Glyph.ascii 0x3C, Glyph.ascii 0x2F]⟩ := by
  have hcomment : (Glyph.ascii 0x2F).char ≠ '!' := by decide
  rw [next, if_neg (by simp [Cursor.isBefore, Cursor.beginsWith, hcomment]), if_pos (by rfl)]
  rfl

theorem next_block {g : Glyph} (hblock : beginsBlock (g :: rest) = true) (p : Position) :
    next options ⟨g :: rest, p⟩ = blockHeader ⟨g :: rest, p⟩ := by
  have hchar : g.char = '@' := by
    simp only [beginsBlock, Bool.and_eq_true, beq_iff_eq] at hblock
    exact hblock.1
  rw [next, if_neg (by simp [Cursor.isBefore, Cursor.beginsWith, hchar]),
    if_neg (by simp [Cursor.isBefore, Cursor.beginsWith, hchar]),
    if_neg (by simp [Cursor.isAt, Cursor.peek?, hchar]), if_pos hblock]

theorem next_blockClose (rest : List Glyph) (p : Position) :
    (next options ⟨Glyph.ascii 0x7D :: rest, p⟩).Gives [.blockClose]
      ⟨rest, p.afterAll [Glyph.ascii 0x7D]⟩ := by
  have hless : (Glyph.ascii 0x7D).char ≠ '<' := by decide
  have hat : (Glyph.ascii 0x7D).char ≠ '@' := by decide
  rw [next, if_neg (by simp [Cursor.isBefore, Cursor.beginsWith, hless]),
    if_neg (by simp [Cursor.isBefore, Cursor.beginsWith, hless]),
    if_neg (by simp [Cursor.isAt, Cursor.peek?, hless]), if_neg (by simp [beginsBlock, hat]),
    if_pos (by rfl)]
  exact gives_done _ _

theorem next_text {g : Glyph} (hless : g.char ≠ '<') (hat : g.char ≠ '@') (hclose : g.char ≠ '\x7d')
    (p : Position) :
    next options ⟨g :: rest, p⟩ = textRun options ((g :: rest).length + 1) ⟨g :: rest, p⟩ := by
  rw [next, if_neg (by simp [Cursor.isBefore, Cursor.beginsWith, hless]),
    if_neg (by simp [Cursor.isBefore, Cursor.beginsWith, hless]),
    if_neg (by simp [Cursor.isAt, Cursor.peek?, hless]), if_neg (by simp [beginsBlock, hat]),
    if_neg (by simp [Cursor.isAt, Cursor.peek?, hclose])]

end Scan

end Stencil.Markup
