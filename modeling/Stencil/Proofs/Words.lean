import Stencil.Markup.Scan
import Stencil.Proofs.Escaping
import Stencil.Template.OfMarkup

/-!
# Words

Names and paths are written as words: ASCII letters, digits, `_`, `$`, `-` and dots. No character of a
word separates the parts of a source, so a word is read in one go wherever it stands. A path is read
back from its dotted form, and a loop from its header.
-/

namespace Stencil.Template

/-! ### Bytes of words -/

theorem char_ascii (b : UInt8) : (Glyph.ascii b).char = byteChar b := rfl

/-- A letter, a digit, `_`, `$`, `-` or a dot. -/
def isWordByte (b : UInt8) : Bool := CharClass.isIdentifier (byteChar b) || b == 0x2E

/-- Whether a character is one that a word never has. -/
def endsWord (c : Char) : Bool :=
  Markup.endsName c || CharClass.isWhiteSpace c || "@(),;\x7b\x7d".toList.contains c

theorem isWordByte_spec {b : UInt8} (hb : isWordByte b = true) :
    b < 0x80 ∧ endsWord (byteChar b) = false := by
  have hall : ∀ n < 256, isWordByte (.ofNat n) = true →
      UInt8.ofNat n < 0x80 ∧ endsWord (byteChar (.ofNat n)) = false := by decide +kernel
  have hbyte := hall b.toNat b.toNat_lt
  rw [UInt8.ofNat_toNat] at hbyte
  exact hbyte hb

theorem isWordByte_of_isIdentifier {b : UInt8} (hb : CharClass.isIdentifier (byteChar b) = true) :
    isWordByte b = true := by
  simp [isWordByte, hb]

theorem not_isIdentifier_dot : CharClass.isIdentifier (byteChar 0x2E) = false := by decide

/-- A text of word bytes that is not empty. -/
structure IsWord (t : Text) : Prop where
  ne_nil : t ≠ []
  bytes : ∀ b ∈ t, isWordByte b = true

namespace IsWord

variable {t : Text}

theorem isAscii (ht : IsWord t) : Text.IsAscii t := fun b hb => (isWordByte_spec (ht.bytes b hb)).1

theorem not_endsWord (ht : IsWord t) {g : Glyph} (hg : g ∈ t.map Glyph.ascii) :
    endsWord g.char = false := by
  obtain ⟨b, hb, rfl⟩ := List.mem_map.mp hg
  exact (isWordByte_spec (ht.bytes b hb)).2

theorem not_endsName (ht : IsWord t) {g : Glyph} (hg : g ∈ t.map Glyph.ascii) :
    Markup.endsName g.char = false := by
  have hword := ht.not_endsWord hg
  simp only [endsWord, Bool.or_eq_false_iff] at hword
  exact hword.1.1

theorem not_isWhiteSpace (ht : IsWord t) {g : Glyph} (hg : g ∈ t.map Glyph.ascii) :
    CharClass.isWhiteSpace g.char = false := by
  have hword := ht.not_endsWord hg
  simp only [endsWord, Bool.or_eq_false_iff] at hword
  exact hword.1.2

/-- The characters of a word are none of those that end words. -/
theorem char_ne (ht : IsWord t) {g : Glyph} (hg : g ∈ t.map Glyph.ascii) {x : Char}
    (hx : endsWord x = true) : g.char ≠ x := by
  rintro rfl
  rw [ht.not_endsWord hg] at hx
  cases hx

theorem append {others : Text} (ht : IsWord t) (hothers : ∀ b ∈ others, isWordByte b = true) :
    IsWord (t ++ others) where
  ne_nil := by simp [ht.ne_nil]
  bytes b hb := (List.mem_append.mp hb).elim (ht.bytes b) (hothers b)

end IsWord

/-! ### Trimming -/

theorem dropWhile_eq_self {α : Type} {p : α → Bool} {xs : List α}
    (hxs : ∀ x ∈ xs.head?, p x = false) : xs.dropWhile p = xs := by
  cases xs with
  | nil => rfl
  | cons x xs => rw [List.dropWhile_cons_of_neg (by simp [hxs x rfl])]

/-- Glyphs that neither begin nor end with a blank have nothing to be trimmed. -/
theorem trimmed_eq_self {p : Glyph → Bool} {gs : List Glyph} (hhead : ∀ g ∈ gs.head?, p g = false)
    (hlast : ∀ g ∈ gs.getLast?, p g = false) :
    ((gs.dropWhile p).reverse.dropWhile p).reverse = gs := by
  rw [dropWhile_eq_self hhead, dropWhile_eq_self (by simpa using hlast), List.reverse_reverse]

theorem trim_eq_self {t : Text} (ht : Text.IsAscii t)
    (hhead : ∀ b ∈ t.head?, CharClass.isWhiteSpace (byteChar b) = false)
    (hlast : ∀ b ∈ t.getLast?, CharClass.isWhiteSpace (byteChar b) = false) : t.trim = t := by
  rw [Text.trim, Text.trimGlyphs, Text.glyphs_ascii ht, trimmed_eq_self, Text.ofGlyphs_ascii]
  · intro g hg
    rw [List.head?_map] at hg
    obtain ⟨b, hb, rfl⟩ := Option.map_eq_some_iff.mp hg
    exact hhead b hb
  · intro g hg
    rw [List.getLast?_map] at hg
    obtain ⟨b, hb, rfl⟩ := Option.map_eq_some_iff.mp hg
    exact hlast b hb

namespace IsWord

variable {t : Text}

theorem not_isWhiteSpace_byte (ht : IsWord t) {b : UInt8} (hb : b ∈ t) :
    CharClass.isWhiteSpace (byteChar b) = false := by
  rw [← char_ascii]
  exact ht.not_isWhiteSpace (List.mem_map_of_mem hb)

theorem trim_eq (ht : IsWord t) : t.trim = t :=
  trim_eq_self ht.isAscii (fun _ hb => ht.not_isWhiteSpace_byte (List.mem_of_mem_head? hb))
    (fun _ hb => ht.not_isWhiteSpace_byte (List.mem_of_mem_getLast? hb))

theorem not_isBlank (ht : IsWord t) : t.isBlank = false := by
  rw [Text.isBlank, ht.trim_eq]
  simp [ht.ne_nil]

end IsWord

end Stencil.Template

/-! ### Parts -/

namespace Stencil.Text

theorem exists_splitOn (sep : UInt8) (t : Text) : ∃ part parts, splitOn sep t = part :: parts := by
  cases t with
  | nil => exact ⟨[], [], rfl⟩
  | cons b t =>
    rw [splitOn]
    split
    · split <;> exact ⟨_, _, rfl⟩
    · exact ⟨_, _, rfl⟩

/-- A byte in front of a text either ends an empty part or belongs to the first part. -/
theorem splitOn_cons {sep : UInt8} {t part : Text} {parts : List Text}
    (ht : splitOn sep t = part :: parts) (b : UInt8) :
    splitOn sep (b :: t) = if b = sep then [] :: part :: parts else (b :: part) :: parts := by
  rw [splitOn, ht]

/-- Bytes other than the separator stay together. -/
theorem splitOn_append {sep : UInt8} {s t part : Text} {parts : List Text} (hs : sep ∉ s)
    (ht : splitOn sep t = part :: parts) : splitOn sep (s ++ t) = (s ++ part) :: parts := by
  induction s with
  | nil => exact ht
  | cons b s ih =>
    have hb : b ≠ sep := fun h => hs (by simp [h])
    rw [List.cons_append, splitOn_cons (ih fun h => hs (by simp [h])), if_neg hb, List.cons_append]

theorem join_cons {sep part : Text} {parts : List Text} (hparts : parts ≠ []) :
    join sep (part :: parts) = part ++ sep ++ join sep parts := by
  cases parts with
  | nil => exact absurd rfl hparts
  | cons next parts => rfl

theorem join_append {sep : Text} {parts others : List Text} (hparts : parts ≠ []) (hothers : others ≠ []) :
    join sep (parts ++ others) = join sep parts ++ sep ++ join sep others := by
  induction parts with
  | nil => exact absurd rfl hparts
  | cons part parts ih =>
    cases parts with
    | nil => exact join_cons hothers
    | cons next parts =>
      have hnext : next :: parts ≠ [] := List.cons_ne_nil next parts
      rw [List.cons_append, join_cons (by simp), ih hnext, join_cons hnext]
      simp only [List.append_assoc]

theorem splitOn_join {sep : UInt8} {parts : List Text} (hne : parts ≠ [])
    (hparts : ∀ part ∈ parts, sep ∉ part) : splitOn sep (join [sep] parts) = parts := by
  induction parts with
  | nil => exact absurd rfl hne
  | cons part parts ih =>
    have hpart : sep ∉ part := hparts part (by simp)
    cases parts with
    | nil =>
      have hsplit := splitOn_append hpart (t := []) rfl
      rwa [List.append_nil] at hsplit
    | cons next parts =>
      have hnext := ih (by simp) fun p hp => hparts p (by simp [hp])
      have hsep := splitOn_cons hnext sep
      rw [if_pos rfl] at hsep
      rw [join, List.append_assoc, List.singleton_append, splitOn_append hpart hsep,
        List.append_nil]
      simp

theorem join_splitOn (sep : UInt8) (t : Text) : join [sep] (splitOn sep t) = t := by
  induction t with
  | nil => rfl
  | cons b t ih =>
    obtain ⟨part, parts, hsplit⟩ := exists_splitOn sep t
    rw [splitOn_cons hsplit]
    rw [hsplit] at ih
    split
    · rename_i hb
      rw [join, ih, hb]
      · rfl
      · simp
    · cases parts with
      | nil => exact congrArg (b :: ·) ih
      | cons next parts => exact congrArg (b :: ·) ih

theorem not_mem_of_mem_splitOn {sep : UInt8} {t part : Text} (hpart : part ∈ splitOn sep t) : sep ∉ part := by
  induction t generalizing part with
  | nil => simp_all [splitOn]
  | cons b t ih =>
    obtain ⟨first, parts, hsplit⟩ := exists_splitOn sep t
    rw [splitOn_cons hsplit] at hpart
    rw [hsplit] at ih
    split at hpart
    · rcases List.mem_cons.mp hpart with rfl | hpart
      · exact List.not_mem_nil
      · exact ih hpart
    · rename_i hb
      rcases List.mem_cons.mp hpart with rfl | hpart
      · rw [List.mem_cons, not_or]
        exact ⟨Ne.symm hb, ih List.mem_cons_self⟩
      · exact ih (List.mem_cons_of_mem first hpart)

end Stencil.Text

namespace Stencil.Template

/-! ### Paths -/

theorem isPlainSegment_bytes {s : Text} (hs : isPlainSegment s = true) :
    s ≠ [] ∧ ∀ b ∈ s, CharClass.isIdentifier (byteChar b) = true := by
  simpa [isPlainSegment] using hs

theorem isWord_of_isPlainSegment {s : Text} (hs : isPlainSegment s = true) : IsWord s :=
  ⟨(isPlainSegment_bytes hs).1,
    fun b hb => isWordByte_of_isIdentifier ((isPlainSegment_bytes hs).2 b hb)⟩

theorem dot_not_mem {s : Text} (hs : isPlainSegment s = true) : 0x2E ∉ s := by
  intro hdot
  have hidentifier := (isPlainSegment_bytes hs).2 0x2E hdot
  rw [not_isIdentifier_dot] at hidentifier
  cases hidentifier

theorem isPlainPath_mem {p : Path} (hp : isPlainPath p = true) {s : Text} (hs : s ∈ p) :
    isPlainSegment s = true :=
  List.all_eq_true.mp hp s hs

theorem isWord_join {p : Path} (hp : isPlainPath p = true) (hne : p ≠ []) :
    IsWord (Text.join [0x2E] p) := by
  induction p with
  | nil => exact absurd rfl hne
  | cons s p ih =>
    have hs : IsWord s := isWord_of_isPlainSegment (isPlainPath_mem hp (by simp))
    cases p with
    | nil => exact hs
    | cons next p =>
      have hrest : IsWord (Text.join [0x2E] (next :: p)) :=
        ih (List.all_eq_true.mpr fun x hx => isPlainPath_mem hp (by simp [hx])) (by simp)
      rw [Text.join, List.append_assoc]
      refine hs.append fun b hb => ?_
      rcases List.mem_cons.mp hb with rfl | hb
      · decide
      · exact hrest.bytes b hb
      · simp

/-- The dotted form of a plain path is a word. -/
theorem isWord_toText {p : Path} (hp : isPlainPath p = true) : IsWord p.toText := by
  cases p with
  | nil => exact ⟨by decide, List.all_eq_true.mp rfl⟩
  | cons s p => exact isWord_join hp (by simp)

theorem firstFault?_eq_none {p : Path} (hp : isPlainPath p = true) (t : Text) (position : Nat) :
    Path.firstFault? t position p = none := by
  induction p generalizing position with
  | nil => rfl
  | cons s p ih =>
    have hs : isPlainSegment s = true := isPlainPath_mem hp (by simp)
    have hallowed : s.chars.find? Path.isDisallowed = none := by
      rw [Text.chars, Text.glyphs_ascii (isWord_of_isPlainSegment hs).isAscii, List.map_map,
        List.find?_eq_none]
      intro c hc
      obtain ⟨b, hb, rfl⟩ := List.mem_map.mp hc
      have hidentifier := (isPlainSegment_bytes hs).2 b hb
      simp only [Path.isDisallowed, Function.comp_apply, char_ascii, hidentifier]
      simp
    rw [Path.firstFault?, if_neg (by simp [(isPlainSegment_bytes hs).1]), hallowed]
    exact ih (List.all_eq_true.mpr fun x hx => isPlainPath_mem hp (by simp [hx])) _

/-- A plain path is read back from its dotted form. -/
theorem parse_toText {p : Path} (hp : isPlainPath p = true) : Path.parse p.toText = .ok p := by
  have hword := isWord_toText hp
  rw [Path.parse, hword.trim_eq]
  cases p with
  | nil => rfl
  | cons s p =>
    have hjoin : Path.toText (s :: p) = Text.join [0x2E] (s :: p) := rfl
    have hsplit : (Text.join [0x2E] (s :: p)).splitOn 0x2E = s :: p :=
      Text.splitOn_join (by simp) fun x hx => dot_not_mem (isPlainPath_mem hp hx)
    have hroot : Text.join [0x2E] (s :: p) ≠ [0x2E] := by
      intro heq
      rw [heq] at hsplit
      have hfirst : s = [] := (List.cons.inj hsplit).1.symm
      exact (isPlainSegment_bytes (isPlainPath_mem hp (by simp))).1 hfirst
    rw [hjoin] at hword ⊢
    rw [if_neg (by simp [hword.ne_nil, hroot]), hsplit, firstFault?_eq_none hp]

theorem exists_path_of_isPathText {t : Text} (ht : isPathText t = true) :
    ∃ p, isPlainPath p = true ∧ p.toText = t := by
  rw [isPathText, Bool.or_eq_true] at ht
  rcases ht with ht | ht
  · exact ⟨[], rfl, (eq_of_beq ht).symm⟩
  · refine ⟨_, ht, ?_⟩
    obtain ⟨part, parts, hsplit⟩ := Text.exists_splitOn 0x2E t
    have hjoin := Text.join_splitOn 0x2E t
    rw [hsplit] at hjoin ⊢
    exact hjoin

/-! ### Names -/

theorem isWord_of_isTagName {t : Text} (ht : isTagName t = true) : IsWord t := by
  cases t with
  | nil => cases ht
  | cons b t =>
    simp only [isTagName, Bool.and_eq_true, List.all_eq_true] at ht
    refine ⟨by simp, fun c hc => isWordByte_of_isIdentifier ?_⟩
    rcases List.mem_cons.mp hc with rfl | hc
    · simp [CharClass.isIdentifier, ht.1]
    · have hbyte := ht.2 c hc
      simp only [Bool.or_eq_true] at hbyte
      rcases hbyte with (hbyte | hbyte) | hbyte <;> simp [CharClass.isIdentifier, hbyte]

theorem isWord_of_isAttrName {t : Text} (ht : isAttrName t = true) : IsWord t := by
  simp only [isAttrName, Bool.and_eq_true, List.all_eq_true] at ht
  refine ⟨by simpa using ht.1, fun b hb => isWordByte_of_isIdentifier ?_⟩
  have hbyte := ht.2 b hb
  simp only [Bool.or_eq_true] at hbyte
  rcases hbyte with ((hbyte | hbyte) | hbyte) | hbyte <;> simp [CharClass.isIdentifier, hbyte]

theorem isVariable_bytes {t : Text} (ht : isVariableName t = true) :
    ∀ b ∈ t, CharClass.isVariable (byteChar b) = true := by
  cases t with
  | nil => simp
  | cons b t =>
    simp only [isVariableName, Bool.and_eq_true, List.all_eq_true] at ht
    intro c hc
    rcases List.mem_cons.mp hc with rfl | hc
    · simp [CharClass.isVariable, ht.1]
    · exact ht.2 c hc

theorem isPlainSegment_of_isVariableName {t : Text} (ht : isVariableName t = true) :
    isPlainSegment t = true := by
  rw [isPlainSegment, Bool.and_eq_true, List.all_eq_true]
  constructor
  · cases t with
    | nil => cases ht
    | cons b t => rfl
  · intro b hb
    have hbyte := isVariable_bytes ht b hb
    simp only [CharClass.isVariable, CharClass.isVariableStart, Bool.or_eq_true] at hbyte
    rcases hbyte with ((hbyte | hbyte) | hbyte) | hbyte <;> simp [CharClass.isIdentifier, hbyte]

theorem isWord_of_isVariableName {t : Text} (ht : isVariableName t = true) : IsWord t :=
  isWord_of_isPlainSegment (isPlainSegment_of_isVariableName ht)

theorem toNat_lt_of_isVariable {c : Char} (hc : CharClass.isVariable c = true) : c.toNat < 0x80 := by
  simp only [CharClass.isVariable, CharClass.isVariableStart, CharClass.isLetter, CharClass.isDigit,
    Bool.or_eq_true, Bool.and_eq_true, decide_eq_true_eq, beq_iff_eq] at hc
  rcases hc with (((⟨-, hle⟩ | ⟨-, hle⟩) | rfl) | rfl) | ⟨-, hle⟩
  · exact Nat.lt_of_le_of_lt hle (by decide)
  · exact Nat.lt_of_le_of_lt hle (by decide)
  · decide
  · decide
  · exact Nat.lt_of_le_of_lt hle (by decide)

/-- The name of a spread attribute is its mark with the path behind it. -/
theorem isWord_of_isSpread {name : Text} (hspread : Attribute.isSpread name = true)
    (hpath : isPathText (Attribute.spreadSource name) = true) : IsWord name := by
  obtain ⟨p, hp, hsource⟩ := exists_path_of_isPathText hpath
  obtain ⟨rest, rfl⟩ := List.isPrefixOf_iff_prefix.mp hspread
  rw [Attribute.spreadSource, List.drop_left] at hsource
  have hmark : IsWord Attribute.spreadMark := ⟨by decide, List.all_eq_true.mp rfl⟩
  exact hmark.append (hsource ▸ (isWord_toText hp).bytes)

/-! ### Loop headers -/

theorem takeName?_append {t : Text} (ht : isVariableName t = true) {rest : List Glyph}
    (hrest : ∀ g ∈ rest.head?, CharClass.isVariable g.char = false) :
    LoopHeader.takeName? (t.map Glyph.ascii ++ rest) = some (t, rest) := by
  have hbytes := isVariable_bytes ht
  cases t with
  | nil => cases ht
  | cons b t =>
    have hstart : CharClass.isVariableStart (Glyph.ascii b).char = true := by
      rw [char_ascii]
      exact (Bool.and_eq_true_iff.mp ht).1
    have hname : ∀ g ∈ t.map Glyph.ascii, CharClass.isVariable g.char = true := by
      intro g hg
      obtain ⟨c, hc, rfl⟩ := List.mem_map.mp hg
      exact hbytes c (by simp [hc])
    rw [List.map_cons, List.cons_append, LoopHeader.takeName?, if_pos hstart,
      List.takeWhile_append_of_pos hname, List.dropWhile_append_of_pos hname,
      dropWhile_eq_self hrest]
    have hnone : rest.takeWhile (fun h => CharClass.isVariable h.char) = [] := by
      cases rest with
      | nil => rfl
      | cons g rest => rw [List.takeWhile_cons_of_neg (by simp [hrest g rfl])]
    rw [hnone, List.append_nil, ← List.map_cons, Text.ofGlyphs_ascii]

theorem isWhiteSpace_of_isHeaderSpace {c : Char} (hc : CharClass.isHeaderSpace c = true) :
    CharClass.isWhiteSpace c = true := by
  simp only [CharClass.isHeaderSpace, Bool.or_eq_true, beq_iff_eq] at hc
  rcases hc with (((rfl | rfl) | rfl) | rfl) | hc
  · decide
  · decide
  · decide
  · decide
  · simp [CharClass.isWhiteSpace, hc]

theorem IsWord.not_isSpace {t : Text} (ht : IsWord t) {g : Glyph} (hg : g ∈ t.map Glyph.ascii) :
    LoopHeader.isSpace g = false := by
  cases hspace : LoopHeader.isSpace g with
  | false => rfl
  | true =>
    have hblank := isWhiteSpace_of_isHeaderSpace hspace
    rw [ht.not_isWhiteSpace hg] at hblank
    cases hblank

/-- A word has no blanks in front, whatever follows it. -/
theorem IsWord.dropWhile_isSpace {t : Text} (ht : IsWord t) (rest : List Glyph) :
    (t.map Glyph.ascii ++ rest).dropWhile LoopHeader.isSpace = t.map Glyph.ascii ++ rest := by
  obtain ⟨b, rest', rfl⟩ := List.exists_cons_of_ne_nil ht.ne_nil
  rw [List.map_cons, List.cons_append, List.dropWhile_cons_of_neg]
  simp [ht.not_isSpace (g := Glyph.ascii b) (by simp)]

theorem takeCollection?_word {t : Text} (ht : IsWord t) :
    LoopHeader.takeCollection? (Glyph.ascii 0x20 :: Glyph.ascii 0x6F :: Glyph.ascii 0x66 ::
      Glyph.ascii 0x20 :: t.map Glyph.ascii) = some t := by
  have hread : LoopHeader.takeCollection? (Glyph.ascii 0x20 :: Glyph.ascii 0x6F ::
      Glyph.ascii 0x66 :: Glyph.ascii 0x20 :: t.map Glyph.ascii) =
      some (Text.ofGlyphs (((t.map Glyph.ascii).dropWhile LoopHeader.isSpace).reverse.dropWhile
        LoopHeader.isSpace).reverse) := rfl
  rw [hread, trimmed_eq_self, Text.ofGlyphs_ascii]
  · exact fun g hg => ht.not_isSpace (List.mem_of_mem_head? hg)
  · exact fun g hg => ht.not_isSpace (List.mem_of_mem_getLast? hg)

theorem glyphs_printLoop {collection : Path} {key value : Text}
    (hcollection : isPlainPath collection = true) (hkey : IsWord key) (hvalue : IsWord value) :
    (printLoop collection key value).glyphs =
      value.map Glyph.ascii ++ (Glyph.ascii 0x2C :: Glyph.ascii 0x20 :: (key.map Glyph.ascii ++
        Glyph.ascii 0x20 :: Glyph.ascii 0x6F :: Glyph.ascii 0x66 :: Glyph.ascii 0x20 ::
          collection.toText.map Glyph.ascii)) := by
  have hcomma : Text.ofString ", " = [0x2C, 0x20] := rfl
  have hof : Text.ofString " of " = [0x20, 0x6F, 0x66, 0x20] := rfl
  rw [printLoop, hcomma, hof]
  simp only [List.append_assoc, List.cons_append, List.nil_append]
  rw [Text.glyphs_ascii_append hvalue.isAscii, Text.glyphs_cons_ascii (by decide),
    Text.glyphs_cons_ascii (by decide), Text.glyphs_ascii_append hkey.isAscii,
    Text.glyphs_cons_ascii (by decide), Text.glyphs_cons_ascii (by decide),
    Text.glyphs_cons_ascii (by decide), Text.glyphs_cons_ascii (by decide),
    Text.glyphs_ascii (isWord_toText hcollection).isAscii]

theorem loopHeader_printLoop {collection : Path} {key value : Text}
    (hcollection : isPlainPath collection = true) (hkey : isVariableName key = true)
    (hvalue : isVariableName value = true) :
    LoopHeader.parse? (printLoop collection key value) =
      some ⟨value, some key, collection.toText⟩ := by
  have hkeyWord := isWord_of_isVariableName hkey
  have hvalueWord := isWord_of_isVariableName hvalue
  have hnotVariable : ∀ b ∈ [(0x2C : UInt8), 0x20],
      CharClass.isVariable (Glyph.ascii b).char = false := by
    simp only [List.mem_cons, List.not_mem_nil, or_false, forall_eq_or_imp, forall_eq]
    decide
  rw [LoopHeader.parse?, glyphs_printLoop hcollection hkeyWord hvalueWord,
    hvalueWord.dropWhile_isSpace, takeName?_append hvalue (by simp [hnotVariable])]
  have htakeKey : ∀ gs, LoopHeader.takeKey? (Glyph.ascii 0x2C :: Glyph.ascii 0x20 :: gs) =
      LoopHeader.takeName? (gs.dropWhile LoopHeader.isSpace) := fun _ => rfl
  simp only [htakeKey]
  rw [hkeyWord.dropWhile_isSpace, takeName?_append hkey (by simp [hnotVariable])]
  simp only [takeCollection?_word (isWord_toText hcollection), Option.map_some]

/-- A loop is read back from its header. -/
theorem loopOfText_printLoop {collection : Path} {key value : Text}
    (hcollection : isPlainPath collection = true) (hkey : isVariableName key = true)
    (hvalue : isVariableName value = true) (hne : key ≠ value) :
    loopOfText (printLoop collection key value) = .ok ⟨collection, key, value⟩ := by
  have hword := isWord_toText hcollection
  rw [loopOfText, loopHeader_printLoop hcollection hkey hvalue]
  simp only [Option.some.injEq, if_neg hne, Option.getD_some]
  rw [loopOver, if_neg (by simp [hword.not_isBlank]), parse_toText hcollection]

end Stencil.Template
