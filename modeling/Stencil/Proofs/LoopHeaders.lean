import Stencil.Proofs.Words

/-!
# Loop headers

A header that names its value is written with blanks: a name, possibly a comma and the name of the key,
the word `of`, and what the loop runs over. Reading finds these parts exactly if the text is so written,
and there is only one way to find them, up to the blanks around the collection, which do not matter to a
path. Any other text is a path by itself, but not if the word `of` stands in it.

Headers are given by their bytes. Reading goes by characters, and the two agree because all that it looks
at is ASCII, which stands for itself wherever it is found.
-/

namespace Stencil

/-! ### Trimming in steps -/

namespace Text

/-- White space around glyphs is trimmed with them. -/
theorem trimGlyphs_append {front gs back : List Glyph}
    (hfront : ∀ g ∈ front, CharClass.isWhiteSpace g.char = true)
    (hback : ∀ g ∈ back, CharClass.isWhiteSpace g.char = true) :
    trimGlyphs (front ++ gs ++ back) = trimGlyphs gs := by
  simp only [trimGlyphs]
  rw [List.append_assoc, List.dropWhile_append_of_pos hfront, List.dropWhile_append]
  split
  · rename_i hempty
    have hgone : back.dropWhile (fun g => CharClass.isWhiteSpace g.char) = [] := by
      rw [← List.append_nil back, List.dropWhile_append_of_pos hback, List.dropWhile_nil]
    rw [hgone, List.isEmpty_iff.mp hempty]
  · rw [List.reverse_append, List.dropWhile_append_of_pos]
    intro g hg
    exact hback g (List.mem_reverse.mp hg)

/-- What is dropped at both ends of a list belongs to the class. -/
theorem exists_around {α : Type} (p : α → Bool) (xs : List α) :
    ∃ front back, xs = front ++ ((xs.dropWhile p).reverse.dropWhile p).reverse ++ back ∧
      (∀ x ∈ front, p x = true) ∧ ∀ x ∈ back, p x = true := by
  refine ⟨xs.takeWhile p, ((xs.dropWhile p).reverse.takeWhile p).reverse, ?_, ?_, ?_⟩
  · rw [List.append_assoc, ← List.reverse_append, List.takeWhile_append_dropWhile, List.reverse_reverse,
      List.takeWhile_append_dropWhile]
  · exact fun x hx => List.all_eq_true.mp List.all_takeWhile x hx
  · exact fun x hx => List.all_eq_true.mp List.all_takeWhile x (List.mem_reverse.mp hx)

end Text

namespace Template.LoopHeader

/-! ### How headers are written -/

/-- Tab, line feed, form feed, carriage return and space. -/
def blankBytes : List UInt8 := [0x09, 0x0A, 0x0C, 0x0D, 0x20]

def IsBlanks (t : Text) : Prop := ∀ b ∈ t, b ∈ blankBytes

/-- How the value and the key of a loop are named. -/
inductive Names : (value : Text) → (key : Option Text) → Text → Prop
  | value {value : Text} (hvalue : isVariableName value = true) : Names value none value
  | both {value key before after : Text} (hvalue : isVariableName value = true)
      (hbefore : IsBlanks before) (hafter : IsBlanks after) (hkey : isVariableName key = true) :
      Names value (some key) (value ++ before ++ 0x2C :: after ++ key)

/-- A text is written as a header: names, `of` and a collection, with blanks around each of them. -/
def Written (t : Text) (header : LoopHeader) : Prop :=
  ∃ lead names gap gap' tail : Text, IsBlanks lead ∧ Names header.value header.key names ∧
    IsBlanks gap ∧ gap ≠ [] ∧ IsBlanks gap' ∧ gap' ≠ [] ∧ IsBlanks tail ∧
    t = lead ++ names ++ gap ++ Text.ofString "of" ++ gap' ++ header.collection ++ tail

/-- The word `of` stands in a text: between blanks, or at an end of it. -/
def HasWordOf (t : Text) : Prop :=
  ∃ before after : Text, t = before ++ Text.ofString "of" ++ after ∧
    (∀ b ∈ before.getLast?, b ∈ blankBytes) ∧ ∀ b ∈ after.head?, b ∈ blankBytes

/-- What a text says about a loop: it is a header with two different names and the path of a collection,
or it is no header, has no `of` in it and is such a path itself. -/
inductive Says (t : Text) : Loop → Prop
  | header {header : LoopHeader} {path : Path} (hwritten : Written t header)
      (hnames : header.key ≠ some header.value) (hgiven : header.collection.isBlank = false)
      (hpath : Path.parse header.collection = .ok path) :
      Says t ⟨path, header.key.getD [], header.value⟩
  | path {path : Path} (hheader : ∀ header, ¬ Written t header) (hof : ¬ HasWordOf t)
      (hgiven : t.isBlank = false) (hpath : Path.parse t = .ok path) : Says t ⟨path, [], []⟩

/-! ### Bytes and characters -/

theorem mem_blankBytes {b : UInt8} :
    b ∈ blankBytes ↔ CharClass.isHeaderSpace (byteChar b) = true := by
  have hall : ∀ n < 256, UInt8.ofNat n ∈ blankBytes ↔
      CharClass.isHeaderSpace (byteChar (.ofNat n)) = true := by decide +kernel
  have hbyte := hall b.toNat b.toNat_lt
  rwa [UInt8.ofNat_toNat] at hbyte

theorem lt_of_mem_blankBytes {b : UInt8} (hb : b ∈ blankBytes) : b < 0x80 := by
  simp only [blankBytes, List.mem_cons, List.not_mem_nil, or_false] at hb
  rcases hb with rfl | rfl | rfl | rfl | rfl <;> decide

namespace IsBlanks

variable {t : Text}

theorem isAscii (ht : IsBlanks t) : Text.IsAscii t := fun b hb => lt_of_mem_blankBytes (ht b hb)

theorem isSpace (ht : IsBlanks t) : ∀ g ∈ t.map Glyph.ascii, LoopHeader.isSpace g = true := by
  intro g hg
  obtain ⟨b, hb, rfl⟩ := List.mem_map.mp hg
  exact mem_blankBytes.mp (ht b hb)

theorem isWhiteSpace (ht : IsBlanks t) :
    ∀ g ∈ t.map Glyph.ascii, CharClass.isWhiteSpace g.char = true :=
  fun g hg => isWhiteSpace_of_isHeaderSpace (ht.isSpace g hg)

/-- Blanks are dropped, and nothing more if no blank follows. -/
theorem dropWhile_append (ht : IsBlanks t) {gs : List Glyph}
    (hgs : ∀ g ∈ gs.head?, LoopHeader.isSpace g = false) :
    (t.map Glyph.ascii ++ gs).dropWhile LoopHeader.isSpace = gs := by
  rw [List.dropWhile_append_of_pos ht.isSpace, dropWhile_eq_self hgs]

theorem startsBlank_append (ht : IsBlanks t) (hne : t ≠ []) (gs : List Glyph) :
    startsBlank (t.map Glyph.ascii ++ gs) = true := by
  obtain ⟨b, rest, rfl⟩ := List.exists_cons_of_ne_nil hne
  exact ht.isSpace _ (by simp)

end IsBlanks

variable {source : Text} {gs : List Glyph}

/-- A character of a text that is an ASCII character is one byte. -/
theorem eq_ascii_of_char {g : Glyph} (hg : g ∈ source.glyphs) {b : UInt8} (hb : b < 0x80)
    (hchar : g.char = byteChar b) : g = Glyph.ascii b := by
  have hcode : g.char.toNat < 0x80 := by
    rw [hchar, byteChar_toNat]
    exact UInt8.lt_iff_toNat_lt.mp hb
  obtain ⟨c, -, rfl⟩ := Text.ascii_of_mem_glyphs hg hcode
  rw [byteChar_injective hchar]

theorem toNat_lt_of_isHeaderSpace {c : Char} (hc : CharClass.isHeaderSpace c = true) :
    c.toNat < 0x80 := by
  simp only [CharClass.isHeaderSpace, Bool.or_eq_true, beq_iff_eq] at hc
  rcases hc with (((rfl | rfl) | rfl) | rfl) | hc
  · decide
  · decide
  · decide
  · decide
  · omega

theorem isBlanks_ofGlyphs (hgs : ∀ g ∈ gs, g ∈ source.glyphs) (hspace : ∀ g ∈ gs, isSpace g = true) :
    IsBlanks (Text.ofGlyphs gs) := by
  intro b hb
  obtain ⟨g, hg, hbytes⟩ := List.mem_flatMap.mp hb
  obtain ⟨c, -, rfl⟩ :=
    Text.ascii_of_mem_glyphs (hgs g hg) (toNat_lt_of_isHeaderSpace (hspace g hg))
  obtain rfl := List.mem_singleton.mp hbytes
  exact mem_blankBytes.mpr (hspace _ hg)

/-- The collection that is taken out of a header is trimmed like the text behind the word `of`. -/
theorem trim_ofGlyphs (hgs : gs <:+: source.glyphs) :
    (Text.ofGlyphs ((gs.dropWhile isSpace).reverse.dropWhile isSpace).reverse).trim =
      Text.ofGlyphs (Text.trimGlyphs gs) := by
  obtain ⟨front, back, hsplit, hfront, hback⟩ := Text.exists_around isSpace gs
  have hinfix : ((gs.dropWhile isSpace).reverse.dropWhile isSpace).reverse <:+: source.glyphs :=
    List.IsInfix.trans ⟨front, back, hsplit.symm⟩ hgs
  rw [Text.trim, Text.glyphs_ofGlyphs_of_isInfix hinfix]
  have htrim := @Text.trimGlyphs_append front ((gs.dropWhile isSpace).reverse.dropWhile isSpace).reverse
    back (fun g hg => isWhiteSpace_of_isHeaderSpace (hfront g hg))
    (fun g hg => isWhiteSpace_of_isHeaderSpace (hback g hg))
  rw [← hsplit] at htrim
  rw [htrim]

/-! ### Headers that are written are read -/

theorem not_isSpace_of_isVariable {c : Char} (hc : CharClass.isVariable c = true) :
    CharClass.isHeaderSpace c = false := by
  cases hspace : CharClass.isHeaderSpace c with
  | false => rfl
  | true =>
    simp only [CharClass.isHeaderSpace, Bool.or_eq_true, beq_iff_eq] at hspace
    rcases hspace with (((rfl | rfl) | rfl) | rfl) | hcode
    · cases hc
    · cases hc
    · cases hc
    · cases hc
    · obtain rfl : c = Char.ofNat 12 := by rw [← hcode, Char.ofNat_toNat]
      cases hc

/-- A blank ends a name. -/
theorem not_isVariable_of_head {t : Text} (ht : IsBlanks t) (hne : t ≠ []) :
    ∀ g ∈ (t.map Glyph.ascii ++ gs).head?, CharClass.isVariable g.char = false := by
  obtain ⟨b, rest, rfl⟩ := List.exists_cons_of_ne_nil hne
  intro g hg
  obtain rfl := Option.some.inj hg
  cases hvariable : CharClass.isVariable (Glyph.ascii b).char with
  | false => rfl
  | true =>
    have hspace := ht.isSpace (Glyph.ascii b) (by simp)
    rw [isSpace, not_isSpace_of_isVariable hvariable] at hspace
    cases hspace

/-- The word `of` and what follows it, as glyphs. -/
def ofWord (gs : List Glyph) : List Glyph := Glyph.ascii 0x6F :: Glyph.ascii 0x66 :: gs

theorem ofGlyphs_ofWord (gs : List Glyph) :
    Text.ofGlyphs (ofWord gs) = Text.ofString "of" ++ Text.ofGlyphs gs := rfl

theorem takeCollection?_ofWord {gap : Text} (hgap : IsBlanks gap) (hne : gap ≠ [])
    (hgs : startsBlank gs = true) :
    takeCollection? (gap.map Glyph.ascii ++ ofWord gs) =
      some (Text.ofGlyphs ((gs.dropWhile isSpace).reverse.dropWhile isSpace).reverse) := by
  have hdrop : (gap.map Glyph.ascii ++ ofWord gs).dropWhile isSpace = ofWord gs :=
    hgap.dropWhile_append fun g hg => by obtain rfl := Option.some.inj hg; decide
  rw [takeCollection?, hdrop]
  change (if startsBlank (gap.map Glyph.ascii ++ ofWord gs) && startsBlank gs then _ else _) = _
  rw [hgap.startsBlank_append hne, hgs]
  rfl

/-- Where the word `of` comes next there is no key. -/
theorem takeKey?_ofWord {gap : Text} (hgap : IsBlanks gap) :
    takeKey? (gap.map Glyph.ascii ++ ofWord gs) = none := by
  have hdrop : (gap.map Glyph.ascii ++ ofWord gs).dropWhile isSpace = ofWord gs :=
    hgap.dropWhile_append fun g hg => by obtain rfl := Option.some.inj hg; decide
  rw [takeKey?, hdrop]
  rfl

theorem takeKey?_comma {before after key : Text} (hbefore : IsBlanks before) (hafter : IsBlanks after)
    (hkey : isVariableName key = true) (hgs : ∀ g ∈ gs.head?, CharClass.isVariable g.char = false) :
    takeKey? (before.map Glyph.ascii ++ Glyph.ascii 0x2C :: (after.map Glyph.ascii ++
      (key.map Glyph.ascii ++ gs))) = some (key, gs) := by
  have hcomma : ∀ rest, (before.map Glyph.ascii ++ Glyph.ascii 0x2C :: rest).dropWhile isSpace =
      Glyph.ascii 0x2C :: rest :=
    fun rest => hbefore.dropWhile_append fun g hg => by obtain rfl := Option.some.inj hg; decide
  have hword := isWord_of_isVariableName hkey
  rw [takeKey?, hcomma]
  change takeName? _ = _
  rw [List.dropWhile_append_of_pos hafter.isSpace, hword.dropWhile_isSpace, takeName?_append hkey hgs]

theorem Names.isAscii {value names : Text} {key : Option Text} (hnames : Names value key names) :
    Text.IsAscii names := by
  cases hnames with
  | value hvalue => exact (isWord_of_isVariableName hvalue).isAscii
  | both hvalue hbefore hafter hkey =>
    have hvalue := (isWord_of_isVariableName hvalue).isAscii
    have hkey := (isWord_of_isVariableName hkey).isAscii
    intro b hb
    simp only [List.mem_append, List.mem_cons] at hb
    rcases hb with ((hb | hb) | rfl | hb) | hb
    · exact hvalue b hb
    · exact hbefore.isAscii b hb
    · decide
    · exact hafter.isAscii b hb
    · exact hkey b hb

theorem parse?_names {value names lead gap : Text} {key : Option Text} (hlead : IsBlanks lead)
    (hnames : Names value key names) (hgap : IsBlanks gap) (hne : gap ≠ [])
    (hgs : startsBlank gs = true)
    (hsource : source.glyphs = lead.map Glyph.ascii ++ (names.map Glyph.ascii ++
      (gap.map Glyph.ascii ++ ofWord gs))) :
    parse? source = some ⟨value, key,
      Text.ofGlyphs ((gs.dropWhile isSpace).reverse.dropWhile isSpace).reverse⟩ := by
  have hstop := @not_isVariable_of_head (ofWord gs) gap hgap hne
  rw [parse?, hsource, List.dropWhile_append_of_pos hlead.isSpace]
  cases hnames with
  | value hvalue =>
    rw [(isWord_of_isVariableName hvalue).dropWhile_isSpace, takeName?_append hvalue hstop]
    simp only [takeKey?_ofWord hgap, takeCollection?_ofWord hgap hne hgs, Option.map_some]
  | @both key before after hvalue hbefore hafter hkey =>
    simp only [List.map_append, List.map_cons, List.append_assoc, List.cons_append]
    have hcomma : ∀ g ∈ (before.map Glyph.ascii ++ Glyph.ascii 0x2C :: (after.map Glyph.ascii ++
        (key.map Glyph.ascii ++ (gap.map Glyph.ascii ++ ofWord gs)))).head?,
        CharClass.isVariable g.char = false := by
      cases before with
      | nil =>
        intro g hg
        obtain rfl := Option.some.inj hg
        decide
      | cons b rest => exact not_isVariable_of_head hbefore (by simp)
    rw [(isWord_of_isVariableName hvalue).dropWhile_isSpace, takeName?_append hvalue hcomma]
    simp only [takeKey?_comma hbefore hafter hkey hstop, takeCollection?_ofWord hgap hne hgs,
      Option.map_some]

/-- A header is read as it is written, but for blanks around its collection. -/
theorem parse?_of_written {header : LoopHeader} (h : Written source header) :
    ∃ found, parse? source = some found ∧ found.value = header.value ∧ found.key = header.key ∧
      found.collection.trim = header.collection.trim := by
  obtain ⟨lead, names, gap, gap', tail, hlead, hnames, hgap, hne, hgap', hne', htail, hsource⟩ := h
  have hrest : (gap' ++ (header.collection ++ tail)).glyphs =
      gap'.map Glyph.ascii ++ header.collection.glyphs ++ tail.map Glyph.ascii := by
    have hhead : ∀ b ∈ tail.head?, b < 0x80 := fun b hb => htail.isAscii b (List.mem_of_mem_head? hb)
    rw [Text.glyphs_ascii_append hgap'.isAscii, Text.glyphs_append _ hhead,
      Text.glyphs_ascii htail.isAscii, List.append_assoc]
  have hglyphs : source.glyphs = lead.map Glyph.ascii ++ (names.map Glyph.ascii ++
      (gap.map Glyph.ascii ++ ofWord (gap' ++ (header.collection ++ tail)).glyphs)) := by
    have hword : Text.ofString "of" = [0x6F, 0x66] := rfl
    rw [hsource, hword]
    simp only [List.append_assoc, List.cons_append, List.nil_append]
    rw [Text.glyphs_ascii_append hlead.isAscii, Text.glyphs_ascii_append hnames.isAscii,
      Text.glyphs_ascii_append hgap.isAscii, Text.glyphs_cons_ascii (by decide),
      Text.glyphs_cons_ascii (by decide)]
    rfl
  have hstarts : startsBlank (gap' ++ (header.collection ++ tail)).glyphs = true := by
    rw [hrest, List.append_assoc]
    exact hgap'.startsBlank_append hne' _
  refine ⟨_, parse?_names hlead hnames hgap hne hstarts hglyphs, rfl, rfl, ?_⟩
  have hinfix : (gap' ++ (header.collection ++ tail)).glyphs <:+: source.glyphs := by
    refine List.IsSuffix.isInfix ⟨lead.map Glyph.ascii ++ (names.map Glyph.ascii ++
      (gap.map Glyph.ascii ++ ofWord [])), ?_⟩
    rw [hglyphs]
    simp [ofWord]
  dsimp only
  rw [trim_ofGlyphs hinfix, hrest, Text.trimGlyphs_append hgap'.isWhiteSpace htail.isWhiteSpace,
    Text.trim]

/-! ### Headers that are read are written -/

theorem isVariableName_ofGlyphs {g : Glyph} (hgs : ∀ h ∈ g :: gs, h ∈ source.glyphs)
    (hstart : CharClass.isVariableStart g.char = true)
    (hrest : ∀ h ∈ gs, CharClass.isVariable h.char = true) :
    isVariableName (Text.ofGlyphs (g :: gs)) = true := by
  have hbyte : ∀ h ∈ g :: gs, CharClass.isVariable h.char = true → ∃ b, h = Glyph.ascii b := by
    intro h hh hvariable
    obtain ⟨b, -, hascii⟩ := Text.ascii_of_mem_glyphs (hgs h hh) (toNat_lt_of_isVariable hvariable)
    exact ⟨b, hascii⟩
  obtain ⟨b, rfl⟩ := hbyte g List.mem_cons_self (by simp [CharClass.isVariable, hstart])
  have hcons : Text.ofGlyphs (Glyph.ascii b :: gs) = b :: Text.ofGlyphs gs := rfl
  rw [hcons, isVariableName, Bool.and_eq_true, List.all_eq_true]
  refine ⟨hstart, ?_⟩
  intro c hc
  obtain ⟨h, hh, hbytes⟩ := List.mem_flatMap.mp hc
  have hvariable := hrest h hh
  obtain ⟨d, rfl⟩ := hbyte h (List.mem_cons_of_mem _ hh) hvariable
  rw [List.mem_singleton.mp hbytes, ← char_ascii]
  exact hvariable

theorem exists_of_takeName? {name : Text} {rest : List Glyph} (hgs : ∀ g ∈ gs, g ∈ source.glyphs)
    (htake : takeName? gs = some (name, rest)) :
    ∃ taken, gs = taken ++ rest ∧ name = Text.ofGlyphs taken ∧ isVariableName name = true := by
  cases gs with
  | nil => cases htake
  | cons g gs =>
    rw [takeName?] at htake
    split at htake
    · rename_i hstart
      obtain ⟨rfl, rfl⟩ := Prod.mk.inj (Option.some.inj htake)
      refine ⟨g :: gs.takeWhile fun h => CharClass.isVariable h.char, ?_, rfl, ?_⟩
      · rw [List.cons_append, List.takeWhile_append_dropWhile]
      · have hmem : ∀ h ∈ g :: gs.takeWhile (fun h => CharClass.isVariable h.char),
            h ∈ source.glyphs := by
          intro h hh
          rcases List.mem_cons.mp hh with rfl | hh
          · exact hgs h List.mem_cons_self
          · exact hgs h (List.mem_cons_of_mem g ((List.takeWhile_prefix _).mem hh))
        exact isVariableName_ofGlyphs hmem hstart
          fun h hh => List.all_eq_true.mp List.all_takeWhile h hh
    · cases htake

theorem exists_of_takeKey? {key : Text} {rest : List Glyph} (hgs : ∀ g ∈ gs, g ∈ source.glyphs)
    (htake : takeKey? gs = some (key, rest)) :
    ∃ before after taken, gs = before ++ Glyph.ascii 0x2C :: (after ++ (taken ++ rest)) ∧
      (∀ g ∈ before, isSpace g = true) ∧ (∀ g ∈ after, isSpace g = true) ∧
      key = Text.ofGlyphs taken ∧ isVariableName key = true := by
  have hsplit := List.takeWhile_append_dropWhile (p := isSpace) (l := gs)
  rw [takeKey?] at htake
  split at htake
  · rename_i bytes later hcomma
    rw [hcomma] at hsplit
    have hlater : ∀ g ∈ ⟨',', bytes⟩ :: later, g ∈ source.glyphs := by
      intro g hg
      apply hgs
      rw [← hsplit]
      exact List.mem_append_right _ hg
    have hglyph := eq_ascii_of_char (hlater _ List.mem_cons_self) (b := 0x2C) (by decide) rfl
    have hrest : ∀ g ∈ later.dropWhile isSpace, g ∈ source.glyphs :=
      fun g hg => hlater g (List.mem_cons_of_mem _ ((List.dropWhile_suffix _).mem hg))
    obtain ⟨taken, htaken, hkey, hname⟩ := exists_of_takeName? hrest htake
    refine ⟨gs.takeWhile isSpace, later.takeWhile isSpace, taken, ?_, ?_, ?_, hkey, hname⟩
    · rw [← htaken, List.takeWhile_append_dropWhile, ← hglyph, hsplit]
    · exact fun g hg => List.all_eq_true.mp List.all_takeWhile g hg
    · exact fun g hg => List.all_eq_true.mp List.all_takeWhile g hg
  · cases htake

theorem takeWhile_ne_nil (hgs : startsBlank gs = true) : gs.takeWhile isSpace ≠ [] := by
  cases gs with
  | nil => cases hgs
  | cons g gs =>
    have hg : isSpace g = true := hgs
    rw [List.takeWhile_cons, if_pos hg]
    simp

theorem exists_of_takeCollection? {collection : Text} (hgs : ∀ g ∈ gs, g ∈ source.glyphs)
    (htake : takeCollection? gs = some collection) :
    ∃ gap gap' taken tail, gs = gap ++ ofWord (gap' ++ taken ++ tail) ∧ gap ≠ [] ∧ gap' ≠ [] ∧
      (∀ g ∈ gap, isSpace g = true) ∧ (∀ g ∈ gap', isSpace g = true) ∧
      (∀ g ∈ tail, isSpace g = true) ∧ collection = Text.ofGlyphs taken := by
  have hsplit := List.takeWhile_append_dropWhile (p := isSpace) (l := gs)
  rw [takeCollection?] at htake
  split at htake
  · rename_i o f later hof
    split at htake
    · rename_i hblanks
      rw [Bool.and_eq_true] at hblanks
      obtain rfl := Option.some.inj htake
      rw [hof] at hsplit
      have hword : ∀ g ∈ [⟨'o', o⟩, ⟨'f', f⟩], g ∈ source.glyphs := by
        intro g hg
        apply hgs
        rw [← hsplit]
        apply List.mem_append_right
        rcases List.mem_cons.mp hg with rfl | hg
        · simp
        · simp [List.mem_singleton.mp hg]
      have ho := eq_ascii_of_char (hword ⟨'o', o⟩ (by simp)) (b := 0x6F) (by decide) rfl
      have hf := eq_ascii_of_char (hword ⟨'f', f⟩ (by simp)) (b := 0x66) (by decide) rfl
      rw [ho, hf] at hsplit
      -- The blanks in front of the collection are all those behind the word `of`.
      have hlater := List.takeWhile_append_dropWhile (p := isSpace) (l := later)
      have hback := List.takeWhile_append_dropWhile (p := isSpace) (l := (later.dropWhile isSpace).reverse)
      refine ⟨gs.takeWhile isSpace, later.takeWhile isSpace, _,
        ((later.dropWhile isSpace).reverse.takeWhile isSpace).reverse, ?_,
        takeWhile_ne_nil hblanks.1, takeWhile_ne_nil hblanks.2, ?_, ?_, ?_, rfl⟩
      · rw [List.append_assoc, ← List.reverse_append, hback, List.reverse_reverse, hlater]
        exact hsplit.symm
      · exact fun g hg => List.all_eq_true.mp List.all_takeWhile g hg
      · exact fun g hg => List.all_eq_true.mp List.all_takeWhile g hg
      · exact fun g hg => List.all_eq_true.mp List.all_takeWhile g (List.mem_reverse.mp hg)
    · cases htake
  · cases htake

theorem ofGlyphs_ne_nil (hgs : ∀ g ∈ gs, g ∈ source.glyphs) (hne : gs ≠ []) :
    Text.ofGlyphs gs ≠ [] := by
  obtain ⟨g, rest, rfl⟩ := List.exists_cons_of_ne_nil hne
  intro hempty
  exact Text.bytes_ne_nil_of_mem_glyphs (hgs g List.mem_cons_self) (List.append_eq_nil_iff.mp hempty).1

/-- The parts of a header are its bytes in the same order. -/
theorem written_of_glyphs {value : Text} {key : Option Text} {lead names gap gap' taken tail : List Glyph}
    (hsource : source.glyphs = lead ++ (names ++ (gap ++ ofWord (gap' ++ taken ++ tail))))
    (hnames : Names value key (Text.ofGlyphs names)) (hne : gap ≠ []) (hne' : gap' ≠ [])
    (hlead : ∀ g ∈ lead, isSpace g = true) (hgap : ∀ g ∈ gap, isSpace g = true)
    (hgap' : ∀ g ∈ gap', isSpace g = true) (htail : ∀ g ∈ tail, isSpace g = true) :
    Written source ⟨value, key, Text.ofGlyphs taken⟩ := by
  have hmem : ∀ g, g ∈ lead ∨ g ∈ gap ∨ g ∈ gap' ∨ g ∈ tail → g ∈ source.glyphs := by
    intro g hg
    rw [hsource]
    simp only [ofWord, List.mem_append, List.mem_cons]
    grind
  refine ⟨Text.ofGlyphs lead, Text.ofGlyphs names, Text.ofGlyphs gap, Text.ofGlyphs gap',
    Text.ofGlyphs tail, isBlanks_ofGlyphs (fun g hg => hmem g (.inl hg)) hlead, hnames,
    isBlanks_ofGlyphs (fun g hg => hmem g (.inr (.inl hg))) hgap,
    ofGlyphs_ne_nil (fun g hg => hmem g (.inr (.inl hg))) hne,
    isBlanks_ofGlyphs (fun g hg => hmem g (.inr (.inr (.inl hg)))) hgap',
    ofGlyphs_ne_nil (fun g hg => hmem g (.inr (.inr (.inl hg)))) hne',
    isBlanks_ofGlyphs (fun g hg => hmem g (.inr (.inr (.inr hg)))) htail, ?_⟩
  calc source = Text.ofGlyphs source.glyphs := (Text.ofGlyphs_glyphs source).symm
    _ = _ := by
      rw [hsource]
      simp only [Text.ofGlyphs_append, ofGlyphs_ofWord, List.append_assoc]

/-- What is read is written so. -/
theorem written_of_parse? {header : LoopHeader} (h : parse? source = some header) :
    Written source header := by
  have hsplit := List.takeWhile_append_dropWhile (p := isSpace) (l := source.glyphs)
  have hlead : ∀ g ∈ source.glyphs.takeWhile isSpace, isSpace g = true :=
    fun g hg => List.all_eq_true.mp List.all_takeWhile g hg
  have hdropped : ∀ g ∈ source.glyphs.dropWhile isSpace, g ∈ source.glyphs :=
    fun g hg => (List.dropWhile_suffix isSpace).mem hg
  rw [parse?] at h
  split at h
  · cases h
  · rename_i value rest hvalue
    obtain ⟨taken, htaken, rfl, hname⟩ := exists_of_takeName? hdropped hvalue
    rw [htaken] at hsplit hdropped
    have hrest : ∀ g ∈ rest, g ∈ source.glyphs := fun g hg => hdropped g (List.mem_append_right _ hg)
    split at h
    · rename_i key later hkey
      obtain ⟨before, after, found, rfl, hbefore, hafter, rfl, hkeyName⟩ := exists_of_takeKey? hrest hkey
      have hlater : ∀ g ∈ later, g ∈ source.glyphs := fun g hg => hrest g (by simp [hg])
      obtain ⟨collection, hcollection, rfl⟩ := Option.map_eq_some_iff.mp h
      obtain ⟨gap, gap', inner, tail, rfl, hne, hne', hgap, hgap', htail, rfl⟩ :=
        exists_of_takeCollection? hlater hcollection
      have hnames : Names (Text.ofGlyphs taken) (some (Text.ofGlyphs found))
          (Text.ofGlyphs (taken ++ (before ++ Glyph.ascii 0x2C :: (after ++ found)))) := by
        have hboth := Names.both hname (isBlanks_ofGlyphs (fun g hg => hrest g (by simp [hg])) hbefore)
          (isBlanks_ofGlyphs (fun g hg => hrest g (by simp [hg])) hafter) hkeyName
        have hcomma : Text.ofGlyphs (Glyph.ascii 0x2C :: (after ++ found)) =
            0x2C :: (Text.ofGlyphs after ++ Text.ofGlyphs found) := by
          rw [← Text.ofGlyphs_append]
          rfl
        rw [Text.ofGlyphs_append, Text.ofGlyphs_append, hcomma]
        simpa using hboth
      refine written_of_glyphs (hsplit.symm.trans ?_) hnames hne hne' hlead hgap hgap' htail
      simp
    · obtain ⟨collection, hcollection, rfl⟩ := Option.map_eq_some_iff.mp h
      obtain ⟨gap, gap', inner, tail, rfl, hne, hne', hgap, hgap', htail, rfl⟩ :=
        exists_of_takeCollection? hrest hcollection
      exact written_of_glyphs hsplit.symm (.value hname) hne hne' hlead hgap hgap' htail

/-! ### The word `of` -/

theorem hasOfAfter_cons {fresh : Bool} {c : Char} {cs : List Char} :
    hasOfAfter fresh (c :: cs) = true ↔
      (fresh = true ∧ c = 'o' ∧ ∃ after, cs = 'f' :: after ∧
        ∀ d ∈ after.head?, CharClass.isHeaderSpace d = true) ∨
      hasOfAfter (CharClass.isHeaderSpace c) cs = true := by
  conv => lhs; unfold hasOfAfter
  rw [Bool.or_eq_true, Bool.and_eq_true, Bool.and_eq_true, beq_iff_eq, and_assoc]
  refine or_congr_left (and_congr_right fun _ => and_congr_right fun _ => ?_)
  split
  · simp
  · simp
  · rename_i halone hmore
    constructor
    · rintro ⟨⟩
    · rintro ⟨after, rfl, -⟩
      cases after with
      | nil => exact absurd rfl halone
      | cons d after => exact absurd rfl (hmore d after)

theorem hasOfAfter_iff {fresh : Bool} {cs : List Char} :
    hasOfAfter fresh cs = true ↔ ∃ before after, cs = before ++ 'o' :: 'f' :: after ∧
      (before = [] → fresh = true) ∧
      (∀ c ∈ before.getLast?, CharClass.isHeaderSpace c = true) ∧
      ∀ c ∈ after.head?, CharClass.isHeaderSpace c = true := by
  induction cs generalizing fresh with
  | nil => simp [hasOfAfter]
  | cons c cs ih =>
    rw [hasOfAfter_cons, ih]
    constructor
    · rintro (⟨hfresh, rfl, after, rfl, hafter⟩ | ⟨before, after, rfl, hfresh, hbefore, hafter⟩)
      · exact ⟨[], after, rfl, fun _ => hfresh, by simp, hafter⟩
      · refine ⟨c :: before, after, rfl, by simp, ?_, hafter⟩
        cases before with
        | nil => simpa using hfresh rfl
        | cons d before => simpa using hbefore
    · rintro ⟨before, after, hcs, hfresh, hbefore, hafter⟩
      cases before with
      | nil =>
        obtain ⟨rfl, rfl⟩ := List.cons.inj hcs
        exact .inl ⟨hfresh rfl, rfl, after, rfl, hafter⟩
      | cons d before =>
        obtain ⟨rfl, rfl⟩ := List.cons.inj hcs
        refine .inr ⟨before, after, rfl, ?_, ?_, hafter⟩
        · rintro rfl
          exact hbefore c rfl
        · cases before with
          | nil => simp
          | cons e before => simpa using hbefore

/-- The last byte of a text is a blank just if its last character is. -/
theorem getLast_blank_iff {t : Text} :
    (∀ b ∈ t.getLast?, b ∈ blankBytes) ↔
      ∀ c ∈ t.chars.getLast?, CharClass.isHeaderSpace c = true := by
  constructor
  · intro hlast
    rcases List.eq_nil_or_concat t with rfl | ⟨rest, b, rfl⟩
    · simp [Text.chars, Text.glyphs, Text.glyphsAfter]
    · have hb := hlast b (by simp)
      rw [List.concat_eq_append, Text.chars, Text.glyphs_append_cons rest (lt_of_mem_blankBytes hb)]
      simpa [Text.glyphs, Text.glyphsAfter, char_ascii] using mem_blankBytes.mp hb
  · intro hlast b hb
    rcases List.eq_nil_or_concat t.glyphs with hempty | ⟨gs, g, hglyphs⟩
    · rw [← Text.ofGlyphs_glyphs t, hempty] at hb
      cases hb
    · rw [List.concat_eq_append] at hglyphs
      have hspace : CharClass.isHeaderSpace g.char = true := by
        apply hlast
        simp [Text.chars, hglyphs]
      have hg : g ∈ t.glyphs := by simp [hglyphs]
      obtain ⟨c, -, rfl⟩ := Text.ascii_of_mem_glyphs hg (toNat_lt_of_isHeaderSpace hspace)
      rw [← Text.ofGlyphs_glyphs t, hglyphs, Text.ofGlyphs_append] at hb
      have hbyte : Text.ofGlyphs [Glyph.ascii c] = [c] := rfl
      rw [hbyte, List.getLast?_concat] at hb
      obtain rfl := Option.some.inj hb
      exact mem_blankBytes.mpr hspace

theorem head_blank_iff {t : Text} :
    (∀ b ∈ t.head?, b ∈ blankBytes) ↔ ∀ c ∈ t.chars.head?, CharClass.isHeaderSpace c = true := by
  constructor
  · intro hhead
    cases t with
    | nil => simp [Text.chars, Text.glyphs, Text.glyphsAfter]
    | cons b rest =>
      have hb := hhead b rfl
      rw [Text.chars, Text.glyphs_cons_ascii (lt_of_mem_blankBytes hb)]
      simpa [char_ascii] using mem_blankBytes.mp hb
  · intro hhead b hb
    cases hglyphs : t.glyphs with
    | nil =>
      rw [← Text.ofGlyphs_glyphs t, hglyphs] at hb
      cases hb
    | cons g gs =>
      have hspace : CharClass.isHeaderSpace g.char = true := by
        apply hhead
        simp [Text.chars, hglyphs]
      have hg : g ∈ t.glyphs := by simp [hglyphs]
      obtain ⟨c, -, rfl⟩ := Text.ascii_of_mem_glyphs hg (toNat_lt_of_isHeaderSpace hspace)
      rw [← Text.ofGlyphs_glyphs t, hglyphs] at hb
      obtain rfl : c = b := Option.some.inj hb
      exact mem_blankBytes.mpr hspace

theorem hasOf_iff {t : Text} : hasOf t = true ↔ HasWordOf t := by
  rw [hasOf, hasOfAfter_iff]
  constructor
  · rintro ⟨before, after, hchars, -, hbefore, hafter⟩
    obtain ⟨front, gs, hglyphs, rfl, hrest⟩ := List.map_eq_append_iff.mp hchars
    obtain ⟨o, gs, rfl, ho, hrest⟩ := List.map_eq_cons_iff.mp hrest
    obtain ⟨f, back, rfl, hf, rfl⟩ := List.map_eq_cons_iff.mp hrest
    have ho := eq_ascii_of_char (b := 0x6F) (show o ∈ t.glyphs by simp [hglyphs]) (by decide) ho
    have hf := eq_ascii_of_char (b := 0x66) (show f ∈ t.glyphs by simp [hglyphs]) (by decide) hf
    have hword : t.glyphs = front ++ ofWord back := by rw [hglyphs, ho, hf, ofWord]
    have hfront : (Text.ofGlyphs front).chars = front.map Glyph.char := by
      rw [Text.chars, Text.glyphs_ofGlyphs_left hglyphs]
    have hback : (Text.ofGlyphs back).chars = back.map Glyph.char := by
      have hsplit : t.glyphs = (front ++ [o, f]) ++ back := by simp [hglyphs]
      rw [Text.chars, Text.glyphs_ofGlyphs_right hsplit]
    refine ⟨Text.ofGlyphs front, Text.ofGlyphs back, ?_, ?_, ?_⟩
    · rw [List.append_assoc, ← ofGlyphs_ofWord, ← Text.ofGlyphs_append, ← hword, Text.ofGlyphs_glyphs]
    · rw [getLast_blank_iff, hfront]
      exact hbefore
    · rw [head_blank_iff, hback]
      exact hafter
  · rintro ⟨before, after, rfl, hbefore, hafter⟩
    refine ⟨before.chars, after.chars, ?_, fun _ => rfl, getLast_blank_iff.mp hbefore,
      head_blank_iff.mp hafter⟩
    have hword : Text.ofString "of" = [0x6F, 0x66] := rfl
    rw [hword, List.append_assoc, List.cons_append, List.cons_append, List.nil_append, Text.chars,
      Text.glyphs_append_cons before (by decide), Text.glyphs_cons_ascii (by decide)]
    simp [Text.chars, Glyph.ascii]

/-! ### Loops -/

theorem parse_eq_of_trim {s t : Text} (h : s.trim = t.trim) : Path.parse s = Path.parse t := by
  rw [Path.parse, Path.parse, h]

theorem isBlank_eq_of_trim {s t : Text} (h : s.trim = t.trim) : s.isBlank = t.isBlank := by
  rw [Text.isBlank, Text.isBlank, h]

end LoopHeader

theorem loopOver_eq_ok {source key value : Text} {l : Loop} :
    loopOver source key value = .ok l ↔
      source.isBlank = false ∧ ∃ path, Path.parse source = .ok path ∧ l = ⟨path, key, value⟩ := by
  rw [loopOver]
  cases source.isBlank with
  | true => simp
  | false =>
    cases Path.parse source with
    | error e => simp
    | ok path => simp [eq_comm]

/-- A loop is read from a text exactly if the text says it. -/
theorem loopOfText_eq_ok {t : Text} {l : Loop} : loopOfText t = .ok l ↔ LoopHeader.Says t l := by
  rw [loopOfText]
  cases hparse : LoopHeader.parse? t with
  | some found =>
    have hfound := LoopHeader.written_of_parse? hparse
    dsimp only
    constructor
    · intro hloop
      split at hloop
      · cases hloop
      · rename_i hnames
        obtain ⟨hgiven, path, hpath, rfl⟩ := loopOver_eq_ok.mp hloop
        exact .header hfound hnames hgiven hpath
    · intro hsays
      cases hsays with
      | @header header path hwritten hnames hgiven hpath =>
        -- The header that was found is the one that is written, up to blanks.
        obtain ⟨other, hother, hvalue, hkey, htrim⟩ := LoopHeader.parse?_of_written hwritten
        obtain rfl : found = other := Option.some.inj (hparse.symm.trans hother)
        rw [hvalue, hkey, if_neg hnames, loopOver_eq_ok, LoopHeader.isBlank_eq_of_trim htrim,
          LoopHeader.parse_eq_of_trim htrim]
        exact ⟨hgiven, path, hpath, rfl⟩
      | path hheader _ _ _ => exact absurd hfound (hheader found)
  | none =>
    have hheader : ∀ header, ¬ LoopHeader.Written t header := by
      intro header hwritten
      obtain ⟨found, hfound, -⟩ := LoopHeader.parse?_of_written hwritten
      rw [hparse] at hfound
      cases hfound
    dsimp only
    constructor
    · intro hloop
      split at hloop
      · cases hloop
      · rename_i hof
        obtain ⟨hgiven, path, hpath, rfl⟩ := loopOver_eq_ok.mp hloop
        exact .path hheader (mt LoopHeader.hasOf_iff.mpr hof) hgiven hpath
    · intro hsays
      cases hsays with
      | header hwritten _ _ _ => exact absurd hwritten (hheader _)
      | @path path _ hof hgiven hpath =>
        rw [if_neg (mt LoopHeader.hasOf_iff.mp hof), loopOver_eq_ok]
        exact ⟨hgiven, path, hpath, rfl⟩

end Template

end Stencil
