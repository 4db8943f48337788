import Stencil.Proofs.BlankErasure
import Stencil.Proofs.JoinedLines

/-!
# UTF-8

A text is UTF-8 if every byte belongs to a character. Such a text can be cut between characters and put
together again, and treating line endings and replacing references keeps it so: a reference is made of
ASCII bytes and stands for whole characters. One pass is enough to drop the blanks of such a text.
-/

namespace Stencil

namespace Glyph

/-- Whether a glyph is a byte that belongs to no character. -/
def isStray (g : Glyph) : Bool := g.bytes.any fun b => g == stray b

theorem IsRead.isWhole_iff {g : Glyph} (hg : g.IsRead) : g.IsWhole ↔ g.isStray = false := by
  constructor
  · rintro ⟨b, rest, rfl, hread⟩
    rw [← Bool.not_eq_true, isStray, List.any_eq_true]
    rintro ⟨c, _, hstray⟩
    rw [beq_iff_eq] at hstray
    have hbytes := bytes_first b rest
    rw [hstray] at hbytes
    obtain ⟨rfl, _⟩ := List.cons.inj hbytes
    exact hread hstray
  · intro hstray
    obtain ⟨b, rest, rfl⟩ := hg
    refine ⟨b, rest, rfl, ?_⟩
    intro heq
    rw [heq] at hstray
    simp [isStray, stray] at hstray

theorem followedBy_of_bounds {b c : UInt8} (hlow : 128 ≤ c.toNat) (hhigh : c.toNat ≤ 191)
    (hE0 : b.toNat = 0xE0 → 160 ≤ c.toNat) (hED : b.toNat = 0xED → c.toNat ≤ 159)
    (hF0 : b.toNat = 0xF0 → 144 ≤ c.toNat) (hF4 : b.toNat = 0xF4 → c.toNat ≤ 143) :
    followedBy b c = true := by
  simp only [followedBy, secondByteRange, Bool.and_eq_true, decide_eq_true_eq,
    UInt8.le_iff_toNat_le]
  simp only [← UInt8.toNat_inj, UInt8.reduceToNat]
  split
  · rename_i h
    have := hE0 h
    simp only [UInt8.reduceToNat]
    omega
  · split
    · rename_i h
      have := hED h
      simp only [UInt8.reduceToNat]
      omega
    · split
      · rename_i h
        have := hF0 h
        simp only [UInt8.reduceToNat]
        omega
      · split
        · rename_i h
          have := hF4 h
          simp only [UInt8.reduceToNat]
          omega
        · simp only [UInt8.reduceToNat]
          omega

theorem isContinuation_of_bounds {c : UInt8} (hlow : 128 ≤ c.toNat) (hhigh : c.toNat ≤ 191) :
    isContinuation c = true := by
  simp only [isContinuation, Bool.and_eq_true, decide_eq_true_eq, UInt8.le_iff_toNat_le]
  exact ⟨hlow, hhigh⟩

theorem isWhole_of_length {b : UInt8} {rest : Text} (h : (first b rest).bytes.length ≠ 1) :
    (first b rest).IsWhole := by
  refine ⟨b, rest, rfl, ?_⟩
  intro hstray
  rw [hstray] at h
  exact h rfl

theorem isWhole_ascii {b : UInt8} (hb : b < 0x80) : (ascii b).IsWhole := by
  have hread : (ascii b).IsRead := ⟨b, [], (first_of_lt hb []).symm⟩
  apply hread.isWhole
  intro hchar
  have hnat := congrArg Char.toNat hchar
  rw [UInt8.lt_iff_toNat_lt] at hb
  rw [show (ascii b).char.toNat = b.toNat from
    toNat_charOfNat (.inl (by have := b.toNat_lt; omega))] at hnat
  rw [hnat] at hb
  revert hb
  decide

theorem toNat_ofNat_of_lt {n : Nat} (hn : n < 256) : (UInt8.ofNat n).toNat = n := by
  rw [UInt8.toNat_ofNat', Nat.mod_eq_of_lt hn]

theorem isWhole_two {b c : UInt8} (hb : 0xC2 ≤ b.toNat ∧ b.toNat ≤ 0xDF)
    (hc : followedBy b c = true) : ∃ g : Glyph, g.IsWhole ∧ g.bytes = [b, c] := by
  have hbytes : (first b [c]).bytes = [b, c] := by
    unfold first
    rw [if_neg (by simp [UInt8.lt_iff_toNat_lt]; omega),
      if_pos (by simp [UInt8.le_iff_toNat_le]; omega)]
    simp only [hc, if_true]
  exact ⟨first b [c], isWhole_of_length (by rw [hbytes]; simp), hbytes⟩

theorem isWhole_three {b c d : UInt8} (hb : 0xE0 ≤ b.toNat ∧ b.toNat ≤ 0xEF)
    (hc : followedBy b c = true) (hd : isContinuation d = true) :
    ∃ g : Glyph, g.IsWhole ∧ g.bytes = [b, c, d] := by
  have hbytes : (first b [c, d]).bytes = [b, c, d] := by
    unfold first
    rw [if_neg (by simp [UInt8.lt_iff_toNat_lt]; omega),
      if_neg (by simp [UInt8.le_iff_toNat_le]; omega),
      if_pos (by simp [UInt8.le_iff_toNat_le]; omega)]
    simp only [hc, hd, Bool.and_self, if_true]
  exact ⟨first b [c, d], isWhole_of_length (by rw [hbytes]; simp), hbytes⟩

theorem isWhole_four {b c d e : UInt8} (hb : 0xF0 ≤ b.toNat ∧ b.toNat ≤ 0xF4)
    (hc : followedBy b c = true) (hd : isContinuation d = true) (he : isContinuation e = true) :
    ∃ g : Glyph, g.IsWhole ∧ g.bytes = [b, c, d, e] := by
  have hbytes : (first b [c, d, e]).bytes = [b, c, d, e] := by
    unfold first
    rw [if_neg (by simp [UInt8.lt_iff_toNat_lt]; omega),
      if_neg (by simp [UInt8.le_iff_toNat_le]; omega),
      if_neg (by simp [UInt8.le_iff_toNat_le]; omega),
      if_pos (by simp [UInt8.le_iff_toNat_le]; omega)]
    simp only [hc, hd, he, Bool.and_self, if_true]
  exact ⟨first b [c, d, e], isWhole_of_length (by rw [hbytes]; simp), hbytes⟩

/-- The bytes of a character are read as one. -/
theorem exists_isWhole_ofChar (c : Char) : ∃ g : Glyph, g.IsWhole ∧ g.bytes = Text.ofChar c := by
  have hvalid : c.val.toNat < 0xD800 ∨ 0xDFFF < c.val.toNat ∧ c.val.toNat < 0x110000 := c.valid
  simp only [Text.ofChar, String.utf8EncodeChar]
  generalize c.val.toNat = v at hvalid
  have hlast := toNat_ofNat_of_lt (show v % 64 + 128 < 256 by omega)
  by_cases hone : v ≤ 127
  · rw [if_pos hone]
    refine ⟨ascii (UInt8.ofNat v), isWhole_ascii ?_, rfl⟩
    rw [UInt8.lt_iff_toNat_lt, toNat_ofNat_of_lt (by omega)]
    exact Nat.lt_succ_of_le hone
  rw [if_neg hone]
  by_cases htwo : v ≤ 2047
  · rw [if_pos htwo]
    have hlead := toNat_ofNat_of_lt (show v / 64 % 32 + 192 < 256 by omega)
    apply isWhole_two
    · omega
    · apply followedBy_of_bounds <;> omega
  rw [if_neg htwo]
  have hthird := toNat_ofNat_of_lt (show v / 64 % 64 + 128 < 256 by omega)
  by_cases hthree : v ≤ 65535
  · rw [if_pos hthree]
    have hlead := toNat_ofNat_of_lt (show v / 4096 % 16 + 224 < 256 by omega)
    apply isWhole_three
    · omega
    · apply followedBy_of_bounds <;> omega
    · apply isContinuation_of_bounds <;> omega
  · rw [if_neg hthree]
    have hlead := toNat_ofNat_of_lt (show v / 262144 % 8 + 240 < 256 by omega)
    have hsecond := toNat_ofNat_of_lt (show v / 4096 % 64 + 128 < 256 by omega)
    apply isWhole_four
    · omega
    · apply followedBy_of_bounds <;> omega
    · apply isContinuation_of_bounds <;> omega
    · apply isContinuation_of_bounds <;> omega

theorem of_mem_joinLines {g : Glyph} {gs : List Glyph} (hg : g ∈ joinLines gs) :
    g ∈ gs ∨ g = ascii 0x0A := by
  induction gs using lines_induction with
  | nil => cases hg
  | crlf b b' rest ih =>
    rw [joinLines_crlf] at hg
    rcases List.mem_cons.mp hg with rfl | hg
    · exact .inl (by simp)
    · exact (ih hg).imp_left fun h => by simp [h]
  | cr b rest hrest ih =>
    rw [joinLines_cr rfl hrest] at hg
    rcases List.mem_cons.mp hg with rfl | hg
    · exact .inr rfl
    · exact (ih hg).imp_left fun h => by simp [h]
  | other h rest hh ih =>
    rw [joinLines_cons hh] at hg
    rcases List.mem_cons.mp hg with rfl | hg
    · exact .inl (by simp)
    · exact (ih hg).imp_left fun h => by simp [h]

end Glyph

namespace Text

/-- Whether a text is UTF-8: every byte belongs to a character. -/
def isUtf8 (t : Text) : Bool := t.glyphs.all fun g => !g.isStray

theorem isUtf8_iff {t : Text} : t.isUtf8 = true ↔ ∀ g ∈ glyphs t, g.IsWhole := by
  simp only [isUtf8, List.all_eq_true, Bool.not_eq_true']
  constructor
  · exact fun h g hg => (isRead_of_mem_glyphs hg).isWhole_iff.mpr (h g hg)
  · exact fun h g hg => (isRead_of_mem_glyphs hg).isWhole_iff.mp (h g hg)

theorem isUtf8_ofGlyphs {gs : List Glyph} (hgs : ∀ g ∈ gs, g.IsWhole) :
    (ofGlyphs gs).isUtf8 = true := by
  rw [isUtf8_iff, glyphs_ofGlyphs hgs]
  exact hgs

theorem isUtf8_append {s t : Text} (hs : s.isUtf8 = true) (ht : t.isUtf8 = true) :
    isUtf8 (s ++ t) = true := by
  rw [← ofGlyphs_glyphs s, ← ofGlyphs_glyphs t, ← ofGlyphs_append]
  apply isUtf8_ofGlyphs
  intro g hg
  rcases List.mem_append.mp hg with hg | hg
  · exact isUtf8_iff.mp hs g hg
  · exact isUtf8_iff.mp ht g hg

theorem isUtf8_of_isAscii {t : Text} (ht : IsAscii t) : t.isUtf8 = true := by
  rw [isUtf8_iff, glyphs_ascii ht]
  intro g hg
  obtain ⟨b, hb, rfl⟩ := List.mem_map.mp hg
  exact Glyph.isWhole_ascii (ht b hb)

theorem isUtf8_of_cons {b : UInt8} {t : Text} (hb : b < 0x80) (ht : isUtf8 (b :: t) = true) :
    t.isUtf8 = true := by
  rw [isUtf8_iff, glyphs_cons_ascii hb] at ht
  exact isUtf8_iff.mpr fun g hg => ht g (List.mem_cons_of_mem _ hg)

theorem isUtf8_ofChar (c : Char) : (ofChar c).isUtf8 = true := by
  obtain ⟨g, hg, hbytes⟩ := Glyph.exists_isWhole_ofChar c
  have hone := @isUtf8_ofGlyphs [g] (by simpa using hg)
  rwa [show ofGlyphs [g] = g.bytes from List.append_nil _, hbytes] at hone

theorem isUtf8_flatMap {α : Type} {f : α → Text} (hf : ∀ a, (f a).isUtf8 = true) (as : List α) :
    isUtf8 (as.flatMap f) = true := by
  induction as with
  | nil => rfl
  | cons a as ih => exact isUtf8_append (hf a) ih

/-- One pass drops all the blanks of a text in UTF-8. -/
theorem dropBlanks_eq_ink {t : Text} (ht : t.isUtf8 = true) : t.dropBlanks = ink t := by
  have hwhole := isUtf8_iff.mp ht
  have hglyphs : glyphs t.dropBlanks = t.glyphs.filter fun g => !CharClass.isCollapsible g.char :=
    glyphs_ofGlyphs fun g hg => hwhole g (List.mem_filter.mp hg).1
  rw [← ink_dropBlanks, ink_eq_self]
  intro g hg
  rw [hglyphs, List.mem_filter, Bool.not_eq_true'] at hg
  exact hg.2

theorem isUtf8_normalizeLineEndings {t : Text} (ht : t.isUtf8 = true) :
    t.normalizeLineEndings.isUtf8 = true := by
  rw [isUtf8_iff] at ht ⊢
  rw [glyphs_normalizeLineEndings]
  intro g hg
  rcases Glyph.of_mem_joinLines hg with hg | rfl
  · exact ht g hg
  · exact Glyph.isWhole_ascii (by decide)

end Text

/-! ### Character references -/

namespace Markup.Reference

open Text

theorem isUtf8_of_named {name t : Text} (ht : named? name = some t) : t.isUtf8 = true := by
  rw [named?.eq_def] at ht
  split at ht
  · cases ht
  · obtain ⟨line, _, hline⟩ := List.exists_of_findSome?_eq_some ht
    obtain ⟨entry, _, hentry⟩ := List.exists_of_findSome?_eq_some hline
    split at hentry
    · cases hentry
      exact isUtf8_flatMap (fun code => isUtf8_ofChar _) _
    · cases hentry

theorem longestNamed?_spec {name : Text} {size : Nat} {found : Text × Nat}
    (h : longestNamed? name size = some found) : found.1.isUtf8 = true ∧ found.2 ≤ size := by
  fun_induction longestNamed? name size with
  | case1 => cases h
  | case2 => cases h
  | case3 size u hnamed =>
    cases h
    exact ⟨isUtf8_of_named hnamed, Nat.le_refl _⟩
  | case4 size _ ih =>
    obtain ⟨ht, hfound⟩ := ih h
    exact ⟨ht, by omega⟩

theorem lt_of_isNameByte {b : UInt8} (hb : isNameByte b = true) : b < 0x80 := by
  simp only [isNameByte, Bool.or_eq_true, Bool.and_eq_true, decide_eq_true_eq, UInt8.le_iff_toNat_le,
    UInt8.reduceToNat] at hb
  rw [UInt8.lt_iff_toNat_lt]
  change b.toNat < 128
  omega

theorem lt_of_hexDigit {b : UInt8} (hb : (hexDigit? b).isSome = true) : b < 0x80 := by
  rw [UInt8.lt_iff_toNat_lt]
  change b.toNat < 128
  simp only [hexDigit?, Bool.and_eq_true, decide_eq_true_eq, UInt8.le_iff_toNat_le,
    UInt8.reduceToNat] at hb
  split at hb
  · omega
  · split at hb
    · omega
    · split at hb
      · omega
      · cases hb

theorem lt_of_decimalDigit {b : UInt8} (hb : (decimalDigit? b).isSome = true) : b < 0x80 := by
  rw [UInt8.lt_iff_toNat_lt]
  change b.toNat < 128
  simp only [decimalDigit?, Bool.and_eq_true, decide_eq_true_eq, UInt8.le_iff_toNat_le,
    UInt8.reduceToNat] at hb
  split at hb
  · omega
  · cases hb

/-- A run of ASCII bytes is followed by another one if a semicolon ends it. -/
theorem isAscii_take_run {p : UInt8 → Bool} (hp : ∀ b, p b = true → b < 0x80) (t : Text) :
    IsAscii (t.take ((t.takeWhile p).length +
      if (t.drop (t.takeWhile p).length).head? == some 0x3B then 1 else 0)) := by
  induction t with
  | nil => simp [IsAscii]
  | cons b t ih =>
    cases hb : p b with
    | true =>
      rw [List.takeWhile_cons_of_pos hb, List.length_cons, List.drop_succ_cons, Nat.add_right_comm,
        List.take_succ_cons]
      intro c hc
      rcases List.mem_cons.mp hc with rfl | hc
      · exact hp c hb
      · exact ih c hc
    | false =>
      rw [List.takeWhile_cons_of_neg (by simp [hb])]
      by_cases hsemicolon : b = 0x3B
      · subst hsemicolon
        intro c hc
        rw [List.mem_singleton.mp hc]
        decide
      · intro c hc
        simp [hsemicolon] at hc

theorem isAscii_take_cons {b : UInt8} {t : Text} {n : Nat} (hb : b < 0x80) (ht : IsAscii (t.take n)) :
    IsAscii ((b :: t).take (1 + n)) := by
  rw [Nat.add_comm, List.take_succ_cons]
  intro c hc
  rcases List.mem_cons.mp hc with rfl | hc
  · exact hb
  · exact ht c hc

theorem isAscii_take_mono {t : Text} {m n : Nat} (hmn : m ≤ n) (ht : IsAscii (t.take n)) :
    IsAscii (t.take m) := by
  intro b hb
  exact ht b ((List.take_sublist_take_left hmn).mem hb)

/-- What a reference stands for is UTF-8, and so many bytes of the text belong to it, all ASCII. -/
def Sound (rest : Text) (found : Text × Nat) : Prop :=
  found.1.isUtf8 = true ∧ IsAscii (rest.take found.2)

theorem sound_number {rest : Text} {c : Char} {size : Nat} (hsize : IsAscii (rest.take size))
    (short : Bool) : Sound rest (if short then ([0x26], 0) else (ofChar c, size)) := by
  cases short with
  | true => exact ⟨rfl, by simp [IsAscii]⟩
  | false => exact ⟨isUtf8_ofChar c, hsize⟩

theorem sound_name {rest name : Text} (hrest : IsAscii (rest.take name.length))
    (hname : IsAscii name) :
    Sound rest (match named? name with
      | some t => (t, name.length)
      | none =>
        match longestNamed? name (min (name.length - 1) longestBareName) with
        | some found => found
        | none => (0x26 :: name, name.length)) := by
  split
  · rename_i t hnamed
    exact ⟨isUtf8_of_named hnamed, hrest⟩
  · split
    · rename_i found hlongest
      obtain ⟨ht, hsize⟩ := longestNamed?_spec hlongest
      exact ⟨ht, isAscii_take_mono (by omega) hrest⟩
    · refine ⟨isUtf8_of_isAscii ?_, hrest⟩
      intro b hb
      rcases List.mem_cons.mp hb with rfl | hb
      · decide
      · exact hname b hb

theorem sound_expand (rest : Text) : Sound rest (expand rest) := by
  rw [expand.eq_def]
  split
  · rename_i tail
    dsimp only
    apply sound_number
    rw [Nat.add_assoc, Nat.add_assoc]
    apply isAscii_take_cons (by decide)
    cases hhex : (tail.head? == some 0x78 || tail.head? == some 0x58) with
    | false =>
      simp only [Bool.false_eq_true, if_false, Nat.zero_add]
      exact isAscii_take_run (fun b hb => lt_of_decimalDigit hb) tail
    | true =>
      cases tail with
      | nil => simp at hhex
      | cons x body =>
        have hx : x < 0x80 := by
          simp only [List.head?_cons, Bool.or_eq_true, beq_iff_eq, Option.some.injEq] at hhex
          rcases hhex with rfl | rfl <;> decide
        simp only [if_true, List.drop_succ_cons, List.drop_zero]
        exact isAscii_take_cons hx (isAscii_take_run (fun b hb => lt_of_hexDigit hb) body)
  · have hrun := isAscii_take_run (fun b hb => lt_of_isNameByte hb) rest
    have hletters : IsAscii (rest.takeWhile isNameByte) := fun b hb =>
      lt_of_isNameByte (List.all_eq_true.mp List.all_takeWhile b hb)
    dsimp only
    apply sound_name
    · split
      · rename_i hclosed
        rw [if_pos hclosed] at hrun
        rw [List.length_append]
        exact hrun
      · rename_i hclosed
        rw [if_neg hclosed] at hrun
        exact hrun
    · split
      · intro b hb
        rcases List.mem_append.mp hb with hb | hb
        · exact hletters b hb
        · rw [List.mem_singleton.mp hb]
          decide
      · exact hletters

theorem decodeAfter_eq_drop (skip : Nat) (t : Text) :
    decodeAfter skip t = decodeAfter 0 (t.drop skip) := by
  induction t generalizing skip with
  | nil => rw [List.drop_nil]; rfl
  | cons b t ih =>
    cases skip with
    | zero => rfl
    | succ n => exact ih n

theorem decodeAfter_plain {bs : Text} (hbs : 0x26 ∉ bs) (rest : Text) :
    decodeAfter 0 (bs ++ rest) = bs ++ decodeAfter 0 rest := by
  induction bs with
  | nil => rfl
  | cons b bs ih =>
    rw [List.mem_cons, not_or] at hbs
    rw [List.cons_append, decodeAfter, if_neg (Ne.symm hbs.1), ih hbs.2, List.cons_append]

theorem isUtf8_drop {t : Text} (ht : t.isUtf8 = true) {n : Nat} (hn : IsAscii (t.take n)) :
    isUtf8 (t.drop n) = true := by
  induction n generalizing t with
  | zero => exact ht
  | succ n ih =>
    cases t with
    | nil => rfl
    | cons b t =>
      rw [List.take_succ_cons] at hn
      have hb : b < 0x80 := hn b List.mem_cons_self
      exact ih (isUtf8_of_cons hb ht) fun c hc => hn c (List.mem_cons_of_mem b hc)

/-- Replacing references keeps a text UTF-8. -/
theorem isUtf8_decode {t : Text} (ht : t.isUtf8 = true) : (decode t).isUtf8 = true := by
  induction hsize : t.length using Nat.strongRecOn generalizing t with
  | ind size ih =>
    cases t with
    | nil => rfl
    | cons b rest =>
      rw [List.length_cons] at hsize
      by_cases hb : b = 0x26
      · subst hb
        obtain ⟨hfound, hascii⟩ := sound_expand rest
        have hrest := isUtf8_of_cons (by decide) ht
        have hdecode : decode (0x26 :: rest) =
            (expand rest).1 ++ decode (rest.drop (expand rest).2) := by
          rw [decode, decodeAfter, if_pos rfl]
          dsimp only
          rw [decodeAfter_eq_drop]
          rfl
        rw [hdecode]
        exact isUtf8_append hfound
          (ih _ (by rw [List.length_drop]; omega) (isUtf8_drop hrest hascii) rfl)
      · obtain ⟨tail, after, hbytes, rfl, htail⟩ := Glyph.first_split b rest
        have hplain : 0x26 ∉ b :: tail := by
          intro hmem
          rcases List.mem_cons.mp hmem with heq | hmem
          · exact hb heq.symm
          · exact absurd (htail _ hmem) (by decide)
        rw [isUtf8_iff, glyphs_cons, hbytes, List.length_cons, Nat.add_sub_cancel, List.drop_left] at ht
        have hfirst := @isUtf8_ofGlyphs [Glyph.first b (tail ++ after)]
          (by simpa using ht _ List.mem_cons_self)
        rw [show ofGlyphs [Glyph.first b (tail ++ after)] = (Glyph.first b (tail ++ after)).bytes from
          List.append_nil _, hbytes] at hfirst
        have hafter : isUtf8 after = true :=
          isUtf8_iff.mpr fun g hg => ht g (List.mem_cons_of_mem _ hg)
        rw [decode, ← List.cons_append, decodeAfter_plain hplain]
        exact isUtf8_append hfirst (ih _ (by rw [List.length_append] at hsize; omega) hafter rfl)

end Markup.Reference

end Stencil
