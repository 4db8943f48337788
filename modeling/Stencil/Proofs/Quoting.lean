import Stencil.Proofs.Utf8

/-!
# Quoted texts can be told apart

A quoted text determines the text that was quoted and where it ends, whatever follows it, also if the
text is not UTF-8. The reason is that an escaped character can be read back without looking at what
comes after it: `readEscape` does so, and gives the bytes that the character was escaped from.
-/

namespace Stencil

/-! ### Characters and their bytes -/

namespace Glyph

private theorem ofChar_two {b c : UInt8} (hb : (0xC2 ≤ b && b ≤ 0xDF) = true)
    (hfollowed : followedBy b c = true) :
    Text.ofChar (Char.ofNat (b.toNat % 32 * 64 + payload c)) = [b, c] := by
  simp only [Bool.and_eq_true, decide_eq_true_eq, UInt8.le_iff_toNat_le, UInt8.reduceToNat] at hb
  obtain ⟨hlow, hhigh, -⟩ := followedBy_bounds hfollowed
  have hpayload : payload c = c.toNat - 128 := by
    unfold payload
    omega
  have hvalue := toNat_charOfNat (n := b.toNat % 32 * 64 + payload c) (.inl (by omega))
  simp only [Text.ofChar, String.utf8EncodeChar]
  generalize hv : (Char.ofNat (b.toNat % 32 * 64 + payload c)).val.toNat = v
  have hvalue : v = b.toNat % 32 * 64 + payload c := hv.symm.trans hvalue
  rw [if_neg (by omega), if_pos (by omega)]
  have hfirst : UInt8.ofNat (v / 64 % 32 + 192) = b := by
    rw [← UInt8.toNat_inj, toNat_ofNat_of_lt (by omega)]
    omega
  have hsecond : UInt8.ofNat (v % 64 + 128) = c := by
    rw [← UInt8.toNat_inj, toNat_ofNat_of_lt (by omega)]
    omega
  rw [hfirst, hsecond]

private theorem ofChar_three {b c d : UInt8} (hb : (0xE0 ≤ b && b ≤ 0xEF) = true)
    (hfollowed : followedBy b c = true) (hd : isContinuation d = true) :
    Text.ofChar (Char.ofNat (b.toNat % 16 * 4096 + payload c * 64 + payload d)) = [b, c, d] := by
  simp only [Bool.and_eq_true, decide_eq_true_eq, UInt8.le_iff_toNat_le, UInt8.reduceToNat] at hb
  simp only [isContinuation, Bool.and_eq_true, decide_eq_true_eq, UInt8.le_iff_toNat_le,
    UInt8.reduceToNat] at hd
  have hc := followedBy_bounds hfollowed
  have hpayload : payload c = c.toNat - 128 ∧ payload d = d.toNat - 128 := by
    unfold payload
    omega
  have hvalid : (b.toNat % 16 * 4096 + payload c * 64 + payload d).isValidChar := by
    unfold Nat.isValidChar
    omega
  have hvalue := toNat_charOfNat hvalid
  simp only [Text.ofChar, String.utf8EncodeChar]
  generalize hv : (Char.ofNat (b.toNat % 16 * 4096 + payload c * 64 + payload d)).val.toNat = v
  have hvalue : v = b.toNat % 16 * 4096 + payload c * 64 + payload d := hv.symm.trans hvalue
  rw [if_neg (by omega), if_neg (by omega), if_pos (by omega)]
  have hfirst : UInt8.ofNat (v / 4096 % 16 + 224) = b := by
    rw [← UInt8.toNat_inj, toNat_ofNat_of_lt (by omega)]
    omega
  have hsecond : UInt8.ofNat (v / 64 % 64 + 128) = c := by
    rw [← UInt8.toNat_inj, toNat_ofNat_of_lt (by omega)]
    omega
  have hthird : UInt8.ofNat (v % 64 + 128) = d := by
    rw [← UInt8.toNat_inj, toNat_ofNat_of_lt (by omega)]
    omega
  rw [hfirst, hsecond, hthird]

private theorem ofChar_four {b c d e : UInt8} (hb : (0xF0 ≤ b && b ≤ 0xF4) = true)
    (hfollowed : followedBy b c = true) (hd : isContinuation d = true)
    (he : isContinuation e = true) :
    Text.ofChar (Char.ofNat (b.toNat % 8 * 262144 + payload c * 4096 + payload d * 64 +
      payload e)) = [b, c, d, e] := by
  simp only [Bool.and_eq_true, decide_eq_true_eq, UInt8.le_iff_toNat_le, UInt8.reduceToNat] at hb
  simp only [isContinuation, Bool.and_eq_true, decide_eq_true_eq, UInt8.le_iff_toNat_le,
    UInt8.reduceToNat] at hd he
  have hc := followedBy_bounds hfollowed
  have hpayload : payload c = c.toNat - 128 ∧ payload d = d.toNat - 128 ∧
      payload e = e.toNat - 128 := by
    unfold payload
    omega
  have hvalid : (b.toNat % 8 * 262144 + payload c * 4096 + payload d * 64 +
      payload e).isValidChar := by
    unfold Nat.isValidChar
    omega
  have hvalue := toNat_charOfNat hvalid
  simp only [Text.ofChar, String.utf8EncodeChar]
  generalize hv : (Char.ofNat (b.toNat % 8 * 262144 + payload c * 4096 + payload d * 64 +
    payload e)).val.toNat = v
  have hvalue : v = b.toNat % 8 * 262144 + payload c * 4096 + payload d * 64 + payload e :=
    hv.symm.trans hvalue
  rw [if_neg (by omega), if_neg (by omega), if_neg (by omega)]
  have hfirst : UInt8.ofNat (v / 262144 % 8 + 240) = b := by
    rw [← UInt8.toNat_inj, toNat_ofNat_of_lt (by omega)]
    omega
  have hsecond : UInt8.ofNat (v / 4096 % 64 + 128) = c := by
    rw [← UInt8.toNat_inj, toNat_ofNat_of_lt (by omega)]
    omega
  have hthird : UInt8.ofNat (v / 64 % 64 + 128) = d := by
    rw [← UInt8.toNat_inj, toNat_ofNat_of_lt (by omega)]
    omega
  have hfourth : UInt8.ofNat (v % 64 + 128) = e := by
    rw [← UInt8.toNat_inj, toNat_ofNat_of_lt (by omega)]
    omega
  rw [hfirst, hsecond, hthird, hfourth]

private theorem ofChar_one {b : UInt8} (hb : b < 0x80) : Text.ofChar (Char.ofNat b.toNat) = [b] := by
  have hlow : b.toNat < 128 := UInt8.lt_iff_toNat_lt.mp hb
  have hvalue := toNat_charOfNat (n := b.toNat) (.inl (by omega))
  simp only [Text.ofChar, String.utf8EncodeChar]
  generalize hv : (Char.ofNat b.toNat).val.toNat = v
  obtain rfl : v = b.toNat := hv.symm.trans hvalue
  rw [if_pos (by omega), UInt8.ofNat_toNat]

/-- A character that was read is written with the bytes it was read from. -/
theorem IsWhole.ofChar_char {g : Glyph} (hg : g.IsWhole) : Text.ofChar g.char = g.bytes := by
  obtain ⟨b, rest, rfl, hread⟩ := hg
  unfold first at hread ⊢
  by_cases hone : b < 0x80
  · rw [if_pos hone]
    exact ofChar_one hone
  rw [if_neg hone] at hread ⊢
  by_cases htwo : (0xC2 ≤ b && b ≤ 0xDF) = true
  · rw [if_pos htwo] at hread ⊢
    match rest with
    | [] => exact absurd rfl hread
    | c :: rest =>
      dsimp only at hread ⊢
      split at hread
      · rename_i hfollowed
        rw [if_pos hfollowed]
        exact ofChar_two htwo hfollowed
      · exact absurd rfl hread
  rw [if_neg htwo] at hread ⊢
  by_cases hthree : (0xE0 ≤ b && b ≤ 0xEF) = true
  · rw [if_pos hthree] at hread ⊢
    match rest with
    | [] => exact absurd rfl hread
    | [c] => exact absurd rfl hread
    | c :: d :: rest =>
      dsimp only at hread ⊢
      split at hread
      · rename_i hfollowed
        rw [if_pos hfollowed]
        obtain ⟨hc, hd⟩ := Bool.and_eq_true_iff.mp hfollowed
        exact ofChar_three hthree hc hd
      · exact absurd rfl hread
  rw [if_neg hthree] at hread ⊢
  by_cases hfour : (0xF0 ≤ b && b ≤ 0xF4) = true
  · rw [if_pos hfour] at hread ⊢
    match rest with
    | [] => exact absurd rfl hread
    | [c] => exact absurd rfl hread
    | [c, d] => exact absurd rfl hread
    | c :: d :: e :: rest =>
      dsimp only at hread ⊢
      split at hread
      · rename_i hfollowed
        rw [if_pos hfollowed]
        obtain ⟨hcd, he⟩ := Bool.and_eq_true_iff.mp hfollowed
        obtain ⟨hc, hd⟩ := Bool.and_eq_true_iff.mp hcd
        exact ofChar_four hfour hc hd he
      · exact absurd rfl hread
  · rw [if_neg hfour] at hread
    exact absurd rfl hread

end Glyph

namespace Text

/-- An ASCII byte is written for the ASCII character only. -/
theorem eq_byteChar_of_mem_ofChar {c : Char} {b : UInt8} (hb : b < 0x80) (hmem : b ∈ ofChar c) :
    c = Template.byteChar b := by
  have hlow : b.toNat < 128 := UInt8.lt_iff_toNat_lt.mp hb
  have hchar : Char.ofNat c.val.toNat = c := Char.ofNat_toNat c
  simp only [ofChar, String.utf8EncodeChar] at hmem
  generalize c.val.toNat = v at hmem hchar
  have hhigh : ∀ n, 128 ≤ n → n < 256 → b ≠ UInt8.ofNat n := by
    rintro n hn hlt rfl
    rw [Glyph.toNat_ofNat_of_lt hlt] at hlow
    omega
  split at hmem
  · rename_i hone
    rw [List.mem_singleton.mp hmem, ← hchar, Template.byteChar,
      Glyph.toNat_ofNat_of_lt (by omega)]
  split at hmem
  · simp only [List.mem_cons, List.not_mem_nil, or_false] at hmem
    rcases hmem with hmem | hmem <;> exact absurd hmem (hhigh _ (by omega) (by omega))
  split at hmem
  · simp only [List.mem_cons, List.not_mem_nil, or_false] at hmem
    rcases hmem with hmem | hmem | hmem <;> exact absurd hmem (hhigh _ (by omega) (by omega))
  · simp only [List.mem_cons, List.not_mem_nil, or_false] at hmem
    rcases hmem with hmem | hmem | hmem | hmem <;> exact absurd hmem (hhigh _ (by omega) (by omega))

theorem lt_of_ofChar_eq {c : Char} {b : UInt8} (h : ofChar c = [b]) : b < 0x80 := by
  simp only [ofChar, String.utf8EncodeChar] at h
  split at h
  · rename_i hone
    rw [← (List.cons.inj h).1, UInt8.lt_iff_toNat_lt, Glyph.toNat_ofNat_of_lt (by omega)]
    exact Nat.lt_succ_of_le hone
  · split at h
    · cases h
    · split at h <;> cases h

/-! ### Numbers -/

/-- The value of a hexadecimal digit. -/
def hexDigitValue (b : UInt8) : Nat := if b < 0x3A then b.toNat - 0x30 else b.toNat - 0x57

/-- The number that hexadecimal digits stand for. -/
def hexValue (t : Text) : Nat := t.foldl (fun n b => n * 16 + hexDigitValue b) 0

theorem hexDigit_spec {n : Nat} (hn : n < 16) :
    hexDigitValue (hexDigit n) = n ∧ hexDigit n ≠ 0x0A := by
  have hall : ∀ n < 16, hexDigitValue (hexDigit n) = n ∧ hexDigit n ≠ 0x0A := by decide
  exact hall n hn

theorem length_hexDigits (n width : Nat) : (hexDigits n width).length = width := by
  induction width generalizing n with
  | zero => rfl
  | succ width ih => rw [hexDigits, List.length_append, ih, List.length_singleton]

/-- Digits of sufficient width determine the number. -/
theorem hexValue_hexDigits {n width : Nat} (hn : n < Nat.pow 16 width) :
    hexValue (hexDigits n width) = n := by
  induction width generalizing n with
  | zero =>
    have hzero : n < 1 := hn
    change 0 = n
    omega
  | succ width ih =>
    have hupper : n / 16 < Nat.pow 16 width := by
      apply Nat.div_lt_of_lt_mul
      rw [Nat.mul_comm]
      exact hn
    have hdigit := (hexDigit_spec (Nat.mod_lt n (show 0 < 16 by omega))).1
    have hrest := ih hupper
    rw [hexValue] at hrest
    rw [hexDigits, hexValue, List.foldl_append, hrest, List.foldl_cons, List.foldl_nil, hdigit]
    omega

theorem lineFeed_not_mem_hexDigits (n width : Nat) : 0x0A ∉ hexDigits n width := by
  induction width generalizing n with
  | zero => exact List.not_mem_nil
  | succ width ih =>
    intro hmem
    rw [hexDigits] at hmem
    rcases List.mem_append.mp hmem with hmem | hmem
    · exact ih _ hmem
    · exact (hexDigit_spec (Nat.mod_lt n (show 0 < 16 by omega))).2 (List.mem_singleton.mp hmem).symm

/-! ### Escaped characters -/

/-- The byte that a letter after a backslash stands for; the quote and the backslash stand for
themselves. -/
def letterValue (b : UInt8) : UInt8 :=
  if b = 0x61 then 7 else if b = 0x62 then 8 else if b = 0x66 then 12 else if b = 0x6E then 10
  else if b = 0x72 then 13 else if b = 0x74 then 9 else if b = 0x76 then 11 else b

/-- How many digits follow a letter that announces a number. -/
def digitsAfter (b : UInt8) : Nat := if b = 0x78 then 2 else if b = 0x75 then 4 else 8

/-- Reads one escaped character: the bytes it stands for and what follows it. A quote is none. -/
def readEscape : Text → Option (Text × Text)
  | [] => none
  | b :: rest =>
    if b = 0x22 then none
    else if b = 0x5C then
      match rest with
      | [] => none
      | e :: rest =>
        if e = 0x78 then some ([UInt8.ofNat (hexValue (rest.take 2))], rest.drop 2)
        else if e = 0x75 ∨ e = 0x55 then
          some (ofChar (Char.ofNat (hexValue (rest.take (digitsAfter e)))), rest.drop (digitsAfter e))
        else some ([letterValue e], rest)
    else some ((Glyph.first b rest).bytes, rest.drop ((Glyph.first b rest).bytes.length - 1))

theorem readEscape_byte {n : Nat} (hn : n < 256) (rest : Text) :
    readEscape (ofString "\\x" ++ hexDigits n 2 ++ rest) = some ([UInt8.ofNat n], rest) := by
  have htake : (hexDigits n 2 ++ rest).take 2 = hexDigits n 2 :=
    List.take_left' (length_hexDigits n 2)
  have hdrop : (hexDigits n 2 ++ rest).drop 2 = rest := List.drop_left' (length_hexDigits n 2)
  change some ([UInt8.ofNat (hexValue ((hexDigits n 2 ++ rest).take 2))],
    (hexDigits n 2 ++ rest).drop 2) = _
  rw [htake, hdrop, hexValue_hexDigits hn]

theorem readEscape_number {e : UInt8} (he : e = 0x75 ∨ e = 0x55) {n : Nat}
    (hn : n < Nat.pow 16 (digitsAfter e)) (rest : Text) :
    readEscape (0x5C :: e :: (hexDigits n (digitsAfter e) ++ rest)) =
      some (ofChar (Char.ofNat n), rest) := by
  have hbyte : e ≠ 0x78 := by
    rcases he with rfl | rfl <;> decide
  rw [readEscape, if_neg (by decide), if_pos rfl, if_neg hbyte, if_pos he, List.take_left' (length_hexDigits _ _),
    List.drop_left' (length_hexDigits _ _), hexValue_hexDigits hn]

/-- A character that stands for itself is read back, as it is neither the quote nor the backslash. -/
theorem readEscape_ofChar {c : Char} (hquote : c ≠ '"') (hbackslash : c ≠ '\\') (rest : Text) :
    readEscape (ofChar c ++ rest) = some (ofChar c, rest) := by
  obtain ⟨g, hg, hbytes⟩ := Glyph.exists_isWhole_ofChar c
  obtain ⟨b, tail, hsplit, -, hfirst⟩ := hg.bytes
  have hmem : b ∈ ofChar c := by
    rw [← hbytes, hsplit]
    exact List.mem_cons_self
  have hne : b ≠ 0x22 ∧ b ≠ 0x5C := by
    constructor
    · rintro rfl
      exact hquote (eq_byteChar_of_mem_ofChar (by decide) hmem)
    · rintro rfl
      exact hbackslash (eq_byteChar_of_mem_ofChar (by decide) hmem)
  rw [← hbytes, hsplit, List.cons_append, readEscape.eq_def]
  dsimp only
  rw [if_neg hne.1, if_neg hne.2, hfirst, hsplit, List.length_cons, Nat.add_sub_cancel,
    List.drop_left]

/-- The ways in which a character is written between double quotes. -/
inductive Escaped (c : Char) : Text → Prop
  | itself (hquote : c ≠ '"') (hbackslash : c ≠ '\\') (hprintable : isPrintable c = true) :
      Escaped c (ofChar c)
  | letter (e : UInt8) (he : e ≠ 0x78 ∧ e ≠ 0x75 ∧ e ≠ 0x55 ∧ e ≠ 0x0A)
      (hbytes : ofChar c = [letterValue e]) : Escaped c [0x5C, e]
  | byte (hcode : c.toNat < 0x80) : Escaped c (ofString "\\x" ++ hexDigits c.toNat 2)
  | short (hcode : c.toNat < 0x10000) : Escaped c (ofString "\\u" ++ hexDigits c.toNat 4)
  | long : Escaped c (ofString "\\U" ++ hexDigits c.toNat 8)

theorem escaped_escapeChar (c : Char) : Escaped c (escapeChar '"' c) := by
  have hcode : ∀ {n}, c.toNat = n → c = Char.ofNat n := by
    rintro n rfl
    exact (Char.ofNat_toNat c).symm
  by_cases hmark : (c == '"' || c == '\\') = true
  · rw [escapeChar, if_pos hmark]
    rcases Bool.or_eq_true_iff.mp hmark with hquote | hbackslash
    · rw [beq_iff_eq.mp hquote]
      exact .letter 0x22 (by decide) rfl
    · rw [beq_iff_eq.mp hbackslash]
      exact .letter 0x5C (by decide) rfl
  rw [escapeChar, if_neg hmark]
  simp only [Bool.or_eq_true, beq_iff_eq, not_or] at hmark
  by_cases hprintable : isPrintable c = true
  · rw [if_pos hprintable]
    exact .itself hmark.1 hmark.2 hprintable
  rw [if_neg hprintable]
  by_cases hbell : c.toNat = 7
  · rw [if_pos hbell, hcode hbell]
    exact .letter 0x61 (by decide) rfl
  rw [if_neg hbell]
  by_cases hbackspace : c.toNat = 8
  · rw [if_pos hbackspace, hcode hbackspace]
    exact .letter 0x62 (by decide) rfl
  rw [if_neg hbackspace]
  by_cases hfeed : c.toNat = 12
  · rw [if_pos hfeed, hcode hfeed]
    exact .letter 0x66 (by decide) rfl
  rw [if_neg hfeed]
  by_cases hline : c.toNat = 10
  · rw [if_pos hline, hcode hline]
    exact .letter 0x6E (by decide) rfl
  rw [if_neg hline]
  by_cases hreturn : c.toNat = 13
  · rw [if_pos hreturn, hcode hreturn]
    exact .letter 0x72 (by decide) rfl
  rw [if_neg hreturn]
  by_cases htab : c.toNat = 9
  · rw [if_pos htab, hcode htab]
    exact .letter 0x74 (by decide) rfl
  rw [if_neg htab]
  by_cases hvertical : c.toNat = 11
  · rw [if_pos hvertical, hcode hvertical]
    exact .letter 0x76 (by decide) rfl
  rw [if_neg hvertical]
  by_cases hcontrol : (c.toNat < 32 || c.toNat == 0x7F) = true
  · rw [if_pos hcontrol]
    simp only [Bool.or_eq_true, decide_eq_true_eq, beq_iff_eq] at hcontrol
    exact .byte (by omega)
  rw [if_neg hcontrol]
  by_cases hshort : c.toNat < 0x10000
  · rw [if_pos hshort]
    exact .short hshort
  · rw [if_neg hshort]
    exact .long

theorem readEscape_escaped {c : Char} {t : Text} (ht : Escaped c t) (rest : Text) :
    readEscape (t ++ rest) = some (ofChar c, rest) := by
  cases ht with
  | itself hquote hbackslash hprintable => exact readEscape_ofChar hquote hbackslash rest
  | letter e he hbytes =>
    change (if e = 0x78 then _ else if e = 0x75 ∨ e = 0x55 then _ else _) = _
    rw [if_neg he.1, if_neg (by simp [he.2.1, he.2.2.1]), hbytes]
    rfl
  | byte hcode =>
    have hbytes : ofChar c = [UInt8.ofNat c.toNat] := by
      rw [ofChar, String.utf8EncodeChar]
      exact if_pos (Nat.le_of_lt_succ hcode)
    rw [readEscape_byte (by omega), hbytes]
  | short hcode =>
    have hread := @readEscape_number 0x75 (.inl rfl) c.toNat hcode rest
    rw [Char.ofNat_toNat] at hread
    exact hread
  | long =>
    have hcode : c.toNat < 0x110000 := by
      have hvalid : c.val.toNat < 0xD800 ∨ 0xDFFF < c.val.toNat ∧ c.val.toNat < 0x110000 := c.valid
      change c.val.toNat < _
      omega
    have hread := @readEscape_number 0x55 (.inr rfl) c.toNat (Nat.lt_trans hcode (by decide)) rest
    rw [Char.ofNat_toNat] at hread
    exact hread

theorem lineFeed_not_mem_escaped {c : Char} {t : Text} (ht : Escaped c t) : 0x0A ∉ t := by
  have hnumber : ∀ {mark : String} {n width : Nat}, 0x0A ∉ ofString mark →
      0x0A ∉ ofString mark ++ hexDigits n width := by
    intro mark n width hmark hmem
    rcases List.mem_append.mp hmem with hmem | hmem
    · exact hmark hmem
    · exact lineFeed_not_mem_hexDigits n width hmem
  cases ht with
  | itself _ _ hprintable =>
    intro hmem
    rw [eq_byteChar_of_mem_ofChar (by decide) hmem] at hprintable
    exact absurd hprintable (by decide)
  | letter e he =>
    intro hmem
    simp only [List.mem_cons, List.not_mem_nil, or_false] at hmem
    rcases hmem with hmem | hmem
    · exact absurd hmem (by decide)
    · exact he.2.2.2 hmem.symm
  | byte => exact hnumber (by decide)
  | short => exact hnumber (by decide)
  | long => exact hnumber (by decide)

/-- An escaped character gives back the bytes it was read from, a stray byte included. -/
theorem readEscape_escapeGlyph {g : Glyph} (hg : g.IsRead) (rest : Text) :
    readEscape (escapeGlyph g ++ rest) = some (g.bytes, rest) := by
  by_cases hwhole : g.IsWhole
  · have hescape : escapeGlyph g = escapeChar '"' g.char := by
      rw [escapeGlyph]
      split
      · rename_i b hbytes
        exact if_pos (lt_of_ofChar_eq (hwhole.ofChar_char.trans hbytes))
      · rfl
    rw [hescape, readEscape_escaped (escaped_escapeChar g.char), hwhole.ofChar_char]
  · obtain ⟨b, after, rfl⟩ := hg
    have hstray : Glyph.first b after = Glyph.stray b := by
      apply Classical.byContradiction
      intro hread
      exact hwhole ⟨b, after, rfl, hread⟩
    have hhigh : ¬ b < 0x80 := by
      intro hlow
      apply hwhole
      rw [Glyph.first_of_lt hlow]
      exact Glyph.isWhole_ascii hlow
    have hescape : escapeGlyph (Glyph.first b after) = ofString "\\x" ++ hexDigits b.toNat 2 := by
      rw [hstray]
      exact if_neg hhigh
    rw [hescape, readEscape_byte b.toNat_lt, hstray, UInt8.ofNat_toNat]
    rfl

theorem lineFeed_not_mem_escapeGlyph (g : Glyph) : 0x0A ∉ escapeGlyph g := by
  rw [escapeGlyph]
  split
  · split
    · exact lineFeed_not_mem_escaped (escaped_escapeChar g.char)
    · intro hmem
      rcases List.mem_append.mp hmem with hmem | hmem
      · exact absurd hmem (by decide)
      · exact lineFeed_not_mem_hexDigits _ _ hmem
  · exact lineFeed_not_mem_escaped (escaped_escapeChar g.char)

/-! ### Quoted texts -/

/-- Escaped characters up to a quote determine the characters and what follows the quote. -/
theorem escapeGlyphs_append_inj {gs hs : List Glyph} (hgs : ∀ g ∈ gs, g.IsRead)
    (hhs : ∀ h ∈ hs, h.IsRead) {s t : Text}
    (heq : gs.flatMap escapeGlyph ++ 0x22 :: s = hs.flatMap escapeGlyph ++ 0x22 :: t) :
    ofGlyphs gs = ofGlyphs hs ∧ s = t := by
  have hend : ∀ t, readEscape (0x22 :: t) = none := fun t => rfl
  induction gs generalizing hs with
  | nil =>
    cases hs with
    | nil => exact ⟨rfl, (List.cons.inj heq).2⟩
    | cons h hs =>
      have hread := congrArg readEscape heq
      rw [List.flatMap_cons, List.append_assoc, readEscape_escapeGlyph (hhs h List.mem_cons_self)]
        at hread
      exact absurd hread (by simp [hend])
  | cons g gs ih =>
    have hread := congrArg readEscape heq
    rw [List.flatMap_cons, List.append_assoc, readEscape_escapeGlyph (hgs g List.mem_cons_self)]
      at hread
    cases hs with
    | nil => exact absurd hread (by simp [hend])
    | cons h hs =>
      rw [List.flatMap_cons, List.append_assoc, readEscape_escapeGlyph (hhs h List.mem_cons_self)]
        at hread
      obtain ⟨hbytes, hlater⟩ := Prod.mk.inj (Option.some.inj hread)
      obtain ⟨hrest, hst⟩ := ih (fun g' hg' => hgs g' (List.mem_cons_of_mem g hg'))
        (fun h' hh' => hhs h' (List.mem_cons_of_mem h hh')) hlater
      refine ⟨?_, hst⟩
      change g.bytes ++ ofGlyphs gs = h.bytes ++ ofGlyphs hs
      rw [hbytes, hrest]

/-- A quoted text determines the text and where it ends. -/
theorem quoted_append_inj {u v s t : Text} (heq : u.quoted ++ s = v.quoted ++ t) : u = v ∧ s = t := by
  have hread : ∀ w : Text, ∀ g ∈ glyphs w, g.IsRead := fun w g hg => isRead_of_mem_glyphs hg
  simp only [quoted, List.append_assoc, List.singleton_append] at heq
  obtain ⟨huv, hst⟩ := escapeGlyphs_append_inj (hread u) (hread v) (List.cons.inj heq).2
  rw [ofGlyphs_glyphs, ofGlyphs_glyphs] at huv
  exact ⟨huv, hst⟩

theorem lineFeed_not_mem_quoted (t : Text) : 0x0A ∉ t.quoted := by
  intro hmem
  simp only [quoted, List.mem_append, List.mem_singleton, List.mem_flatMap] at hmem
  rcases hmem with (hmem | ⟨g, -, hmem⟩) | hmem
  · exact absurd hmem (by decide)
  · exact lineFeed_not_mem_escapeGlyph g hmem
  · exact absurd hmem (by decide)

end Text

end Stencil
