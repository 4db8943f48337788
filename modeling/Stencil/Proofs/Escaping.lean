import Stencil.Markup.Scan
import Stencil.Proofs.Glyphs
import Stencil.Proofs.Printing

/-!
# Escaped texts

An escaped text holds none of the characters that end a text or a quoted value, and reading its
references gives back the text it was made from, byte for byte.
-/

namespace Stencil.Template

open Markup

/-- The seven special bytes, one by one. -/
theorem isSpecialByte_cases {b : UInt8} (hb : isSpecialByte b = true) :
    b = 0x0D ∨ b = 0x22 ∨ b = 0x26 ∨ b = 0x3C ∨ b = 0x40 ∨ b = 0x7B ∨ b = 0x7D := by
  simpa [isSpecialByte] using hb

theorem escapeByte_special {b : UInt8} (hb : isSpecialByte b = true) :
    escapeByte b = "&#" ++ Text.ofNat b.toNat ++ ";" := by
  rw [escapeByte, if_pos hb]

theorem escapeByte_plain {b : UInt8} (hb : isSpecialByte b = false) : escapeByte b = [b] := by
  rw [escapeByte, hb, if_neg (by decide)]

/-- A number sign, decimal digits and a semicolon are read as the character of that number. -/
theorem expand_decimal {digits : Text} (hne : digits ≠ [])
    (hdigits : ∀ d ∈ digits, (Reference.decimalDigit? d).isSome = true) (rest : Text) :
    Reference.expand (0x23 :: (digits ++ 0x3B :: rest)) =
      (Text.ofChar (Reference.charOfNumber (Reference.numberOf 10 Reference.decimalDigit? digits)),
        digits.length + 2) := by
  obtain ⟨d, digits, rfl⟩ := List.exists_cons_of_ne_nil hne
  have hletter : ∀ b, (Reference.decimalDigit? b).isSome = false → d ≠ b := by
    rintro b hb rfl
    rw [hdigits d (by simp)] at hb
    cases hb
  have hdecimal : ((d :: digits ++ 0x3B :: rest).head? == some 0x78 ||
      (d :: digits ++ 0x3B :: rest).head? == some 0x58) = false := by
    simp [hletter 0x78 (by decide), hletter 0x58 (by decide)]
  have htake : (d :: digits ++ 0x3B :: rest).takeWhile
      (fun b => (Reference.decimalDigit? b).isSome) = d :: digits := by
    rw [List.takeWhile_append_of_pos hdigits, List.takeWhile_cons_of_neg (by decide),
      List.append_nil]
  rw [Reference.expand]
  simp only [hdecimal, Bool.false_eq_true, if_false, htake, List.drop_left]
  have hclosed : (((0x3B : UInt8) :: rest).head? == some 0x3B) = true := rfl
  have hsize : 1 + 0 + (d :: digits).length + 1 = (d :: digits).length + 2 := by omega
  rw [if_pos hclosed, hsize, if_neg]
  simp

/-- The reference of a special byte is an ampersand, a number sign, its digits and a semicolon. -/
theorem escapeByte_digits {b : UInt8} (hb : isSpecialByte b = true) :
    ∃ digits : Text, escapeByte b = 0x26 :: 0x23 :: (digits ++ [0x3B]) ∧ digits ≠ [] ∧
      (∀ d ∈ digits, (Reference.decimalDigit? d).isSome = true) ∧
      Text.ofChar (Reference.charOfNumber (Reference.numberOf 10 Reference.decimalDigit? digits)) =
        [b] := by
  rw [escapeByte_special hb]
  refine ⟨Text.ofNat b.toNat, rfl, ?_, List.all_eq_true.mp ?_, ?_⟩ <;>
    rcases isSpecialByte_cases hb with rfl | rfl | rfl | rfl | rfl | rfl | rfl <;> decide


private theorem decodeAfter_append (t rest : Text) :
    Reference.decodeAfter t.length (t ++ rest) = Reference.decodeAfter 0 rest := by
  induction t with
  | nil => rfl
  | cons b t ih => exact ih

private theorem decodeAfter_escapeByte (b : UInt8) (rest : Text) :
    Reference.decodeAfter 0 (escapeByte b ++ rest) = b :: Reference.decodeAfter 0 rest := by
  cases hb : isSpecialByte b with
  | true =>
    obtain ⟨digits, hescape, hne, hdigits, hchar⟩ := escapeByte_digits hb
    have hsource : 0x23 :: (digits ++ [0x3B]) ++ rest = 0x23 :: (digits ++ 0x3B :: rest) := by simp
    have hexpand := expand_decimal hne hdigits rest
    rw [hchar, ← hsource] at hexpand
    have hlength : digits.length + 2 = (0x23 :: (digits ++ [0x3B])).length := by simp
    rw [hescape, List.cons_append, Reference.decodeAfter, if_pos rfl, hexpand]
    dsimp only
    rw [hlength, decodeAfter_append]
    rfl
  | false =>
    have hne : b ≠ 0x26 := by
      rintro rfl
      exact absurd hb (by decide)
    rw [escapeByte_plain hb, List.cons_append, List.nil_append, Reference.decodeAfter, if_neg hne]

/-- Reading the references of an escaped text gives the text. -/
theorem decode_escape (t : Text) : Reference.decode (escape t) = t := by
  rw [Reference.decode, escape]
  induction t with
  | nil => rfl
  | cons b t ih => rw [List.flatMap_cons, decodeAfter_escapeByte, ih]

/-- Of the special bytes only the ampersand is left in an escaped text. -/
theorem eq_of_mem_escape {t : Text} {b : UInt8} (hb : b ∈ escape t)
    (hspecial : isSpecialByte b = true) : b = 0x26 := by
  obtain ⟨c, _, hc⟩ := List.mem_flatMap.mp hb
  cases hkind : isSpecialByte c with
  | false =>
    rw [escapeByte_plain hkind, List.mem_singleton] at hc
    rw [hc, hkind] at hspecial
    cases hspecial
  | true =>
    have hreference : (escapeByte c).all (fun x => !isSpecialByte x || x == 0x26) = true := by
      rcases isSpecialByte_cases hkind with rfl | rfl | rfl | rfl | rfl | rfl | rfl <;> decide
    simpa [hspecial] using List.all_eq_true.mp hreference b hc

theorem byteChar_toNat (b : UInt8) : (byteChar b).toNat = b.toNat :=
  Glyph.toNat_charOfNat (.inl (by have := b.toNat_lt; omega))

theorem byteChar_injective {b c : UInt8} (h : byteChar b = byteChar c) : b = c := by
  have hnat := congrArg Char.toNat h
  rw [byteChar_toNat, byteChar_toNat] at hnat
  exact UInt8.toNat_inj.mp hnat

/-- The characters of an escaped text are none of the special ones but the ampersand. -/
theorem char_ne_of_mem_escape {t : Text} {g : Glyph} (hg : g ∈ (escape t).glyphs) {b : UInt8}
    (hspecial : isSpecialByte b = true) (hb : b ≠ 0x26) : g.char ≠ byteChar b := by
  intro hchar
  have hlow : b.toNat < 0x80 := by
    rcases isSpecialByte_cases hspecial with rfl | rfl | rfl | rfl | rfl | rfl | rfl <;> decide
  have hascii : g.char.toNat < 0x80 := by rw [hchar, byteChar_toNat]; exact hlow
  obtain ⟨c, hc, rfl⟩ := Text.ascii_of_mem_glyphs hg hascii
  obtain rfl : c = b := byteChar_injective hchar
  exact hb (eq_of_mem_escape hc hspecial)

theorem normalizeLineEndings_of_not_mem {t : Text} (ht : 0x0D ∉ t) :
    t.normalizeLineEndings = t := by
  induction t with
  | nil => rfl
  | cons b t ih =>
    have hb : b ≠ 0x0D := fun h => ht (by simp [h])
    have hrest : 0x0D ∉ t := fun h => ht (by simp [h])
    rw [Text.normalizeLineEndings, ih hrest]
    · rintro rest rfl
      exact absurd rfl hb
    · rintro rfl
      exact absurd rfl hb

/-- An escaped text is read as the text it was made from, however line endings are treated. -/
theorem decoded_escape (options : ScanOptions) (t : Text) :
    Scan.decoded options (escape t) = t := by
  have hcr : 0x0D ∉ escape t := fun h => absurd (eq_of_mem_escape h (by decide)) (by decide)
  rw [Scan.decoded, Scan.lineEndings]
  split
  · exact decode_escape t
  · rw [normalizeLineEndings_of_not_mem hcr, decode_escape]

theorem escape_ne_nil {t : Text} (ht : t ≠ []) : escape t ≠ [] := by
  intro hescape
  have hdecode := decode_escape t
  rw [hescape] at hdecode
  exact ht hdecode.symm

end Stencil.Template
