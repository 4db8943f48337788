import Stencil.Text.Class

/-!
# Characters and bytes

How the characters of a text follow from its bytes. What the scanner needs is this: the bytes of the
characters are the bytes of the text, an ASCII byte is a character of its own wherever it stands, and an
ASCII character comes from nothing else. So a text can be cut in front of and behind any ASCII byte, and
a byte that does not occur cannot turn up as a character.
-/

namespace Stencil

namespace Glyph

/-- The character of an ASCII byte. -/
def ascii (b : UInt8) : Glyph := ⟨Char.ofNat b.toNat, [b]⟩

theorem first_of_lt {b : UInt8} (hb : b < 0x80) (rest : Text) : first b rest = ascii b := by
  unfold first
  rw [if_pos hb, ascii]

theorem le_secondByteRange (b : UInt8) : 0x80 ≤ (secondByteRange b).1 := by
  unfold secondByteRange
  split
  · decide
  · split
    · decide
    · split
      · decide
      · split <;> decide

theorem not_followedBy_of_lt (b : UInt8) {c : UInt8} (hc : c < 0x80) : followedBy b c = false := by
  have hrange : ¬ (secondByteRange b).1 ≤ c := by
    have hlow := le_secondByteRange b
    rw [UInt8.le_iff_toNat_le] at hlow ⊢
    rw [UInt8.lt_iff_toNat_lt] at hc
    omega
  simp [followedBy, hrange]

theorem not_isContinuation_of_lt {c : UInt8} (hc : c < 0x80) : isContinuation c = false := by
  have hrange : ¬ 0x80 ≤ c := by
    rw [UInt8.le_iff_toNat_le]
    rw [UInt8.lt_iff_toNat_lt] at hc
    omega
  simp [isContinuation, hrange]

/-- The bytes of a character are the next bytes of the text. -/
theorem bytes_first (b : UInt8) (rest : Text) :
    (first b rest).bytes = b :: rest.take ((first b rest).bytes.length - 1) := by
  unfold first
  split
  · rfl
  · split
    · cases rest with
      | nil => rfl
      | cons c rest => dsimp only; split <;> rfl
    · split
      · match rest with
        | [] => rfl
        | [c] => rfl
        | c :: d :: rest => dsimp only; split <;> rfl
      · split
        · match rest with
          | [] => rfl
          | [c] => rfl
          | [c, d] => rfl
          | c :: d :: e :: rest => dsimp only; split <;> rfl
        · rfl

theorem length_bytes_first (b : UInt8) (rest : Text) :
    (first b rest).bytes.length - 1 ≤ rest.length := by
  have hbytes := congrArg List.length (bytes_first b rest)
  rw [List.length_cons, List.length_take] at hbytes
  omega

/-- What is read does not reach beyond bytes that cannot continue a sequence. -/
theorem first_append (b : UInt8) (rest more : Text) (hmore : ∀ c ∈ more.head?, c < 0x80) :
    first b (rest ++ more) = first b rest := by
  cases more with
  | nil => rw [List.append_nil]
  | cons x more =>
    have hx : x < 0x80 := hmore x rfl
    have hfollow : ∀ c, followedBy c x = false := fun c => not_followedBy_of_lt c hx
    have hcontinue : isContinuation x = false := not_isContinuation_of_lt hx
    unfold first
    split
    · rfl
    · split
      · cases rest with
        | nil => simp [hfollow]
        | cons c rest => rfl
      · split
        · match rest with
          | [] => cases more <;> simp [hfollow]
          | [c] => simp [hcontinue]
          | c :: d :: rest => rfl
        · split
          · match rest with
            | [] =>
              match more with
              | [] => rfl
              | [y] => rfl
              | y :: z :: more => simp [hfollow]
            | [c] => cases more <;> simp [hcontinue]
            | [c, d] => simp [hcontinue]
            | c :: d :: e :: rest => rfl
          · rfl

/-- A sequence that was too long to be read was no sequence. -/
private theorem ite_eq_stray {p : Bool} {g : Glyph} {b : UInt8} {n : Nat}
    (htaken : (if p then g else stray b).bytes.length ≤ n) (hlong : n < g.bytes.length) :
    (if p then g else stray b) = stray b := by
  cases p with
  | true =>
    rw [if_pos rfl] at htaken
    omega
  | false => rfl

/-- What is read does not depend on the bytes behind it. -/
theorem first_append_of_le (b : UInt8) (rest more : Text)
    (htaken : (first b (rest ++ more)).bytes.length ≤ rest.length + 1) :
    first b (rest ++ more) = first b rest := by
  unfold first at htaken ⊢
  by_cases hone : b < 0x80
  · rw [if_pos hone, if_pos hone]
  rw [if_neg hone] at htaken
  rw [if_neg hone, if_neg hone]
  by_cases htwo : (0xC2 ≤ b && b ≤ 0xDF) = true
  · rw [if_pos htwo] at htaken
    rw [if_pos htwo, if_pos htwo]
    match rest, more with
    | [], [] => rfl
    | [], x :: more => exact ite_eq_stray htaken (by simp)
    | c :: rest, more => rfl
  rw [if_neg htwo] at htaken
  rw [if_neg htwo, if_neg htwo]
  by_cases hthree : (0xE0 ≤ b && b ≤ 0xEF) = true
  · rw [if_pos hthree] at htaken
    rw [if_pos hthree, if_pos hthree]
    match rest, more with
    | [], [] => rfl
    | [], [x] => rfl
    | [], x :: y :: more => exact ite_eq_stray htaken (by simp)
    | [c], [] => rfl
    | [c], x :: more => exact ite_eq_stray htaken (by simp)
    | c :: d :: rest, more => rfl
  rw [if_neg hthree] at htaken
  rw [if_neg hthree, if_neg hthree]
  by_cases hfour : (0xF0 ≤ b && b ≤ 0xF4) = true
  · rw [if_pos hfour] at htaken
    rw [if_pos hfour, if_pos hfour]
    match rest, more with
    | [], [] => rfl
    | [], [x] => rfl
    | [], [x, y] => rfl
    | [], x :: y :: z :: more => exact ite_eq_stray htaken (by simp)
    | [c], [] => rfl
    | [c], [x] => rfl
    | [c], x :: y :: more => exact ite_eq_stray htaken (by simp)
    | [c, d], [] => rfl
    | [c, d], x :: more => exact ite_eq_stray htaken (by simp)
    | c :: d :: e :: rest, more => rfl
  · rw [if_neg hfour, if_neg hfour]

/-- A character that was read is read the same way whatever stands behind it. -/
theorem first_append_of_ne_stray {b : UInt8} {rest : Text} (hread : first b rest ≠ stray b)
    (more : Text) : first b (rest ++ more) = first b rest := by
  unfold first at hread ⊢
  by_cases hone : b < 0x80
  · rw [if_pos hone, if_pos hone]
  rw [if_neg hone] at hread
  rw [if_neg hone, if_neg hone]
  by_cases htwo : (0xC2 ≤ b && b ≤ 0xDF) = true
  · rw [if_pos htwo] at hread
    rw [if_pos htwo, if_pos htwo]
    match rest with
    | [] => exact absurd rfl hread
    | c :: rest => rfl
  rw [if_neg htwo] at hread
  rw [if_neg htwo, if_neg htwo]
  by_cases hthree : (0xE0 ≤ b && b ≤ 0xEF) = true
  · rw [if_pos hthree] at hread
    rw [if_pos hthree, if_pos hthree]
    match rest with
    | [] => exact absurd rfl hread
    | [c] => exact absurd rfl hread
    | c :: d :: rest => rfl
  rw [if_neg hthree] at hread
  rw [if_neg hthree, if_neg hthree]
  by_cases hfour : (0xF0 ≤ b && b ≤ 0xF4) = true
  · rw [if_pos hfour] at hread
    rw [if_pos hfour, if_pos hfour]
    match rest with
    | [] => exact absurd rfl hread
    | [c] => exact absurd rfl hread
    | [c, d] => exact absurd rfl hread
    | c :: d :: e :: rest => rfl
  · rw [if_neg hfour, if_neg hfour]

/-! ### Characters of longer sequences -/

theorem toNat_charOfNat {n : Nat} (hn : n.isValidChar) : (Char.ofNat n).toNat = n := by
  rw [Char.ofNat, dif_pos hn]
  rfl

/-- What the bounds on the second byte amount to. -/
theorem followedBy_bounds {b c : UInt8} (h : followedBy b c = true) :
    128 ≤ c.toNat ∧ c.toNat ≤ 191 ∧ (b.toNat = 0xE0 → 160 ≤ c.toNat) ∧
      (b.toNat = 0xED → c.toNat ≤ 159) ∧ (b.toNat = 0xF0 → 144 ≤ c.toNat) ∧
      (b.toNat = 0xF4 → c.toNat ≤ 143) := by
  simp only [followedBy, secondByteRange, Bool.and_eq_true, decide_eq_true_eq,
    UInt8.le_iff_toNat_le] at h
  by_cases hE0 : b = 0xE0
  · subst hE0
    simp at h ⊢
    omega
  · by_cases hED : b = 0xED
    · subst hED
      simp at h ⊢
      omega
    · by_cases hF0 : b = 0xF0
      · subst hF0
        simp at h ⊢
        omega
      · by_cases hF4 : b = 0xF4
        · subst hF4
          simp at h ⊢
          omega
        · simp only [hE0, hED, hF0, hF4, if_false] at h
          simp only [← UInt8.toNat_inj] at hE0 hED hF0 hF4
          simp at h hE0 hED hF0 hF4 ⊢
          omega

theorem payload_lt (b : UInt8) : payload b < 64 := Nat.mod_lt _ (by decide)

private theorem le_char_two {b : UInt8} (c : UInt8) (hb : (0xC2 ≤ b && b ≤ 0xDF) = true) :
    0x80 ≤ (Char.ofNat (b.toNat % 32 * 64 + payload c)).toNat := by
  simp only [Bool.and_eq_true, decide_eq_true_eq, UInt8.le_iff_toNat_le, UInt8.reduceToNat] at hb
  have hc := payload_lt c
  rw [toNat_charOfNat (.inl (by omega))]
  omega

private theorem le_char_three {b c : UInt8} (d : UInt8) (hb : (0xE0 ≤ b && b ≤ 0xEF) = true)
    (hfollowed : followedBy b c = true) :
    0x80 ≤ (Char.ofNat (b.toNat % 16 * 4096 + payload c * 64 + payload d)).toNat := by
  simp only [Bool.and_eq_true, decide_eq_true_eq, UInt8.le_iff_toNat_le, UInt8.reduceToNat] at hb
  have hc := followedBy_bounds hfollowed
  have hpayload : payload c = c.toNat - 128 := by
    unfold payload
    omega
  have hd := payload_lt d
  -- The surrogates would follow `ED`, whose second byte is bounded for that reason.
  have hvalid : (b.toNat % 16 * 4096 + payload c * 64 + payload d).isValidChar := by
    unfold Nat.isValidChar
    omega
  rw [toNat_charOfNat hvalid]
  omega

private theorem le_char_four {b c : UInt8} (d e : UInt8) (hb : (0xF0 ≤ b && b ≤ 0xF4) = true)
    (hfollowed : followedBy b c = true) :
    0x80 ≤ (Char.ofNat (b.toNat % 8 * 262144 + payload c * 4096 + payload d * 64 +
      payload e)).toNat := by
  simp only [Bool.and_eq_true, decide_eq_true_eq, UInt8.le_iff_toNat_le, UInt8.reduceToNat] at hb
  have hc := followedBy_bounds hfollowed
  have hpayload : payload c = c.toNat - 128 := by
    unfold payload
    omega
  have hd := payload_lt d
  have he := payload_lt e
  have hvalid : (b.toNat % 8 * 262144 + payload c * 4096 + payload d * 64 +
      payload e).isValidChar := by
    unfold Nat.isValidChar
    omega
  rw [toNat_charOfNat hvalid]
  omega

theorem le_char_stray (b : UInt8) : 0x80 ≤ (stray b).char.toNat := by
  change 0x80 ≤ '�'.toNat
  decide

/-- No other byte begins an ASCII character. -/
theorem le_char_first {b : UInt8} (hb : ¬ b < 0x80) (rest : Text) :
    0x80 ≤ (first b rest).char.toNat := by
  unfold first
  rw [if_neg hb]
  split
  · rename_i htwo
    cases rest with
    | nil => exact le_char_stray b
    | cons c rest =>
      dsimp only
      split
      · exact le_char_two c htwo
      · exact le_char_stray b
  · split
    · rename_i hthree
      match rest with
      | [] => exact le_char_stray b
      | [c] => exact le_char_stray b
      | c :: d :: rest =>
        dsimp only
        split
        · rename_i hfollowed
          exact le_char_three d hthree (Bool.and_eq_true_iff.mp hfollowed).1
        · exact le_char_stray b
    · split
      · rename_i hfour
        match rest with
        | [] => exact le_char_stray b
        | [c] => exact le_char_stray b
        | [c, d] => exact le_char_stray b
        | c :: d :: e :: rest =>
          dsimp only
          split
          · rename_i hfollowed
            rw [Bool.and_assoc] at hfollowed
            exact le_char_four d e hfour (Bool.and_eq_true_iff.mp hfollowed).1
          · exact le_char_stray b
      · exact le_char_stray b

/-! ### The bytes of a character -/

theorem isContinuation_of_followedBy {b c : UInt8} (h : followedBy b c = true) :
    isContinuation c = true := by
  obtain ⟨hlow, hhigh, _⟩ := followedBy_bounds h
  simp only [isContinuation, Bool.and_eq_true, decide_eq_true_eq, UInt8.le_iff_toNat_le]
  exact ⟨hlow, hhigh⟩

/-- Behind the first byte of a character stand bytes that continue it. -/
theorem isContinuation_of_mem_tail {b : UInt8} {rest : Text} {c : UInt8}
    (hc : c ∈ (first b rest).bytes.tail) : isContinuation c = true := by
  unfold first at hc
  split at hc
  · cases hc
  · split at hc
    · match rest with
      | [] => cases hc
      | d :: rest =>
        dsimp only at hc
        split at hc
        · rename_i hfollowed
          rw [List.mem_singleton.mp hc]
          exact isContinuation_of_followedBy hfollowed
        · cases hc
    · split at hc
      · match rest with
        | [] => cases hc
        | [d] => cases hc
        | d :: e :: rest =>
          dsimp only at hc
          split at hc
          · rename_i hfollowed
            obtain ⟨hd, he⟩ := Bool.and_eq_true_iff.mp hfollowed
            rcases List.mem_cons.mp hc with rfl | hc
            · exact isContinuation_of_followedBy hd
            · rwa [List.mem_singleton.mp hc]
          · cases hc
      · split at hc
        · match rest with
          | [] => cases hc
          | [d] => cases hc
          | [d, e] => cases hc
          | d :: e :: f :: rest =>
            dsimp only at hc
            split at hc
            · rename_i hfollowed
              obtain ⟨hde, hf⟩ := Bool.and_eq_true_iff.mp hfollowed
              obtain ⟨hd, he⟩ := Bool.and_eq_true_iff.mp hde
              rcases List.mem_cons.mp hc with rfl | hc
              · exact isContinuation_of_followedBy hd
              · rcases List.mem_cons.mp hc with rfl | hc
                · exact he
                · rwa [List.mem_singleton.mp hc]
            · cases hc
        · cases hc

/-- A byte that continues a character begins none. -/
theorem first_of_isContinuation {b : UInt8} (hb : isContinuation b = true) (rest : Text) :
    first b rest = stray b := by
  simp only [isContinuation, Bool.and_eq_true, decide_eq_true_eq, UInt8.le_iff_toNat_le,
    UInt8.reduceToNat] at hb
  unfold first
  rw [if_neg (by rw [UInt8.lt_iff_toNat_lt]; simp; omega)]
  rw [if_neg (by simp [UInt8.le_iff_toNat_le]; omega)]
  rw [if_neg (by simp [UInt8.le_iff_toNat_le]; omega)]
  rw [if_neg (by simp [UInt8.le_iff_toNat_le]; omega)]

theorem first_split (b : UInt8) (rest : Text) :
    ∃ tail after, (first b rest).bytes = b :: tail ∧ rest = tail ++ after ∧
      ∀ c ∈ tail, isContinuation c = true := by
  refine ⟨_, _, bytes_first b rest, (List.take_append_drop _ rest).symm, ?_⟩
  intro c hc
  have htail := @isContinuation_of_mem_tail b rest c
  rw [bytes_first] at htail
  exact htail hc

/-- A character as reading gives it. -/
def IsRead (g : Glyph) : Prop := ∃ b rest, g = first b rest

/-- A character as reading gives it, and no stray byte. -/
def IsWhole (g : Glyph) : Prop := ∃ b rest, g = first b rest ∧ g ≠ stray b

theorem IsRead.isWhole {g : Glyph} (hg : g.IsRead) (hchar : g.char ≠ '�') : g.IsWhole := by
  obtain ⟨b, rest, hfirst⟩ := hg
  refine ⟨b, rest, hfirst, ?_⟩
  rintro rfl
  exact hchar rfl

/-- The bytes of a character make it whatever stands behind them. -/
theorem IsWhole.bytes {g : Glyph} (hg : g.IsWhole) :
    ∃ b tail, g.bytes = b :: tail ∧ (∀ c ∈ tail, isContinuation c = true) ∧
      ∀ more, first b (tail ++ more) = g := by
  obtain ⟨b, rest, rfl, hread⟩ := hg
  obtain ⟨tail, after, hbytes, rfl, htail⟩ := first_split b rest
  have hown : first b (tail ++ after) = first b tail := by
    apply first_append_of_le
    exact Nat.le_of_eq (congrArg List.length hbytes)
  refine ⟨b, tail, hbytes, htail, ?_⟩
  intro more
  rw [hown] at hread ⊢
  exact first_append_of_ne_stray hread more

end Glyph

namespace Text

/-! ### Texts -/

theorem glyphs_cons_ascii {b : UInt8} (hb : b < 0x80) (rest : Text) :
    glyphs (b :: rest) = Glyph.ascii b :: glyphs rest := by
  simp [glyphs, glyphsAfter, Glyph.first_of_lt hb, Glyph.ascii]

/-- A text of ASCII bytes. -/
def IsAscii (t : Text) : Prop := ∀ b ∈ t, b < 0x80

instance (t : Text) : Decidable (IsAscii t) := List.decidableBAll (· < 0x80) t

theorem glyphs_ascii_append {t : Text} (ht : IsAscii t) (rest : Text) :
    glyphs (t ++ rest) = t.map Glyph.ascii ++ glyphs rest := by
  induction t with
  | nil => rfl
  | cons b t ih =>
    have hb : b < 0x80 := ht b (by simp)
    have ht' : IsAscii t := fun c hc => ht c (by simp [hc])
    rw [List.cons_append, glyphs_cons_ascii hb, ih ht', List.map_cons, List.cons_append]

theorem glyphs_ascii {t : Text} (ht : IsAscii t) : glyphs t = t.map Glyph.ascii := by
  have happend := glyphs_ascii_append ht []
  rwa [List.append_nil, show glyphs [] = [] from rfl, List.append_nil] at happend

private theorem glyphsAfter_append (t more : Text) (hmore : ∀ b ∈ more.head?, b < 0x80) (skip : Nat)
    (hskip : skip ≤ t.length) :
    glyphsAfter skip (t ++ more) = glyphsAfter skip t ++ glyphs more := by
  induction t generalizing skip with
  | nil =>
    obtain rfl : skip = 0 := by simpa using hskip
    rfl
  | cons b t ih =>
    cases skip with
    | succ n => exact ih n (by simpa using hskip)
    | zero =>
      -- No character reaches past an ASCII byte, so the first one is the same with `more` behind it.
      rw [List.cons_append, glyphsAfter, glyphsAfter, Glyph.first_append b t more hmore,
        ih _ (Glyph.length_bytes_first b t), List.cons_append]

/-- A text can be cut in front of an ASCII byte. -/
theorem glyphs_append (t : Text) {more : Text} (hmore : ∀ b ∈ more.head?, b < 0x80) :
    glyphs (t ++ more) = glyphs t ++ glyphs more :=
  glyphsAfter_append t more hmore 0 (Nat.zero_le _)

/-- A text can be cut behind an ASCII byte. -/
theorem glyphs_append_cons (t : Text) {b : UInt8} (hb : b < 0x80) (rest : Text) :
    glyphs (t ++ b :: rest) = glyphs t ++ Glyph.ascii b :: glyphs rest := by
  rw [glyphs_append t (by simpa using hb), glyphs_cons_ascii hb]

private theorem ofGlyphs_glyphsAfter (t : Text) (skip : Nat) :
    ofGlyphs (glyphsAfter skip t) = t.drop skip := by
  induction t generalizing skip with
  | nil => simp [glyphsAfter, ofGlyphs]
  | cons b t ih =>
    cases skip with
    | succ n => exact ih n
    | zero =>
      have hrest := ih ((Glyph.first b t).bytes.length - 1)
      rw [ofGlyphs] at hrest
      rw [glyphsAfter, ofGlyphs, List.flatMap_cons, hrest, Glyph.bytes_first, List.length_cons,
        List.length_take, Nat.min_eq_left (Glyph.length_bytes_first b t), Nat.add_sub_cancel,
        List.cons_append, List.take_append_drop, List.drop_zero]

/-- The bytes of the characters of a text are its bytes. -/
theorem ofGlyphs_glyphs (t : Text) : ofGlyphs (glyphs t) = t := ofGlyphs_glyphsAfter t 0

theorem ofGlyphs_append (gs hs : List Glyph) : ofGlyphs (gs ++ hs) = ofGlyphs gs ++ ofGlyphs hs :=
  List.flatMap_append

theorem ofGlyphs_ascii (t : Text) : ofGlyphs (t.map Glyph.ascii) = t := by
  induction t with
  | nil => rfl
  | cons b t ih =>
    rw [ofGlyphs] at ih ⊢
    rw [List.map_cons, List.flatMap_cons, ih]
    rfl

theorem glyphsAfter_eq_drop (skip : Nat) (t : Text) :
    glyphsAfter skip t = glyphs (t.drop skip) := by
  induction t generalizing skip with
  | nil => rw [List.drop_nil]; rfl
  | cons b t ih =>
    cases skip with
    | zero => rfl
    | succ n => exact ih n

theorem glyphs_cons (b : UInt8) (t : Text) :
    glyphs (b :: t) = Glyph.first b t :: glyphs (t.drop ((Glyph.first b t).bytes.length - 1)) := by
  rw [glyphs, glyphsAfter, glyphsAfter_eq_drop]

/-- The first characters of a text are those of a text that has no more. -/
theorem glyphs_ofGlyphs_left {t : Text} {gs hs : List Glyph} (ht : glyphs t = gs ++ hs) :
    glyphs (ofGlyphs gs) = gs := by
  induction gs generalizing t with
  | nil => rfl
  | cons g gs ih =>
    cases t with
    | nil => cases ht
    | cons b t =>
      rw [glyphs_cons, List.cons_append] at ht
      obtain ⟨rfl, hlater⟩ := List.cons.inj ht
      have hbytes : t.drop ((Glyph.first b t).bytes.length - 1) = ofGlyphs gs ++ ofGlyphs hs := by
        rw [← ofGlyphs_glyphs (t.drop _), hlater, ofGlyphs_append]
      have hsource : t.take ((Glyph.first b t).bytes.length - 1) ++ ofGlyphs gs ++ ofGlyphs hs = t := by
        rw [List.append_assoc, ← hbytes, List.take_append_drop]
      have hlength := Glyph.length_bytes_first b t
      have hfirst : Glyph.first b (t.take ((Glyph.first b t).bytes.length - 1) ++ ofGlyphs gs) =
          Glyph.first b t := by
        have happend := Glyph.first_append_of_le b
          (t.take ((Glyph.first b t).bytes.length - 1) ++ ofGlyphs gs) (ofGlyphs hs)
        rw [hsource, List.length_append, List.length_take] at happend
        exact (happend (by omega)).symm
      have hwhole : ofGlyphs (Glyph.first b t :: gs) =
          b :: (t.take ((Glyph.first b t).bytes.length - 1) ++ ofGlyphs gs) := by
        rw [ofGlyphs, List.flatMap_cons, Glyph.bytes_first]
        simp [ofGlyphs, Nat.min_eq_left hlength]
      rw [hwhole, glyphs_cons, hfirst, List.drop_append_of_le_length (by simp; omega),
        List.drop_of_length_le (List.length_take_le _ _), List.nil_append, ih hlater]

/-- The last characters of a text are those of a text that has no others. -/
theorem glyphs_ofGlyphs_right {t : Text} {gs hs : List Glyph} (ht : glyphs t = gs ++ hs) :
    glyphs (ofGlyphs hs) = hs := by
  induction gs generalizing t with
  | nil =>
    rw [List.nil_append] at ht
    rw [← ht, ofGlyphs_glyphs]
  | cons g gs ih =>
    cases t with
    | nil => cases ht
    | cons b t =>
      rw [glyphs_cons, List.cons_append] at ht
      exact ih (List.cons.inj ht).2

/-- A stretch of the characters of a text is read the same way on its own. -/
theorem glyphs_ofGlyphs_of_isInfix {t : Text} {gs : List Glyph} (hgs : gs <:+: glyphs t) :
    glyphs (ofGlyphs gs) = gs := by
  obtain ⟨before, after, ht⟩ := hgs
  have hfront := glyphs_ofGlyphs_left ht.symm
  exact glyphs_ofGlyphs_right hfront

private theorem mem_glyphsAfter (t : Text) (skip : Nat) {g : Glyph} (hg : g ∈ glyphsAfter skip t) :
    ∃ b rest, b ∈ t ∧ g = Glyph.first b rest := by
  induction t generalizing skip with
  | nil => simp [glyphsAfter] at hg
  | cons b t ih =>
    cases skip with
    | succ n =>
      obtain ⟨c, rest, hc, heq⟩ := ih n hg
      exact ⟨c, rest, by simp [hc], heq⟩
    | zero =>
      rcases List.mem_cons.mp hg with hfirst | hlater
      · exact ⟨b, t, by simp, hfirst⟩
      · obtain ⟨c, rest, hc, heq⟩ := ih _ hlater
        exact ⟨c, rest, by simp [hc], heq⟩

theorem isRead_of_mem_glyphs {t : Text} {g : Glyph} (hg : g ∈ glyphs t) : g.IsRead := by
  obtain ⟨b, rest, _, hfirst⟩ := mem_glyphsAfter t 0 hg
  exact ⟨b, rest, hfirst⟩

theorem bytes_ne_nil_of_mem_glyphs {t : Text} {g : Glyph} (hg : g ∈ glyphs t) : g.bytes ≠ [] := by
  obtain ⟨b, rest, _, rfl⟩ := mem_glyphsAfter t 0 hg
  rw [Glyph.bytes_first]
  simp

/-- An ASCII character of a text is one of its bytes. -/
theorem ascii_of_mem_glyphs {t : Text} {g : Glyph} (hg : g ∈ glyphs t)
    (hascii : g.char.toNat < 0x80) : ∃ b ∈ t, g = Glyph.ascii b := by
  obtain ⟨b, rest, hb, rfl⟩ := mem_glyphsAfter t 0 hg
  by_cases hlow : b < 0x80
  · exact ⟨b, hb, Glyph.first_of_lt hlow rest⟩
  · have hhigh := Glyph.le_char_first hlow rest
    omega

/-- Characters of a text that are those of an ASCII text are its bytes. -/
theorem eq_map_ascii {source t : Text} (ht : IsAscii t) {gs : List Glyph}
    (hgs : ∀ g ∈ gs, g ∈ glyphs source)
    (hchars : gs.map Glyph.char = t.map fun b => Char.ofNat b.toNat) :
    gs = t.map Glyph.ascii := by
  induction gs generalizing t with
  | nil => rw [List.map_eq_nil_iff.mp hchars.symm, List.map_nil]
  | cons g gs ih =>
    obtain ⟨b, t, rfl, hb, hrest⟩ := List.map_eq_cons_iff.mp hchars.symm
    have hlow : b < 0x80 := ht b (by simp)
    have hvalue : (Char.ofNat b.toNat).toNat = b.toNat :=
      Glyph.toNat_charOfNat (.inl (by have := b.toNat_lt; omega))
    have hascii : g.char.toNat < 0x80 := by
      rw [← hb, hvalue]
      exact UInt8.lt_iff_toNat_lt.mp hlow
    obtain ⟨c, _, rfl⟩ := ascii_of_mem_glyphs (hgs g (by simp)) hascii
    have hsame : c = b := by
      have hnat := congrArg Char.toNat hb
      rw [hvalue, show (Glyph.ascii c).char.toNat = c.toNat from
        Glyph.toNat_charOfNat (.inl (by have := c.toNat_lt; omega))] at hnat
      exact (UInt8.toNat_inj.mp hnat).symm
    rw [hsame, List.map_cons,
      ih (fun c hc => ht c (by simp [hc])) (fun h hh => hgs h (by simp [hh])) hrest.symm]

/-- Characters are read back from their bytes, if none of them is a stray byte. -/
theorem glyphs_ofGlyphs {gs : List Glyph} (hgs : ∀ g ∈ gs, g.IsWhole) : glyphs (ofGlyphs gs) = gs := by
  induction gs with
  | nil => rfl
  | cons g gs ih =>
    obtain ⟨b, tail, hbytes, _, hfirst⟩ := (hgs g List.mem_cons_self).bytes
    have hcons : ofGlyphs (g :: gs) = b :: (tail ++ ofGlyphs gs) := by
      rw [ofGlyphs, List.flatMap_cons, hbytes, List.cons_append]
      rfl
    rw [hcons, glyphs_cons, hfirst, hbytes, List.length_cons, Nat.add_sub_cancel, List.drop_left,
      ih fun h hh => hgs h (List.mem_cons_of_mem g hh)]

/-! ### Blanks -/

theorem mem_dropWhile_of_neg {α : Type} {p : α → Bool} {x : α} {xs : List α} (hx : x ∈ xs)
    (hp : p x = false) : x ∈ xs.dropWhile p := by
  rw [← List.takeWhile_append_dropWhile (p := p) (l := xs), List.mem_append] at hx
  refine hx.resolve_left fun htaken => ?_
  rw [List.all_eq_true.mp List.all_takeWhile x htaken] at hp
  cases hp

theorem trimGlyphs_eq_nil {gs : List Glyph} :
    trimGlyphs gs = [] ↔ ∀ g ∈ gs, CharClass.isWhiteSpace g.char = true := by
  constructor
  · intro htrim g hg
    rw [← Bool.not_eq_false]
    intro hplain
    have hkept := mem_dropWhile_of_neg
      (List.mem_reverse.mpr (mem_dropWhile_of_neg (p := fun g : Glyph => CharClass.isWhiteSpace g.char)
        hg hplain)) (p := fun g : Glyph => CharClass.isWhiteSpace g.char) hplain
    rw [← List.mem_reverse] at hkept
    change g ∈ trimGlyphs gs at hkept
    rw [htrim] at hkept
    cases hkept
  · intro hblank
    have hdropped : gs.dropWhile (fun g => CharClass.isWhiteSpace g.char) = [] := by
      induction gs with
      | nil => rfl
      | cons g gs ih =>
        rw [List.dropWhile_cons, if_pos (hblank g List.mem_cons_self)]
        exact ih fun h hh => hblank h (List.mem_cons_of_mem g hh)
    rw [trimGlyphs, hdropped]
    rfl

theorem isBlank_iff {t : Text} :
    t.isBlank = true ↔ ∀ g ∈ glyphs t, CharClass.isWhiteSpace g.char = true := by
  rw [isBlank, List.isEmpty_iff, trim, ← trimGlyphs_eq_nil]
  constructor
  · intro htrim
    cases hgs : trimGlyphs (glyphs t) with
    | nil => rfl
    | cons g gs =>
      have hmem : g ∈ glyphs t := by
        have hg : g ∈ trimGlyphs (glyphs t) := by rw [hgs]; exact List.mem_cons_self
        rw [trimGlyphs, List.mem_reverse] at hg
        have hback := (List.dropWhile_sublist _).mem hg
        exact (List.dropWhile_sublist _).mem (List.mem_reverse.mp hback)
      rw [hgs] at htrim
      exact absurd (List.append_eq_nil_iff.mp htrim).1 (bytes_ne_nil_of_mem_glyphs hmem)
  · intro htrim
    rw [htrim]
    rfl

end Text

end Stencil
