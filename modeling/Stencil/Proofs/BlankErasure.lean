import Stencil.Markup.Blanks
import Stencil.Proofs.Glyphs

/-!
# Texts without their blanks

Dropping the collapsible blanks of a text is what removing blanks from a template is measured by. Where
the text is UTF-8 one pass drops them all. Other bytes can come together to a blank when the one between
them is dropped, so the pass has to be repeated until none is left. What is left then, the *ink* of the
text, can be found byte by byte from its end. In that form it is seen to depend on the ink of the parts
of a text only, so that it does not matter where a text is cut and which of its blanks are gone already.
-/

namespace Stencil

namespace Text

/-- A text without its collapsible blanks. -/
def dropBlanks (t : Text) : Text :=
  ofGlyphs (t.glyphs.filter fun g => !CharClass.isCollapsible g.char)

/-- A text with its blanks dropped so many times over. -/
def dropBlanksTimes : Nat → Text → Text
  | 0, t => t
  | n + 1, t => dropBlanksTimes n t.dropBlanks

/-- A text with its blanks dropped until there is none. One pass may leave some where the bytes are no
UTF-8: those on either side of a dropped blank can come together to another. -/
def dropAllBlanks (t : Text) : Text := dropBlanksTimes t.length t

/-! ### Byte by byte -/

/-- A byte in front of a text without blanks, where it does not make one with what follows. -/
def consInk (b : UInt8) (ink : Text) : Text :=
  let g := Glyph.first b ink
  if CharClass.isCollapsible g.char then ink.drop (g.bytes.length - 1) else b :: ink

/-- A text without blanks, from its last byte to its first. -/
def ink (t : Text) : Text := t.foldr consInk []

theorem consInk_of_isContinuation {b : UInt8} (hb : Glyph.isContinuation b = true) (t : Text) :
    consInk b t = b :: t := by
  have hchar : CharClass.isCollapsible (Glyph.stray b).char = false := by
    change CharClass.isCollapsible '�' = false
    decide
  simp only [consInk, Glyph.first_of_isContinuation hb, hchar]
  rfl

theorem foldr_consInk_of_isContinuation {bs : Text} (hbs : ∀ b ∈ bs, Glyph.isContinuation b = true)
    (t : Text) : bs.foldr consInk t = bs ++ t := by
  induction bs with
  | nil => rfl
  | cons b bs ih =>
    rw [List.foldr_cons, ih fun c hc => hbs c (List.mem_cons_of_mem b hc),
      consInk_of_isContinuation (hbs b List.mem_cons_self), List.cons_append]

theorem isWhole_of_isCollapsible {g : Glyph} (hg : g.IsRead)
    (hblank : CharClass.isCollapsible g.char = true) : g.IsWhole := by
  apply hg.isWhole
  intro hchar
  rw [hchar] at hblank
  revert hblank
  decide

/-- The bytes of a blank leave nothing, whatever stands behind them. -/
theorem foldr_consInk_blank {g : Glyph} (hg : g.IsRead)
    (hblank : CharClass.isCollapsible g.char = true) (t : Text) : g.bytes.foldr consInk t = t := by
  obtain ⟨b, tail, hbytes, htail, hfirst⟩ := (isWhole_of_isCollapsible hg hblank).bytes
  rw [hbytes, List.foldr_cons, foldr_consInk_of_isContinuation htail]
  simp only [consInk, hfirst, hbytes]
  rw [if_pos hblank, List.length_cons, Nat.add_sub_cancel, List.drop_left]

/-- What a beginning leaves can stand for it, whatever stands behind it. -/
theorem foldr_consInk_ink (s t : Text) : (ink s).foldr consInk t = s.foldr consInk t := by
  induction s with
  | nil => rfl
  | cons b s ih =>
    have hcons : ink (b :: s) = consInk b (ink s) := rfl
    rw [hcons, List.foldr_cons, ← ih]
    by_cases hblank : CharClass.isCollapsible (Glyph.first b (ink s)).char = true
    · -- The blank takes its own bytes out of `ink s`; read again, they make the same blank.
      have hvanish := foldr_consInk_blank ⟨b, ink s, rfl⟩ hblank
      obtain ⟨tail, after, hbytes, hink, _⟩ := Glyph.first_split b (ink s)
      have hdropped : consInk b (ink s) = after := by
        simp only [consInk, if_pos hblank]
        rw [hbytes, List.length_cons, Nat.add_sub_cancel, hink, List.drop_left]
      rw [hdropped, hink, List.foldr_append]
      rw [hbytes] at hvanish
      exact (hvanish (after.foldr consInk t)).symm
    · have hkept : consInk b (ink s) = b :: ink s := by simp only [consInk, if_neg hblank]
      rw [hkept, List.foldr_cons]

theorem ink_append (s t : Text) : ink (s ++ t) = s.foldr consInk (ink t) := List.foldr_append

theorem ink_ink_append (s t : Text) : ink (ink s ++ t) = ink (s ++ t) := by
  rw [ink_append, ink_append, foldr_consInk_ink]

theorem ink_ink (t : Text) : ink (ink t) = ink t := by
  have happend := ink_ink_append t []
  rwa [List.append_nil, List.append_nil] at happend

theorem ink_append_ink (s t : Text) : ink (s ++ ink t) = ink (s ++ t) := by
  rw [ink_append, ink_append, ink_ink]

theorem ink_append_congr {s s' : Text} (hs : ink s = ink s') (t : Text) :
    ink (s ++ t) = ink (s' ++ t) := by
  rw [← ink_ink_append, hs, ink_ink_append]

theorem ink_append_of_nil {s : Text} (hs : ink s = []) (t : Text) : ink (s ++ t) = ink t := by
  rw [← ink_ink_append, hs, List.nil_append]

/-! ### Character by character -/

/-- Blanks leave nothing. -/
theorem ink_ofGlyphs_filter {gs : List Glyph} (hgs : ∀ g ∈ gs, g.IsRead) :
    ink (ofGlyphs (gs.filter fun g => !CharClass.isCollapsible g.char)) = ink (ofGlyphs gs) := by
  induction gs with
  | nil => rfl
  | cons g gs ih =>
    have hlater := ih fun h hh => hgs h (List.mem_cons_of_mem g hh)
    have hcons : ∀ hs, ink (ofGlyphs (g :: hs)) = g.bytes.foldr consInk (ink (ofGlyphs hs)) :=
      fun hs => ink_append g.bytes (ofGlyphs hs)
    cases hblank : CharClass.isCollapsible g.char with
    | true =>
      rw [List.filter_cons_of_neg (by simp [hblank]), hlater, hcons,
        foldr_consInk_blank (hgs g List.mem_cons_self) hblank]
    | false =>
      rw [List.filter_cons_of_pos (by simp [hblank]), hcons, hcons, hlater]

theorem ink_dropBlanks (t : Text) : ink t.dropBlanks = ink t := by
  rw [dropBlanks, ink_ofGlyphs_filter fun g hg => isRead_of_mem_glyphs hg, ofGlyphs_glyphs]

theorem ink_of_blank {t : Text} (ht : ∀ g ∈ glyphs t, CharClass.isCollapsible g.char = true) :
    ink t = [] := by
  have hnone : (glyphs t).filter (fun g => !CharClass.isCollapsible g.char) = [] := by
    rw [List.filter_eq_nil_iff]
    intro g hg
    simp [ht g hg]
  rw [← ink_dropBlanks, dropBlanks, hnone]
  rfl

/-- A text without blanks is left as it is. -/
theorem ink_eq_self {t : Text} (ht : ∀ g ∈ glyphs t, CharClass.isCollapsible g.char = false) :
    ink t = t := by
  induction hgs : glyphs t generalizing t with
  | nil =>
    rw [← ofGlyphs_glyphs t, hgs]
    rfl
  | cons g gs ih =>
    cases t with
    | nil => rfl
    | cons b t =>
      obtain ⟨tail, after, hbytes, rfl, htail⟩ := Glyph.first_split b t
      rw [glyphs_cons, hbytes, List.length_cons, Nat.add_sub_cancel, List.drop_left] at ht hgs
      have hafter : ink after = after :=
        ih (fun g hg => ht g (List.mem_cons_of_mem _ hg)) (List.cons.inj hgs).2
      have hrest : ink (tail ++ after) = tail ++ after := by
        rw [ink_append, hafter, foldr_consInk_of_isContinuation htail]
      have hcons : ink (b :: (tail ++ after)) = consInk b (ink (tail ++ after)) := rfl
      rw [hcons, hrest]
      simp [consInk, ht _ List.mem_cons_self]

/-! ### Until none is left -/

theorem length_ofGlyphs_filter_le (p : Glyph → Bool) (gs : List Glyph) :
    (ofGlyphs (gs.filter p)).length ≤ (ofGlyphs gs).length := by
  induction gs with
  | nil => exact Nat.le_refl _
  | cons g gs ih =>
    have hcons : ∀ hs, (ofGlyphs (g :: hs)).length = g.bytes.length + (ofGlyphs hs).length :=
      fun hs => List.length_append
    rw [List.filter_cons, hcons]
    split
    · rw [hcons]
      omega
    · omega

theorem length_dropBlanks_lt {t : Text} {g : Glyph} (hg : g ∈ glyphs t)
    (hblank : CharClass.isCollapsible g.char = true) : t.dropBlanks.length < t.length := by
  obtain ⟨before, after, hsplit⟩ := List.append_of_mem hg
  have hbytes := List.length_pos_iff.mpr (bytes_ne_nil_of_mem_glyphs hg)
  have hbefore := length_ofGlyphs_filter_le (fun g => !CharClass.isCollapsible g.char) before
  have hafter := length_ofGlyphs_filter_le (fun g => !CharClass.isCollapsible g.char) after
  have hwhole : t.length = (ofGlyphs before).length + (g.bytes.length + (ofGlyphs after).length) := by
    rw [← ofGlyphs_glyphs t, hsplit, ofGlyphs_append, List.length_append]
    exact congrArg _ List.length_append
  rw [dropBlanks, hsplit, List.filter_append, List.filter_cons_of_neg (by simp [hblank]),
    ofGlyphs_append, List.length_append]
  omega

theorem dropBlanksTimes_eq_self {t : Text} (ht : t.dropBlanks = t) (n : Nat) :
    dropBlanksTimes n t = t := by
  induction n with
  | zero => rfl
  | succ n ih => rw [dropBlanksTimes, ht, ih]

theorem dropBlanksTimes_eq_ink (n : Nat) {t : Text} (hn : t.length ≤ n) :
    dropBlanksTimes n t = ink t := by
  induction n generalizing t with
  | zero =>
    rw [List.length_eq_zero_iff.mp (Nat.le_zero.mp hn)]
    rfl
  | succ n ih =>
    by_cases hblank : ∃ g ∈ glyphs t, CharClass.isCollapsible g.char = true
    · obtain ⟨g, hg, hblank⟩ := hblank
      have hshorter := length_dropBlanks_lt hg hblank
      rw [dropBlanksTimes, ih (by omega), ink_dropBlanks]
    · have hplain : ∀ g ∈ glyphs t, CharClass.isCollapsible g.char = false := by
        intro g hg
        rw [← Bool.not_eq_true]
        exact fun hg' => hblank ⟨g, hg, hg'⟩
      have hkept : t.dropBlanks = t := by
        rw [dropBlanks, List.filter_eq_self.mpr fun g hg => by simp [hplain g hg], ofGlyphs_glyphs]
      rw [dropBlanksTimes_eq_self hkept, ink_eq_self hplain]

theorem dropAllBlanks_eq_ink (t : Text) : t.dropAllBlanks = ink t :=
  dropBlanksTimes_eq_ink t.length (Nat.le_refl _)

end Text

/-! ### Collapsing -/

namespace Markup

theorem filter_collapseBlanksAfter (gs : List Glyph) {run : BlankRun}
    (hrun : run.toGlyphs.filter (fun g => !CharClass.isCollapsible g.char) = []) :
    (collapseBlanksAfter run gs).filter (fun g => !CharClass.isCollapsible g.char) =
      gs.filter fun g => !CharClass.isCollapsible g.char := by
  induction gs generalizing run with
  | nil => exact hrun
  | cons g gs ih =>
    rw [collapseBlanksAfter]
    split
    · rename_i hblank
      have hadd : (run.add g).toGlyphs.filter (fun g => !CharClass.isCollapsible g.char) = [] := by
        cases run with
        | none => exact List.filter_cons_of_neg (by simp [hblank])
        | one blank => rfl
        | many => rfl
      rw [ih hadd, List.filter_cons_of_neg (by simp [hblank])]
    · rename_i hplain
      rw [List.filter_append, hrun, List.nil_append, List.filter_cons_of_pos (by simp [hplain]),
        List.filter_cons_of_pos (by simp [hplain]), @ih .none rfl]

/-- Collapsing gives characters of the text, and spaces. -/
theorem of_mem_collapseBlanksAfter {g : Glyph} {gs : List Glyph} {run : BlankRun}
    (hg : g ∈ collapseBlanksAfter run gs) : g ∈ gs ∨ g ∈ run.toGlyphs ∨ g = BlankRun.space := by
  induction gs generalizing run with
  | nil => exact .inr (.inl hg)
  | cons h gs ih =>
    rw [collapseBlanksAfter] at hg
    split at hg
    · rcases ih hg with hlater | hadded | hspace
      · exact .inl (List.mem_cons_of_mem h hlater)
      · cases run with
        | none => exact .inl (List.mem_cons.mpr (.inl (List.mem_singleton.mp hadded)))
        | one blank => exact .inr (.inr (List.mem_singleton.mp hadded))
        | many => exact .inr (.inr (List.mem_singleton.mp hadded))
      · exact .inr (.inr hspace)
    · rcases List.mem_append.mp hg with hrun | hg
      · exact .inr (.inl hrun)
      · rcases List.mem_cons.mp hg with rfl | hlater
        · exact .inl List.mem_cons_self
        · rcases ih hlater with hlater | hnone | hspace
          · exact .inl (List.mem_cons_of_mem h hlater)
          · cases hnone
          · exact .inr (.inr hspace)

theorem isRead_space : BlankRun.space.IsRead := ⟨0x20, [], rfl⟩

/-- Collapsing keeps what is no blank. -/
theorem ink_collapseBlanks (t : Text) : (collapseBlanks t).ink = t.ink := by
  have hread : ∀ g ∈ collapseBlanksAfter .none t.glyphs, g.IsRead := by
    intro g hg
    rcases of_mem_collapseBlanksAfter hg with hg | hnone | rfl
    · exact Text.isRead_of_mem_glyphs hg
    · cases hnone
    · exact isRead_space
  rw [collapseBlanks, ← Text.ink_ofGlyphs_filter hread,
    @filter_collapseBlanksAfter t.glyphs .none rfl]
  exact Text.ink_dropBlanks t

end Markup

end Stencil
