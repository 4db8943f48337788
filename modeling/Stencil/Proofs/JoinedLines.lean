import Stencil.Proofs.Words
import Stencil.Proofs.Spelling
import Stencil.Proofs.Places

/-!
# Line endings in a source

A line may end in LF, CR LF or CR. Two cursors are *abreast* if the one has before it what the other
has, with every line ending written as LF. No construct of a source begins, ends or is told from another
by how a line ends, so cursors that are abreast stay so: every scan from them gives the same lexemes,
line endings in expressions aside.
-/

namespace Stencil

namespace Glyph

/-- Glyphs with every line ending written as LF. -/
def joinLines : List Glyph → List Glyph
  | ⟨'\r', _⟩ :: ⟨'\n', b⟩ :: rest => ⟨'\n', b⟩ :: joinLines rest
  | ⟨'\r', _⟩ :: rest => ascii 0x0A :: joinLines rest
  | g :: rest => g :: joinLines rest
  | [] => []

theorem joinLines_cons {g : Glyph} (hg : g.char ≠ '\r') (rest : List Glyph) :
    joinLines (g :: rest) = g :: joinLines rest := by
  rw [joinLines]
  · rintro _ _ _ rfl
    exact absurd rfl hg
  · rintro _ rfl
    exact absurd rfl hg

theorem joinLines_cr {g : Glyph} (hg : g.char = '\r') {rest : List Glyph}
    (hrest : ∀ h ∈ rest.head?, h.char ≠ '\n') :
    joinLines (g :: rest) = ascii 0x0A :: joinLines rest := by
  obtain ⟨c, bytes⟩ := g
  obtain rfl : c = '\r' := hg
  rw [joinLines]
  rintro b more rfl
  exact hrest _ rfl rfl

theorem joinLines_crlf (b b' : Text) (rest : List Glyph) :
    joinLines (⟨'\r', b⟩ :: ⟨'\n', b'⟩ :: rest) = ⟨'\n', b'⟩ :: joinLines rest := by
  rw [joinLines]

theorem joinLines_nil : joinLines [] = [] := rfl

/-- Glyphs are taken apart line ending by line ending. -/
theorem lines_induction {motive : List Glyph → Prop} (nil : motive [])
    (crlf : ∀ b b' rest, motive rest → motive (⟨'\r', b⟩ :: ⟨'\n', b'⟩ :: rest))
    (cr : ∀ b rest, (∀ h ∈ rest.head?, h.char ≠ '\n') → motive rest → motive (⟨'\r', b⟩ :: rest))
    (other : ∀ g rest, g.char ≠ '\r' → motive rest → motive (g :: rest)) (gs : List Glyph) :
    motive gs := by
  fun_induction joinLines gs with
  | case1 b b' rest ih => exact crlf b b' rest ih
  | case2 b rest hrest ih =>
    apply cr b rest _ ih
    rintro ⟨c, b'⟩ hh hchar
    obtain rfl : c = '\n' := hchar
    obtain ⟨more, rfl⟩ := List.head?_eq_some_iff.mp hh
    exact hrest b' more rfl
  | case3 g rest _ hg ih =>
    apply other g rest _ ih
    obtain ⟨c, b⟩ := g
    rintro rfl
    exact hg b rfl
  | case4 => exact nil

theorem joinLines_of_not_mem {gs : List Glyph} (hgs : ∀ g ∈ gs, g.char ≠ '\r') (rest : List Glyph) :
    joinLines (gs ++ rest) = gs ++ joinLines rest := by
  induction gs with
  | nil => rfl
  | cons g gs ih =>
    rw [List.cons_append, joinLines_cons (hgs g (by simp)), ih fun h hh => hgs h (by simp [hh])]
    rfl

/-- A line ending is only cut in two between a CR and an LF. -/
theorem joinLines_append {gs hs : List Glyph}
    (hcut : (∀ g ∈ gs.getLast?, g.char ≠ '\r') ∨ ∀ h ∈ hs.head?, h.char ≠ '\n') :
    joinLines (gs ++ hs) = joinLines gs ++ joinLines hs := by
  induction gs using lines_induction with
  | nil => rfl
  | crlf b b' rest ih =>
    rw [List.cons_append, List.cons_append, joinLines_crlf, joinLines_crlf, ih, List.cons_append]
    refine hcut.imp_left fun hlast g hg => hlast g ?_
    simp [List.getLast?_cons, Option.mem_def.mp hg]
  | cr b rest hrest ih =>
    have hnext : ∀ h ∈ (rest ++ hs).head?, h.char ≠ '\n' := by
      cases rest with
      | nil =>
        apply hcut.resolve_left
        intro hlast
        exact hlast _ rfl rfl
      | cons r rest => exact hrest
    rw [List.cons_append, joinLines_cr rfl hnext, joinLines_cr rfl hrest, List.cons_append, ih]
    refine hcut.imp_left fun hlast g hg => hlast g ?_
    simp [List.getLast?_cons, Option.mem_def.mp hg]
  | other g rest hg ih =>
    rw [List.cons_append, joinLines_cons hg, joinLines_cons hg, ih, List.cons_append]
    refine hcut.imp_left fun hlast h hh => hlast h ?_
    simp [List.getLast?_cons, Option.mem_def.mp hh]

/-- The character that stands for a character in a line ending. -/
def lineChar (c : Char) : Char := if c = '\r' then '\n' else c

theorem head_joinLines (gs : List Glyph) :
    (joinLines gs).head?.map Glyph.char = gs.head?.map fun g => lineChar g.char := by
  induction gs using lines_induction with
  | nil => rfl
  | crlf b b' rest =>
    rw [joinLines_crlf]
    rfl
  | cr b rest hrest =>
    rw [joinLines_cr rfl hrest]
    rfl
  | other g rest hg =>
    rw [joinLines_cons hg]
    simp [lineChar, hg]

theorem exists_joinLines_cons (g : Glyph) (rest : List Glyph) :
    ∃ h more, joinLines (g :: rest) = h :: more ∧ h.char = lineChar g.char := by
  have hhead := head_joinLines (g :: rest)
  rw [List.head?_cons, Option.map_some, Option.map_eq_some_iff] at hhead
  obtain ⟨h, hfirst, hchar⟩ := hhead
  obtain ⟨more, hmore⟩ := List.head?_eq_some_iff.mp hfirst
  exact ⟨h, more, hmore, hchar⟩

theorem joinLines_eq_cons {gs rest : List Glyph} {g : Glyph} (hg : g.char ≠ '\n')
    (h : joinLines gs = g :: rest) : ∃ more, gs = g :: more ∧ rest = joinLines more := by
  induction gs using lines_induction with
  | nil => cases h
  | crlf b b' more =>
    rw [joinLines_crlf] at h
    obtain ⟨rfl, -⟩ := List.cons.inj h
    exact absurd rfl hg
  | cr b more hmore =>
    rw [joinLines_cr rfl hmore] at h
    obtain ⟨rfl, -⟩ := List.cons.inj h
    exact absurd rfl hg
  | other x more hx =>
    rw [joinLines_cons hx] at h
    obtain ⟨rfl, rfl⟩ := List.cons.inj h
    exact ⟨more, rfl, rfl⟩

theorem length_joinLines_le (gs : List Glyph) : (joinLines gs).length ≤ gs.length := by
  induction gs using lines_induction with
  | nil => exact Nat.zero_le _
  | crlf b b' rest ih =>
    rw [joinLines_crlf, List.length_cons, List.length_cons, List.length_cons]
    omega
  | cr b rest hrest ih =>
    rw [joinLines_cr rfl hrest, List.length_cons, List.length_cons]
    omega
  | other g rest hg ih =>
    rw [joinLines_cons hg, List.length_cons, List.length_cons]
    omega

theorem joinLines_eq_nil {gs : List Glyph} : joinLines gs = [] ↔ gs = [] := by
  cases gs with
  | nil => exact Iff.rfl
  | cons g rest =>
    obtain ⟨h, more, hjoined, -⟩ := exists_joinLines_cons g rest
    rw [hjoined]
    exact ⟨fun hnil => absurd hnil (List.cons_ne_nil _ _), fun hnil => absurd hnil (List.cons_ne_nil _ _)⟩

theorem forall_mem_joinLines {p : Char → Bool} (hlf : p '\n' = true) {gs : List Glyph}
    (hgs : ∀ g ∈ gs, p g.char = true) : ∀ g ∈ joinLines gs, p g.char = true := by
  induction gs using lines_induction with
  | nil => exact hgs
  | crlf b b' rest ih =>
    rw [joinLines_crlf]
    rintro g (_ | ⟨_, hg⟩)
    · exact hlf
    · exact ih (fun h hh => hgs h (by simp [hh])) g hg
  | cr b rest hrest ih =>
    rw [joinLines_cr rfl hrest]
    rintro g (_ | ⟨_, hg⟩)
    · exact hlf
    · exact ih (fun h hh => hgs h (by simp [hh])) g hg
  | other h rest hh ih =>
    rw [joinLines_cons hh]
    rintro g (_ | ⟨_, hg⟩)
    · exact hgs _ (by simp)
    · exact ih (fun h hh => hgs h (by simp [hh])) g hg

/-- Dropping what a class holds in front does not look at how lines end. -/
theorem dropWhile_joinLines {p : Char → Bool} (hp : p '\n' = p '\r') (gs : List Glyph) :
    (joinLines gs).dropWhile (fun g => p g.char) = joinLines (gs.dropWhile fun g => p g.char) := by
  induction gs using lines_induction with
  | nil => rfl
  | crlf b b' rest ih =>
    rw [joinLines_crlf]
    cases hcr : p '\r' with
    | true => simpa [hp, hcr] using ih
    | false => simp [hp, hcr, joinLines_crlf]
  | cr b rest hrest ih =>
    rw [joinLines_cr rfl hrest]
    cases hcr : p '\r' with
    | true => simpa [hp, hcr, ascii] using ih
    | false =>
      have hlf : p (ascii 0x0A).char = false := hp.trans hcr
      rw [List.dropWhile_cons_of_neg (by simp [hlf]), List.dropWhile_cons_of_neg (by simp [hcr]),
        joinLines_cr rfl hrest]
  | other g rest hg ih =>
    rw [joinLines_cons hg]
    cases hclass : p g.char with
    | true => simpa [hclass] using ih
    | false => simp [hclass, joinLines_cons hg]

theorem takeWhile_joinLines {p : Char → Bool} (hcr : p '\r' = false) (hlf : p '\n' = false)
    (gs : List Glyph) :
    (joinLines gs).takeWhile (fun g => p g.char) = gs.takeWhile fun g => p g.char := by
  induction gs using lines_induction with
  | nil => rfl
  | crlf b b' rest => simp [joinLines_crlf, hcr, hlf]
  | cr b rest hrest =>
    rw [joinLines_cr rfl hrest]
    simp [hcr, ascii, hlf]
  | other g rest hg ih => rw [joinLines_cons hg, List.takeWhile_cons, List.takeWhile_cons, ih]

theorem trimmed_isInfix (q : Glyph → Bool) (gs : List Glyph) :
    ((gs.dropWhile q).reverse.dropWhile q).reverse <:+: gs := by
  refine List.IsInfix.trans ?_ (List.dropWhile_suffix q).isInfix
  rw [← List.reverse_infix, List.reverse_reverse]
  exact (List.dropWhile_suffix q).isInfix

theorem dropWhile_reverse_append {q : Glyph → Bool} {core tail : List Glyph}
    (htail : ∀ g ∈ tail, q g = true) (hcore : ∀ g ∈ core.getLast?, q g = false) :
    ((core ++ tail).reverse.dropWhile q).reverse = core := by
  rw [List.reverse_append, List.dropWhile_append_of_pos (by simpa using htail),
    Template.dropWhile_eq_self (by simpa using hcore), List.reverse_reverse]

/-- Neither does dropping it at the back, if all line endings belong to the class. -/
theorem dropWhile_reverse_joinLines {p : Char → Bool} (hcr : p '\r' = true) (hlf : p '\n' = true)
    (gs : List Glyph) :
    ((joinLines gs).reverse.dropWhile fun g => p g.char).reverse =
      joinLines (gs.reverse.dropWhile fun g => p g.char).reverse := by
  obtain ⟨core, tail, rfl, htail, hlast⟩ : ∃ core tail, gs = core ++ tail ∧
      (∀ g ∈ tail, p g.char = true) ∧ ∀ g ∈ core.getLast?, p g.char = false := by
    refine ⟨(gs.reverse.dropWhile fun g => p g.char).reverse,
      (gs.reverse.takeWhile fun g => p g.char).reverse, ?_, ?_, ?_⟩
    · rw [← List.reverse_append, List.takeWhile_append_dropWhile, List.reverse_reverse]
    · intro g hg
      exact List.all_eq_true.mp List.all_takeWhile g (List.mem_reverse.mp hg)
    · intro g hg
      rw [List.getLast?_reverse] at hg
      have hfirst := List.head?_dropWhile_not (fun g : Glyph => p g.char) gs.reverse
      rw [Option.mem_def.mp hg] at hfirst
      simpa using hfirst
  have hne : ∀ g ∈ core.getLast?, g.char ≠ '\r' ∧ g.char ≠ '\n' := by
    intro g hg
    have hclass := hlast g hg
    constructor <;>
    · intro hchar
      rw [hchar] at hclass
      simp_all
  rw [dropWhile_reverse_append htail hlast,
    joinLines_append (.inl fun g hg => (hne g hg).1)]
  apply dropWhile_reverse_append (forall_mem_joinLines hlf htail)
  intro g hg
  rcases List.eq_nil_or_concat core with rfl | ⟨init, h, rfl⟩
  · cases hg
  · rw [List.concat_eq_append] at hg hlast hne
    have hh := hne h (by simp)
    have hend : joinLines [h] = [h] := joinLines_cons hh.1 []
    rw [joinLines_append (.inr (by simpa using hh.2)), hend, List.getLast?_concat,
      Option.mem_some_iff] at hg
    subst hg
    exact hlast h (by simp)

end Glyph

namespace Text

open Glyph

theorem not_mem_normalizeLineEndings (t : Text) : 0x0D ∉ t.normalizeLineEndings := by
  fun_induction normalizeLineEndings t <;> simp_all [eq_comm]

theorem normalizeLineEndings_idem (t : Text) :
    t.normalizeLineEndings.normalizeLineEndings = t.normalizeLineEndings :=
  Template.normalizeLineEndings_of_not_mem (not_mem_normalizeLineEndings t)

theorem isEmpty_normalizeLineEndings (t : Text) : t.normalizeLineEndings.isEmpty = t.isEmpty := by
  fun_cases normalizeLineEndings t <;> rfl

/-- An ASCII byte of a text is one of its characters. -/
theorem ascii_mem_glyphs {t : Text} {b : UInt8} (hb : b < 0x80) (ht : b ∈ t) :
    Glyph.ascii b ∈ t.glyphs := by
  obtain ⟨before, after, rfl⟩ := List.append_of_mem ht
  rw [glyphs_append_cons before hb]
  simp

theorem char_ne_cr_of_not_mem {t : Text} (ht : 0x0D ∉ t) {g : Glyph} (hg : g ∈ glyphs t) :
    g.char ≠ '\r' := by
  intro hchar
  obtain ⟨b, hb, rfl⟩ := ascii_of_mem_glyphs hg (by rw [hchar]; decide)
  obtain rfl : b = 0x0D := Template.byteChar_injective hchar
  exact ht hb

theorem head_glyphs_ne_lf {t : Text} (ht : ∀ rest, t = 0x0A :: rest → False) :
    ∀ g ∈ (glyphs t).head?, g.char ≠ '\n' := by
  intro g hg hchar
  cases t with
  | nil => cases hg
  | cons b rest =>
    rw [glyphs_cons, List.head?_cons, Option.mem_some_iff] at hg
    subst hg
    by_cases hb : b < 0x80
    · rw [Glyph.first_of_lt hb] at hchar
      obtain rfl : b = 0x0A := Template.byteChar_injective hchar
      exact ht rest rfl
    · have hhigh := Glyph.le_char_first hb rest
      rw [hchar] at hhigh
      exact absurd hhigh (by decide)

private theorem glyphs_append_normalizeLineEndings (before t : Text) (hbefore : 0x0D ∉ before) :
    glyphs (before ++ t.normalizeLineEndings) = joinLines (glyphs (before ++ t)) := by
  -- A character may reach over several bytes, so what comes before the next CR is kept together.
  have hplain := fun g hg => @char_ne_cr_of_not_mem before hbefore g hg
  fun_induction normalizeLineEndings t generalizing before with
  | case1 rest ih =>
    rw [glyphs_append_cons before (by decide), glyphs_append_cons before (by decide),
      glyphs_cons_ascii (by decide), joinLines_of_not_mem hplain]
    exact congrArg (fun gs => glyphs before ++ Glyph.ascii 0x0A :: gs)
      (ih [] (by simp) (by simp [glyphs, glyphsAfter]))
  | case2 rest hrest ih =>
    rw [glyphs_append_cons before (by decide), glyphs_append_cons before (by decide),
      joinLines_of_not_mem hplain, joinLines_cr rfl (head_glyphs_ne_lf hrest)]
    exact congrArg (fun gs => glyphs before ++ Glyph.ascii 0x0A :: gs)
      (ih [] (by simp) (by simp [glyphs, glyphsAfter]))
  | case3 b rest _ hb ih =>
    have hmore : 0x0D ∉ before ++ [b] := by
      simpa [hbefore, eq_comm] using hb
    have happend := ih (before ++ [b]) hmore fun g hg => char_ne_cr_of_not_mem hmore hg
    rwa [List.append_assoc, List.append_assoc] at happend
  | case4 =>
    have happend := joinLines_of_not_mem hplain []
    rw [List.append_nil] at happend
    rw [List.append_nil, happend, joinLines_nil, List.append_nil]

/-- Whether lines are joined in the bytes or in the characters of a text is the same. -/
theorem glyphs_normalizeLineEndings (t : Text) :
    glyphs t.normalizeLineEndings = joinLines (glyphs t) :=
  glyphs_append_normalizeLineEndings [] t (by simp)

/-- Lines of a stretch of a text can be joined in its characters. -/
theorem ofGlyphs_joinLines {source : Text} {gs : List Glyph} (hgs : gs <:+: glyphs source) :
    ofGlyphs (joinLines gs) = normalizeLineEndings (ofGlyphs gs) := by
  have hjoined := glyphs_normalizeLineEndings (ofGlyphs gs)
  rw [glyphs_ofGlyphs_of_isInfix hgs] at hjoined
  rw [← hjoined, ofGlyphs_glyphs]

theorem trim_normalizeLineEndings (t : Text) :
    t.normalizeLineEndings.trim = t.trim.normalizeLineEndings := by
  rw [trim, trim, glyphs_normalizeLineEndings, trimGlyphs, trimGlyphs,
    ← ofGlyphs_joinLines (Glyph.trimmed_isInfix _ (glyphs t)),
    dropWhile_joinLines (p := CharClass.isWhiteSpace) rfl,
    dropWhile_reverse_joinLines (p := CharClass.isWhiteSpace) rfl rfl]

theorem isBlank_normalizeLineEndings (t : Text) : t.normalizeLineEndings.isBlank = t.isBlank := by
  rw [isBlank, trim_normalizeLineEndings, isEmpty_normalizeLineEndings]
  rfl

end Text

namespace Markup

open Glyph

/-! ### Cursors -/

/-- A search that finds the same however lines end, and does not stop within a line ending. -/
structure Blind (stop : List Glyph → Bool) : Prop where
  join (gs : List Glyph) : stop (joinLines gs) = stop gs
  onward {g h : Glyph} (rest : List Glyph) (hg : g.char = '\r') (hh : h.char = '\n')
    (hstop : stop (g :: h :: rest) = false) : stop (h :: rest) = false

/-- What is read first of some glyphs, line endings kept whole. -/
def Cut (gs rest : List Glyph) : Prop :=
  ∃ passed, gs = passed ++ rest ∧ joinLines gs = joinLines passed ++ joinLines rest

namespace Cut

variable {gs rest : List Glyph}

theorem refl (gs : List Glyph) : Cut gs gs := ⟨[], rfl, rfl⟩

theorem lineEnding (h : Cut gs rest) (b b' : Text) : Cut (⟨'\r', b⟩ :: ⟨'\n', b'⟩ :: gs) rest := by
  obtain ⟨passed, rfl, hjoin⟩ := h
  refine ⟨⟨'\r', b⟩ :: ⟨'\n', b'⟩ :: passed, rfl, ?_⟩
  rw [joinLines_crlf, hjoin, joinLines_crlf, List.cons_append]

theorem cr (h : Cut gs rest) (b : Text) (hgs : ∀ g ∈ gs.head?, g.char ≠ '\n') :
    Cut (⟨'\r', b⟩ :: gs) rest := by
  obtain ⟨passed, rfl, hjoin⟩ := h
  refine ⟨⟨'\r', b⟩ :: passed, rfl, ?_⟩
  have hpassed : ∀ g ∈ passed.head?, g.char ≠ '\n' := by
    cases passed with
    | nil =>
      intro g hg
      cases hg
    | cons g passed => exact hgs
  rw [joinLines_cr rfl hgs, hjoin, joinLines_cr rfl hpassed, List.cons_append]

theorem cons (h : Cut gs rest) {g : Glyph} (hg : g.char ≠ '\r') : Cut (g :: gs) rest := by
  obtain ⟨passed, rfl, hjoin⟩ := h
  refine ⟨g :: passed, rfl, ?_⟩
  rw [joinLines_cons hg, hjoin, joinLines_cons hg, List.cons_append]

end Cut

/-- Searches from the one and the other stop at the same place. -/
theorem Blind.seekFrom {stop : List Glyph → Bool} (hstop : Blind stop) (gs : List Glyph)
    (p p' : Position) :
    Cut gs (Cursor.seekFrom stop gs p).rest ∧
      (Cursor.seekFrom stop (joinLines gs) p').rest = joinLines (Cursor.seekFrom stop gs p).rest := by
  have hjoin := hstop.join gs
  induction gs using lines_induction generalizing p p' with
  | nil => exact ⟨.refl _, rfl⟩
  | crlf b b' rest ih =>
    rw [joinLines_crlf] at hjoin ⊢
    simp only [Cursor.seekFrom, hjoin]
    cases hfirst : stop (⟨'\r', b⟩ :: ⟨'\n', b'⟩ :: rest) with
    | true => exact ⟨.refl _, (joinLines_crlf b b' rest).symm⟩
    | false =>
      have hsecond := hstop.onward rest rfl rfl hfirst
      obtain ⟨hcut, hrest⟩ := ih (((p.after _).after _)) (p'.after _) (hstop.join rest)
      simp only [hsecond, Bool.false_eq_true, if_false]
      exact ⟨hcut.lineEnding b b', hrest⟩
  | cr b rest hrest ih =>
    rw [joinLines_cr rfl hrest] at hjoin ⊢
    rw [Cursor.seekFrom, Cursor.seekFrom, hjoin]
    cases hfirst : stop (⟨'\r', b⟩ :: rest) with
    | true => exact ⟨.refl _, (joinLines_cr rfl hrest).symm⟩
    | false =>
      obtain ⟨hcut, hsame⟩ := ih (p.after _) (p'.after _) (hstop.join rest)
      simp only [Bool.false_eq_true, if_false]
      exact ⟨hcut.cr b hrest, hsame⟩
  | other g rest hg ih =>
    rw [joinLines_cons hg] at hjoin ⊢
    rw [Cursor.seekFrom, Cursor.seekFrom, hjoin]
    cases hfirst : stop (g :: rest) with
    | true => exact ⟨.refl _, (joinLines_cons hg rest).symm⟩
    | false =>
      obtain ⟨hcut, hsame⟩ := ih (p.after _) (p'.after _) (hstop.join rest)
      simp only [Bool.false_eq_true, if_false]
      exact ⟨hcut.cons hg, hsame⟩

namespace Blind

variable {p : Char → Bool}

theorem any_head_joinLines (hp : p '\n' = p '\r') (gs : List Glyph) :
    ((joinLines gs).head?.any fun g => p g.char) = gs.head?.any fun g => p g.char := by
  have hmap : ∀ hs : List Glyph,
      (hs.head?.any fun g => p g.char) = (hs.head?.map Glyph.char).any p := by
    intro hs
    rw [Option.any_map]
  rw [hmap, head_joinLines]
  cases gs with
  | nil => rfl
  | cons g rest =>
    simp only [List.head?_cons, Option.map_some, Option.any_some, lineChar]
    split
    · rename_i hchar
      rw [hp, hchar]
    · rfl

theorem head (hp : p '\n' = p '\r') : Blind fun gs => gs.head?.any fun g => p g.char where
  join := any_head_joinLines hp
  onward rest hg hh hstop := by simpa [hg, hh, hp] using hstop

theorem not_head (hp : p '\n' = p '\r') : Blind fun gs => !(gs.head?.any fun g => p g.char) where
  join gs := congrArg not (any_head_joinLines hp gs)
  onward rest hg hh hstop := by simpa [hg, hh, hp] using hstop

theorem or {a b : List Glyph → Bool} (ha : Blind a) (hb : Blind b) : Blind fun gs => a gs || b gs where
  join gs := by rw [ha.join, hb.join]
  onward rest hg hh hstop := by
    rw [Bool.or_eq_false_iff] at hstop ⊢
    exact ⟨ha.onward rest hg hh hstop.1, hb.onward rest hg hh hstop.2⟩

theorem isEmpty : Blind List.isEmpty where
  join gs := by
    rw [Bool.eq_iff_iff, List.isEmpty_iff, List.isEmpty_iff]
    exact joinLines_eq_nil
  onward _ _ _ _ := rfl

/-- What begins with a character that ends no line. -/
theorem cons {stop more : List Glyph → Bool} (hcr : p '\r' = false) (hlf : p '\n' = false)
    (hstop : ∀ g rest, stop (g :: rest) = (p g.char && more rest))
    (hmore : ∀ gs, more (joinLines gs) = more gs) : Blind stop where
  join gs := by
    induction gs using lines_induction with
    | nil => rfl
    | crlf b b' rest => simp [joinLines_crlf, hstop, hcr, hlf]
    | cr b rest hrest =>
      rw [joinLines_cr rfl hrest]
      simp [hstop, hcr, Glyph.ascii, hlf]
    | other g rest hg => rw [joinLines_cons hg, hstop, hstop, hmore]
  onward rest _ hh _ := by simp [hstop, hh, hlf]

theorem not_isNewline {s : List Char} (hs : s.all (fun y => !CharClass.isNewline y) = true) :
    ∀ y ∈ s, CharClass.isNewline y = false := by
  intro y hy
  have hfree := List.all_eq_true.mp hs y hy
  rwa [Bool.not_eq_true'] at hfree

theorem beginsWith {x : Char} {s : List Char} (hs : ∀ y ∈ x :: s, CharClass.isNewline y = false) :
    Blind (Cursor.beginsWith (x :: s)) := by
  have hx : ('\r' == x) = false ∧ ('\n' == x) = false := by
    have hfirst := hs x (by simp)
    simp only [CharClass.isNewline, Bool.or_eq_false_iff] at hfirst
    exact ⟨BEq.comm.trans hfirst.2, BEq.comm.trans hfirst.1⟩
  refine @cons (· == x) _ (Cursor.beginsWith s) hx.1 hx.2 (fun _ _ => rfl) ?_
  cases s with
  | nil =>
    intro gs
    cases gs <;> cases joinLines _ <;> rfl
  | cons y s => exact (beginsWith fun z hz => hs z (by simp [hz])).join

theorem closesName {ns : List Nat} (hns : ∀ n ∈ ns, n ≠ 13 ∧ n ≠ 10) (gs : List Glyph) :
    Markup.closesName ns (joinLines gs) = Markup.closesName ns gs := by
  induction ns generalizing gs with
  | nil => exact (not_head (p := fun x => !endsName x) rfl).join gs
  | cons n ns ih =>
    have hupper : upperCode n ≠ 13 ∧ upperCode n ≠ 10 := by
      have hn := hns n (by simp)
      unfold upperCode
      split
      · simp_all
        omega
      · exact hn
    exact (@cons (fun x => upperCode x.toNat == upperCode n) (Markup.closesName (n :: ns))
      (Markup.closesName ns) (beq_eq_false_iff_ne.mpr hupper.1.symm)
      (beq_eq_false_iff_ne.mpr hupper.2.symm) (fun _ _ => rfl)
      (ih fun m hm => hns m (by simp [hm]))).join gs

theorem beginsEndTag {name : Text} (hcr : 0x0D ∉ name) (hlf : 0x0A ∉ name) :
    Blind (Markup.beginsEndTag name) := by
  have hname : ∀ n ∈ name.map UInt8.toNat, n ≠ 13 ∧ n ≠ 10 := by
    intro n hn
    obtain ⟨b, hb, rfl⟩ := List.mem_map.mp hn
    constructor
    · intro hcode
      obtain rfl : b = 0x0D := UInt8.toNat_inj.mp hcode
      exact hcr hb
    · intro hcode
      obtain rfl : b = 0x0A := UInt8.toNat_inj.mp hcode
      exact hlf hb
  have hslash : Blind fun gs => (gs.head?.any fun h => h.char == '/') &&
      Markup.closesName (name.map UInt8.toNat) gs.tail :=
    cons (p := (· == '/')) rfl rfl (fun _ _ => rfl) (closesName hname)
  refine @cons (· == '<') _ (fun gs => (gs.head?.any fun h => h.char == '/') &&
    Markup.closesName (name.map UInt8.toNat) gs.tail) rfl rfl (fun g rest => ?_) hslash.join
  cases rest with
  | nil => simp [Markup.beginsEndTag]
  | cons h rest => simp [Markup.beginsEndTag, Bool.and_assoc]

theorem beginsTag : Blind Markup.beginsTag := by
  have hstop : ∀ (g : Glyph) (rest : List Glyph), Markup.beginsTag (g :: rest) =
      (g.char == '<' && rest.head?.any fun h =>
        CharClass.isLetter h.char || h.char == '/' || h.char == '!') := by
    intro g rest
    cases rest <;> simp [Markup.beginsTag]
  apply cons (p := (· == '<')) rfl rfl hstop
  exact any_head_joinLines (p := fun x => CharClass.isLetter x || x == '/' || x == '!') (by decide)

theorem beginsBlock : Blind Markup.beginsBlock := by
  have hstop : ∀ (g : Glyph) (rest : List Glyph), Markup.beginsBlock (g :: rest) =
      (g.char == '@' && blockNames.contains
        (String.ofList ((rest.takeWhile fun h => CharClass.isBlockName h.char).map Glyph.char))) := by
    intro g rest
    rw [Markup.beginsBlock]
  apply cons (p := (· == '@')) rfl rfl hstop
  intro gs
  rw [takeWhile_joinLines (p := CharClass.isBlockName) (by decide) (by decide)]

theorem endsText : Blind Markup.endsText :=
  ((isEmpty.or (head (p := (· == '\x7d')) rfl)).or beginsTag).or beginsBlock

theorem beginsInterpolation : Blind Markup.beginsInterpolation :=
  @beginsWith '\x7b' ['\x7b'] (not_isNewline (by decide))

end Blind

/-- The cursor `c'` has before it what `c` has of a source, with lines joined. -/
structure Abreast (source : Text) (c c' : Cursor) : Prop where
  within : c.rest <:+ source.glyphs
  rest : c'.rest = joinLines c.rest

namespace Abreast

variable {source : Text} {c c' d d' : Cursor}

theorem atEnd (h : Abreast source c c') : c'.atEnd = c.atEnd := by
  rw [Cursor.atEnd, h.rest, Blind.isEmpty.join]
  rfl

theorem isIn (h : Abreast source c c') {p : Char → Bool} (hp : p '\n' = p '\r') :
    c'.isIn p = c.isIn p := by
  have hany := Blind.any_head_joinLines hp c.rest
  rw [Cursor.isIn, Cursor.isIn, Cursor.peek?, Cursor.peek?, Option.any_map, Option.any_map, h.rest]
  exact hany

theorem isAt (h : Abreast source c c') {x : Char} (hx : CharClass.isNewline x = false) :
    c'.isAt x = c.isAt x := by
  have hp : ('\n' == x) = ('\r' == x) := by
    simp only [CharClass.isNewline, Bool.or_eq_false_iff] at hx
    rw [BEq.comm.trans hx.1, BEq.comm.trans hx.2]
  have hclass : ∀ e : Cursor, e.isAt x = e.isIn (· == x) := by
    intro e
    rw [Cursor.isAt, Cursor.isIn]
    cases e.peek? <;> simp
  rw [hclass, hclass, h.isIn hp]

theorem advance (h : Abreast source c c') {g : Glyph} (hread : c.Reads [g] c.advance)
    (hg : CharClass.isNewline g.char = false) : Abreast source c.advance c'.advance where
  within := hread.isSuffix h.within
  rest := by
    have hchar : g.char ≠ '\r' := by
      rintro hchar
      rw [hchar] at hg
      cases hg
    have hnext : c'.rest = g :: joinLines c.advance.rest := by
      rw [h.rest, hread.rest, List.singleton_append, joinLines_cons hchar]
    exact ((List.cons.inj ((Cursor.reads_advance hnext).rest.symm.trans hnext)).2)

theorem advance_isAt (h : Abreast source c c') {x : Char} (hx : CharClass.isNewline x = false)
    (hat : c.isAt x = true) : Abreast source c.advance c'.advance := by
  obtain ⟨g, rfl, hread⟩ := Cursor.exists_of_isAt hat
  exact h.advance hread hx

theorem advanceBy {s : List Char} (hs : ∀ x ∈ s, CharClass.isNewline x = false)
    (h : Abreast source c c') (hat : Cursor.beginsWith s c.rest = true) :
    Abreast source (c.advanceBy s.length) (c'.advanceBy s.length) := by
  induction s generalizing c c' with
  | nil => exact h
  | cons x s ih =>
    cases hrest : c.rest with
    | nil =>
      rw [hrest] at hat
      cases hat
    | cons g rest =>
      have hread := Cursor.reads_advance hrest
      simp only [hrest, Cursor.beginsWith, Bool.and_eq_true, beq_iff_eq] at hat
      have hlater : c.advance.rest = rest :=
        ((List.cons.inj (hread.rest.symm.trans hrest)).2)
      refine ih (fun y hy => hs y (by simp [hy])) (h.advance hread ?_) (by rw [hlater]; exact hat.2)
      rw [hat.1]
      exact hs x (by simp)

theorem length_le (h : Abreast source c c') : c'.rest.length ≤ c.rest.length := by
  rw [h.rest]
  exact length_joinLines_le _

theorem within_joined (h : Abreast source c c') : ∃ source' : Text, c'.rest <:+ source'.glyphs := by
  have hglyphs : (Text.ofGlyphs c.rest).normalizeLineEndings.glyphs = c'.rest := by
    rw [Text.glyphs_normalizeLineEndings, Text.glyphs_ofGlyphs_of_isInfix h.within.isInfix, h.rest]
  refine ⟨(Text.ofGlyphs c.rest).normalizeLineEndings, ?_⟩
  exact hglyphs ▸ List.suffix_rfl

theorem textTo (h : Abreast source c c') (hcut : Cut c.rest d.rest) (hd : d'.rest = joinLines d.rest) :
    c'.textTo d' = (c.textTo d).normalizeLineEndings := by
  obtain ⟨passed, hpassed, hjoin⟩ := hcut
  have hinfix : passed <:+: source.glyphs := by
    obtain ⟨before, hsource⟩ := h.within
    exact ⟨before, d.rest, by rw [← hsource, hpassed, List.append_assoc]⟩
  rw [Cursor.textTo, Cursor.textTo, h.rest, hd, hjoin, hpassed, List.length_append, List.length_append,
    Nat.add_sub_cancel, Nat.add_sub_cancel, List.take_left, List.take_left,
    Text.ofGlyphs_joinLines hinfix]

theorem seek (h : Abreast source c c') {stop : List Glyph → Bool} (hstop : Blind stop) :
    Abreast source (c.seek stop) (c'.seek stop) ∧
      c'.textTo (c'.seek stop) = (c.textTo (c.seek stop)).normalizeLineEndings := by
  obtain ⟨hcut, hrest⟩ := hstop.seekFrom c.rest c.position c'.position
  rw [← h.rest] at hrest
  obtain ⟨gs, hread, -⟩ := Cursor.exists_seek stop c
  exact ⟨⟨hread.isSuffix h.within, hrest⟩, h.textTo hcut hrest⟩

theorem skipSpace (h : Abreast source c c') : Abreast source c.skipSpace c'.skipSpace :=
  (h.seek (Blind.not_head rfl)).1

/-- Characters of a class to which line endings do not belong. -/
theorem skipWhile (h : Abreast source c c') {p : Char → Bool} (hcr : p '\r' = false)
    (hlf : p '\n' = false) :
    Abreast source (c.skipWhile p) (c'.skipWhile p) ∧
      c'.textTo (c'.skipWhile p) = c.textTo (c.skipWhile p) ∧
      0x0D ∉ c.textTo (c.skipWhile p) ∧ 0x0A ∉ c.textTo (c.skipWhile p) := by
  obtain ⟨hstop, htext⟩ := h.seek (Blind.not_head (p := p) (hlf.trans hcr.symm))
  obtain ⟨gs, hread, hclass, -⟩ := Cursor.exists_skipWhile p c
  have hmem : ∀ b : UInt8, b < 0x80 → p (Char.ofNat b.toNat) = false →
      b ∉ c.textTo (c.skipWhile p) := by
    intro b hb hp hmem
    rw [hread.textTo] at hmem
    have hglyph := Text.ascii_mem_glyphs hb hmem
    rw [Text.glyphs_ofGlyphs_of_isInfix (hread.isInfix h.within)] at hglyph
    have hin := hclass _ hglyph
    rw [show (Glyph.ascii b).char = Char.ofNat b.toNat from rfl, hp] at hin
    cases hin
  have hreturn := hmem 0x0D (by decide) hcr
  refine ⟨hstop, ?_, hreturn, hmem 0x0A (by decide) hlf⟩
  rw [← Template.normalizeLineEndings_of_not_mem hreturn]
  exact htext

end Abreast

/-! ### Enough fuel

A cursor with joined lines has less before it, so its loops are given less fuel. What they are given is
enough, so it may as well be the fuel of the other cursor. -/

namespace Scan

variable {options : ScanOptions} {source : Text} {c : Cursor}

/-- A loop that comes nearer to the end with every turn needs no more turns than there are characters. -/
theorem enough_fuel {α : Type} {loop : Nat → Cursor → α}
    (hend : ∀ fuel c, c.rest = [] → loop fuel c = loop 0 c)
    (hturn : ∀ m n c, c.rest <:+ source.glyphs →
      (∀ d : Cursor, d.rest <:+ source.glyphs → d.rest.length < c.rest.length → loop m d = loop n d) →
        loop (m + 1) c = loop (n + 1) c)
    (m n : Nat) {c : Cursor} (hc : c.rest <:+ source.glyphs) (hm : c.rest.length ≤ m)
    (hn : c.rest.length ≤ n) : loop m c = loop n c := by
  have hempty : ∀ {d : Cursor}, d.rest.length ≤ 0 → d.rest = [] := fun hd =>
    List.length_eq_zero_iff.mp (Nat.le_zero.mp hd)
  induction m generalizing n c with
  | zero => exact (hend n c (hempty hm)).symm
  | succ m ih =>
    cases n with
    | zero => exact hend (m + 1) c (hempty hn)
    | succ n =>
      refine hturn m n c hc fun d hd hshorter => ?_
      exact ih n hd (by omega) (by omega)

theorem andThen_congr {s : Scan} {next next' : Cursor → Scan}
    (h : s.failure = none → next s.cursor = next' s.cursor) : s.andThen next = s.andThen next' := by
  rw [andThen, andThen]
  cases hs : s.failure with
  | some f => rfl
  | none => rw [h hs]

/-- An attribute takes at least one character. -/
theorem attr_shorter (hc : c.rest <:+ source.glyphs) (hdone : (attr options c).failure = none) :
    (attr options c).cursor.rest.length < c.rest.length := by
  obtain ⟨name, hname, -⟩ := Cursor.exists_skipName c
  obtain ⟨space, hspace, -⟩ := Cursor.exists_skipSpace c.skipName
  rw [attr] at hdone ⊢
  dsimp only at hdone ⊢
  split at hdone
  · cases hdone
  · rename_i hne
    rw [if_neg hne]
    have htaken : 0 < name.length := by
      apply List.length_pos_iff.mpr
      rintro rfl
      rw [hname.textTo] at hne
      exact hne rfl
    have hlength := (hname.trans hspace).length
    rw [List.length_append] at hlength
    split
    · rename_i hat
      obtain ⟨g, -, hequals⟩ := Cursor.exists_of_isAt hat
      obtain ⟨space', hspace', -⟩ := Cursor.exists_skipSpace c.skipName.skipSpace.advance
      have hbefore := (hname.trans hspace).trans (hequals.trans hspace')
      obtain ⟨value, hvalue⟩ := (@attrValue_lays options source none _ (hbefore.isSuffix hc) rfl).onward
      change (attrValue options c.skipName.skipSpace.advance.skipSpace).cursor.rest.length < _
      have hall := (hbefore.trans hvalue).length
      simp only [List.length_append] at hall
      omega
    · change c.skipName.skipSpace.rest.length < _
      omega

theorem attrs_of_le {fuel : Nat} (hc : c.rest <:+ source.glyphs) (hfuel : c.rest.length ≤ fuel) :
    attrs options c.rest.length c = attrs options fuel c := by
  refine enough_fuel (fun n c hc => ?_) (fun m n c hc ih => ?_) _ _ hc (Nat.le_refl _) hfuel
  · obtain ⟨space, hspace, -⟩ := Cursor.exists_skipSpace c
    have hend : endsAttributes c.skipSpace = true := by
      rw [endsAttributes, Cursor.atEnd, (List.append_eq_nil_iff.mp (hspace.rest.symm.trans hc)).2]
      rfl
    cases n with
    | zero => rfl
    | succ n => simp [attrs, hend]
  · obtain ⟨space, hspace, -⟩ := Cursor.exists_skipSpace c
    have hcursor := hspace.isSuffix hc
    rw [attrs, attrs]
    split
    · rfl
    · refine andThen_congr fun hdone => ih _ ?_ ?_
      · obtain ⟨gs, hread⟩ := (@attr_lays options source none _ hcursor).onward
        exact hread.isSuffix hcursor
      · have hshorter := attr_shorter hcursor hdone
        have hlength := hspace.length
        omega

/-- Where a parameter may stand, it or the semicolon behind it takes at least one character. -/
theorem parameter_shorter (hmore : (c.atEnd || c.isAt ')') = false) :
    (if (parameterStop 0 c.rest c.position).isAt ';' then (parameterStop 0 c.rest c.position).advance
      else parameterStop 0 c.rest c.position).rest.length < c.rest.length := by
  obtain ⟨rest, p⟩ := c
  cases rest with
  | nil => cases hmore
  | cons g rest =>
    by_cases hsemicolon : g.char = ';'
    · have hstop : parameterStop 0 (g :: rest) p = ⟨g :: rest, p⟩ := by
        rw [parameterStop, if_pos ⟨rfl, .inl hsemicolon⟩]
      rw [hstop, if_pos (by simp [Cursor.isAt, Cursor.peek?, hsemicolon])]
      exact Nat.lt_succ_self _
    · have hclose : g.char ≠ ')' := by
        simpa [Cursor.atEnd, Cursor.isAt, Cursor.peek?] using hmore
      obtain ⟨depth, hstop⟩ : ∃ depth, parameterStop 0 (g :: rest) p =
          parameterStop depth rest (p.after g) := by
        rw [parameterStop, if_neg (by simp [hsemicolon, hclose])]
        exact ⟨_, rfl⟩
      obtain ⟨gs, hread⟩ := exists_parameterStop depth rest (p.after g)
      have hlength := hread.length
      dsimp only at hlength ⊢
      rw [hstop]
      split
      · rename_i hat
        obtain ⟨h, -, hadvance⟩ := Cursor.exists_of_isAt hat
        have hone := hadvance.length
        simp only [List.length_cons, List.length_nil] at hone ⊢
        omega
      · simp only [List.length_cons]
        omega

theorem blockParameters_of_le {fuel : Nat} (hc : c.rest <:+ source.glyphs)
    (hfuel : c.rest.length ≤ fuel) :
    blockParameters c.rest.length c = blockParameters fuel c := by
  refine enough_fuel (fun n c hc => ?_) (fun m n c hc ih => ?_) _ _ hc (Nat.le_refl _) hfuel
  · cases n with
    | zero => rfl
    | succ n => simp [blockParameters, Cursor.atEnd, hc]
  · rw [blockParameters, blockParameters]
    split
    · rfl
    · rename_i hmore
      have hshorter := parameter_shorter (Bool.eq_false_iff.mpr hmore)
      obtain ⟨gs, hread⟩ := (@blockParameters_lays ⟨false⟩ source none _ 1 hc).onward
      rw [blockParameters, if_neg hmore] at hread
      obtain ⟨space, hspace, -⟩ := Cursor.exists_skipSpace
        (if (parameterStop 0 c.rest c.position).isAt ';' then
          (parameterStop 0 c.rest c.position).advance
        else parameterStop 0 c.rest c.position)
      have hlength := hspace.length
      refine andThen_congr fun _ => ih _ (hread.isSuffix hc) ?_
      change (Cursor.skipSpace _).rest.length < _
      omega

theorem textRun_of_le {m n : Nat} (hc : c.rest <:+ source.glyphs) (hm : c.rest.length ≤ m)
    (hn : c.rest.length ≤ n) : textRun options m c = textRun options n c := by
  refine enough_fuel (fun n c hc => ?_) (fun m n c hc ih => ?_) _ _ hc hm hn
  · obtain ⟨rest, p⟩ := c
    obtain rfl : rest = [] := hc
    cases n <;> rfl
  · obtain ⟨gs, hread, -, -⟩ := Cursor.exists_seek (fun gs => endsText gs || beginsInterpolation gs) c
    rw [textRun, textRun]
    dsimp only
    split
    · rename_i hbegins
      obtain ⟨opening, hopening, hinner⟩ := Cursor.exists_of_beginsWith hbegins
      obtain ⟨inside, hinside, -, -⟩ := Cursor.exists_seek (Cursor.beginsWith ['\x7d', '\x7d'])
        ((c.seek fun gs => endsText gs || beginsInterpolation gs).advanceBy 2)
      obtain ⟨closing, hafter⟩ := Cursor.exists_advanceBy 2 (Cursor.seek
        (Cursor.beginsWith ['\x7d', '\x7d'])
        ((c.seek fun gs => endsText gs || beginsInterpolation gs).advanceBy 2))
      split
      · rfl
      · have hall := hread.trans ((hinner.trans hinside).trans hafter)
        refine andThen_congr fun _ => ih _ (hall.isSuffix hc) ?_
        have hlength := hall.length
        have htwo : opening.length = 2 := by rw [← List.length_map (f := Glyph.char), hopening]; rfl
        simp only [List.length_append] at hlength
        change (Cursor.advanceBy _ 2).rest.length < _
        omega
    · rfl

end Scan

/-! ### Constructs -/

/-- Two scans give the same lexemes, lines in expressions joined, and leave cursors that are abreast. -/
structure Scan.Abreast (source : Text) (s s' : Scan) : Prop where
  lexemes : s'.tokens.map Token.lexeme =
    s.tokens.map fun t => t.lexeme.recast Text.normalizeLineEndings
  cursor : Markup.Abreast source s.cursor s'.cursor
  failure : s'.failure.isSome = s.failure.isSome

namespace Scan

variable {source : Text} {c c' : Cursor}

theorem Abreast.andThen {s s' : Scan} {next next' : Cursor → Scan} (h : s.Abreast source s')
    (hnext : s.failure = none → (next s.cursor).Abreast source (next' s'.cursor)) :
    (s.andThen next).Abreast source (s'.andThen next') := by
  have hfailure := h.failure
  rw [Scan.andThen, Scan.andThen]
  cases hs : s.failure with
  | some f =>
    rw [hs] at hfailure
    obtain ⟨f', hs'⟩ := Option.isSome_iff_exists.mp hfailure
    rw [hs']
    exact h
  | none =>
    rw [hs] at hfailure
    rw [Option.isSome_eq_false_iff.mp hfailure |> Option.isNone_iff_eq_none.mp]
    have hrest := hnext hs
    refine ⟨?_, hrest.cursor, hrest.failure⟩
    rw [List.map_append, List.map_append, h.lexemes, hrest.lexemes]

theorem lineEndings_normalizeLineEndings (t : Text) :
    lineEndings ⟨false⟩ t.normalizeLineEndings = lineEndings ⟨false⟩ t :=
  Text.normalizeLineEndings_idem t

theorem decoded_normalizeLineEndings (t : Text) :
    decoded ⟨false⟩ t.normalizeLineEndings = decoded ⟨false⟩ t :=
  congrArg Reference.decode (Text.normalizeLineEndings_idem t)

theorem comment_abreast (h : Markup.Abreast source c c') (start start' : Cursor) :
    (comment ⟨false⟩ start c).Abreast source (comment ⟨false⟩ start' c') := by
  obtain ⟨hstop, htext⟩ := h.seek (@Blind.beginsWith '-' ['-', '>'] (Blind.not_isNewline (by decide)))
  obtain ⟨-, -, hend, -⟩ := Cursor.exists_seek (Cursor.beginsWith ['-', '-', '>']) c
  rw [comment, comment]
  dsimp only
  rw [hstop.atEnd]
  split
  · exact ⟨rfl, hstop, rfl⟩
  · rename_i hmore
    refine ⟨?_, hstop.advanceBy (Blind.not_isNewline (by decide)) (hend.resolve_left hmore), rfl⟩
    simp only [done, List.map_cons, List.map_nil, htext, lineEndings_normalizeLineEndings,
      Lexeme.recast]

theorem skipName_abreast (h : Markup.Abreast source c c') :
    Markup.Abreast source c.skipName c'.skipName ∧ c'.textTo c'.skipName = c.textTo c.skipName ∧
      0x0D ∉ c.textTo c.skipName ∧ 0x0A ∉ c.textTo c.skipName :=
  h.skipWhile (by decide) (by decide)

theorem endTag_abreast (h : Markup.Abreast source c c') (start start' : Cursor) :
    (endTag start c).Abreast source (endTag start' c') := by
  obtain ⟨hname, htext, -⟩ := skipName_abreast h.skipSpace
  have hstop := hname.skipSpace
  rw [endTag, endTag]
  dsimp only
  rw [htext, hstop.isAt (by decide)]
  split
  · exact ⟨rfl, h.skipSpace, rfl⟩
  · split
    · rename_i hat
      exact ⟨rfl, hstop.advance_isAt (by decide) hat, rfl⟩
    · exact ⟨rfl, hstop, rfl⟩

theorem attrValue_abreast (h : Markup.Abreast source c c') :
    (attrValue ⟨false⟩ c).Abreast source (attrValue ⟨false⟩ c') := by
  have hpeek : c'.peek? = c.peek?.map lineChar := by
    rw [Cursor.peek?, h.rest, head_joinLines, Cursor.peek?, Option.map_map]
    rfl
  rw [attrValue, attrValue, hpeek]
  cases hfirst : c.peek? with
  | none => exact ⟨rfl, h, rfl⟩
  | some q =>
    have hsame : CharClass.isQuote (lineChar q) = CharClass.isQuote q := by
      unfold lineChar
      split
      · rename_i hq
        rw [hq]
        decide
      · rfl
    dsimp only [Option.map_some]
    rw [hsame]
    split
    · rename_i hquote
      have hq : q = '\'' ∨ q = '"' := by simpa [CharClass.isQuote] using hquote
      have hnewline : CharClass.isNewline q = false := by
        rcases hq with rfl | rfl <;> decide
      have hline : lineChar q = q := by
        rcases hq with rfl | rfl <;> decide
      have hclass : ∀ x, CharClass.isNewline x = true → (x != q) = true := by
        rintro x hx
        rw [bne_iff_ne]
        rintro rfl
        rw [hnewline] at hx
        cases hx
      have hopen := h.advance_isAt hnewline (c := c) (by simp [Cursor.isAt, hfirst])
      obtain ⟨hstop, htext⟩ := hopen.seek (Blind.not_head (p := (· != q))
        ((hclass '\n' rfl).trans (hclass '\r' rfl).symm))
      rw [hline]
      change Markup.Abreast source (c.advance.skipWhile (· != q)) (c'.advance.skipWhile (· != q))
        at hstop
      rw [hstop.atEnd]
      split
      · exact ⟨rfl, hstop, rfl⟩
      · rename_i hmore
        obtain ⟨g, hg, hclose⟩ := Cursor.exists_of_skipWhile_ne (Bool.eq_false_iff.mpr hmore)
        refine ⟨?_, hstop.advance hclose (by rw [hg]; exact hnewline), rfl⟩
        change c'.advance.textTo (c'.advance.skipWhile (· != q)) = _ at htext
        simp only [done, List.map_cons, List.map_nil, Lexeme.recast, htext,
          decoded_normalizeLineEndings]
        rfl
    · obtain ⟨hstop, htext, -⟩ := skipName_abreast h
      rw [htext]
      split
      · exact ⟨rfl, h, rfl⟩
      · exact ⟨rfl, hstop, rfl⟩

theorem attr_abreast (h : Markup.Abreast source c c') :
    (attr ⟨false⟩ c).Abreast source (attr ⟨false⟩ c') := by
  obtain ⟨hname, htext, -⟩ := skipName_abreast h
  have hnext := hname.skipSpace
  rw [attr, attr]
  dsimp only
  rw [htext, hnext.isAt (by decide)]
  split
  · exact ⟨rfl, h, rfl⟩
  · split
    · rename_i hat
      have hvalue := (hnext.advance_isAt (by decide) hat).skipSpace
      exact Abreast.andThen ⟨rfl, hvalue, rfl⟩ fun _ => attrValue_abreast hvalue
    · exact ⟨rfl, hnext, rfl⟩

theorem endsAttributes_abreast (h : Markup.Abreast source c c') :
    endsAttributes c' = endsAttributes c := by
  rw [endsAttributes, endsAttributes, h.atEnd, h.isIn rfl]

theorem attrs_abreast (fuel : Nat) (h : Markup.Abreast source c c') :
    (attrs ⟨false⟩ fuel c).Abreast source (attrs ⟨false⟩ fuel c') := by
  induction fuel generalizing c c' with
  | zero => exact ⟨rfl, h.skipSpace, rfl⟩
  | succ fuel ih =>
    rw [attrs, attrs, endsAttributes_abreast h.skipSpace]
    split
    · exact ⟨rfl, h.skipSpace, rfl⟩
    · have hattr := attr_abreast h.skipSpace
      exact hattr.andThen fun _ => ih hattr.cursor

theorem startTagEnd_abreast (h : Markup.Abreast source c c') :
    (startTagEnd c).Abreast source (startTagEnd c') := by
  rw [startTagEnd, startTagEnd, h.isAt (by decide), h.isAt (by decide)]
  split
  · rename_i hslash
    have hnext := h.advance_isAt (by decide) hslash
    rw [hnext.isAt (by decide)]
    split
    · rename_i hclose
      exact ⟨rfl, hnext.advance_isAt (by decide) hclose, rfl⟩
    · exact ⟨rfl, hnext, rfl⟩
  · split
    · rename_i hclose
      exact ⟨rfl, h.advance_isAt (by decide) hclose, rfl⟩
    · exact ⟨rfl, h, rfl⟩

theorem rawText_abreast {name : Text} (hcr : 0x0D ∉ name) (hlf : 0x0A ∉ name)
    (h : Markup.Abreast source c c') :
    (rawText ⟨false⟩ name c).Abreast source (rawText ⟨false⟩ name c') := by
  obtain ⟨hstop, htext⟩ := h.seek (Blind.beginsEndTag hcr hlf)
  rw [rawText, rawText, htext, Text.isEmpty_normalizeLineEndings]
  split
  · exact ⟨rfl, hstop, rfl⟩
  · refine ⟨?_, hstop, rfl⟩
    simp only [done, List.map_cons, List.map_nil, lineEndings_normalizeLineEndings, Lexeme.recast]

theorem startTag_abreast (h : Markup.Abreast source c c') (start start' : Cursor) :
    (startTag ⟨false⟩ start c).Abreast source (startTag ⟨false⟩ start' c') := by
  obtain ⟨hname, htext, hcr, hlf⟩ := skipName_abreast h
  rw [startTag, startTag, h.isIn (by decide)]
  split
  · exact ⟨rfl, h, rfl⟩
  · dsimp only
    rw [htext]
    have hattrs : ((done [⟨.tagOpenStart (c.textTo c.skipName), start.spanTo c.skipName⟩]
        c.skipName).andThen fun c => attrs ⟨false⟩ c.rest.length c).Abreast source
        ((done [⟨.tagOpenStart (c.textTo c.skipName), start'.spanTo c'.skipName⟩]
          c'.skipName).andThen fun c => attrs ⟨false⟩ c.rest.length c) := by
      refine Abreast.andThen ⟨rfl, hname, rfl⟩ fun _ => ?_
      obtain ⟨source', hsource⟩ := hname.within_joined
      change (attrs _ c.skipName.rest.length c.skipName).Abreast source
        (attrs _ c'.skipName.rest.length c'.skipName)
      rw [attrs_of_le hsource hname.length_le]
      exact attrs_abreast _ hname
    refine hattrs.andThen fun _ => ?_
    refine (startTagEnd_abreast hattrs.cursor).andThen fun _ => ?_
    rw [hattrs.cursor.isAt (by decide)]
    have hend := (startTagEnd_abreast hattrs.cursor).cursor
    split
    · exact rawText_abreast hcr hlf hend
    · exact ⟨rfl, hend, rfl⟩

theorem parameterStop_joinLines (depth : Nat) (gs : List Glyph) (p p' : Position) :
    Cut gs (parameterStop depth gs p).rest ∧
      (parameterStop depth (joinLines gs) p').rest = joinLines (parameterStop depth gs p).rest := by
  induction gs using lines_induction generalizing depth p p' with
  | nil => exact ⟨.refl _, rfl⟩
  | crlf b b' rest ih =>
    obtain ⟨hcut, hrest⟩ := ih depth ((p.after ⟨'\r', b⟩).after ⟨'\n', b'⟩) (p'.after ⟨'\n', b'⟩)
    rw [joinLines_crlf]
    simp only [parameterStop, Char.reduceEq, or_self, and_false, if_false]
    exact ⟨hcut.lineEnding b b', hrest⟩
  | cr b rest hrest ih =>
    obtain ⟨hcut, hsame⟩ := ih depth (p.after ⟨'\r', b⟩) (p'.after (Glyph.ascii 0x0A))
    have hchar : (Glyph.ascii 0x0A).char = '\n' := rfl
    rw [joinLines_cr rfl hrest]
    simp only [parameterStop, hchar, Char.reduceEq, or_self, and_false, if_false]
    exact ⟨hcut.cr b hrest, hsame⟩
  | other g rest hg ih =>
    rw [joinLines_cons hg, parameterStop, parameterStop]
    split
    · exact ⟨.refl _, (joinLines_cons hg rest).symm⟩
    · obtain ⟨hcut, hsame⟩ := ih (if g.char = '(' then depth + 1 else if g.char = ')' then depth - 1
        else depth) (p.after g) (p'.after g)
      exact ⟨hcut.cons hg, hsame⟩

theorem blockParameters_abreast (fuel : Nat) (h : Markup.Abreast source c c') :
    (blockParameters fuel c).Abreast source (blockParameters fuel c') := by
  induction fuel generalizing c c' with
  | zero => exact ⟨rfl, h, rfl⟩
  | succ fuel ih =>
    rw [blockParameters, blockParameters, h.atEnd, h.isAt (by decide)]
    split
    · exact ⟨rfl, h, rfl⟩
    · obtain ⟨hcut, hrest⟩ := parameterStop_joinLines 0 c.rest c.position c'.position
      rw [← h.rest] at hrest
      obtain ⟨gs, hread⟩ := exists_parameterStop 0 c.rest c.position
      have hstop : Markup.Abreast source (parameterStop 0 c.rest c.position)
          (parameterStop 0 c'.rest c'.position) := ⟨hread.isSuffix h.within, hrest⟩
      have hnext : Markup.Abreast source
          (if (parameterStop 0 c.rest c.position).isAt ';' then
            (parameterStop 0 c.rest c.position).advance else parameterStop 0 c.rest c.position)
          (if (parameterStop 0 c'.rest c'.position).isAt ';' then
            (parameterStop 0 c'.rest c'.position).advance
            else parameterStop 0 c'.rest c'.position) := by
        rw [hstop.isAt (by decide)]
        split
        · rename_i hat
          exact hstop.advance_isAt (by decide) hat
        · exact hstop
      have hlexeme : (c'.textTo (parameterStop 0 c'.rest c'.position)).trim =
          (c.textTo (parameterStop 0 c.rest c.position)).trim.normalizeLineEndings := by
        rw [h.textTo hcut hrest, Text.trim_normalizeLineEndings]
      apply Abreast.andThen
      · refine ⟨?_, ?_, ?_⟩
        · simp only [done, List.map_cons, List.map_nil, hlexeme, Lexeme.recast]
        · exact hnext.skipSpace
        · rfl
      · intro _
        exact ih hnext.skipSpace

theorem brace_abreast {tokens tokens' : List Token} {name : Text} {start start' : Cursor}
    (hlexemes : tokens'.map Token.lexeme =
      tokens.map fun t => t.lexeme.recast Text.normalizeLineEndings)
    (h : Markup.Abreast source c c') :
    (if c.isAt '\x7b' then done (tokens ++ [⟨.blockOpenEnd, c.spanTo c.advance⟩]) c.advance
      else failed [] c (.incompleteBlock name) start).Abreast source
      (if c'.isAt '\x7b' then done (tokens' ++ [⟨.blockOpenEnd, c'.spanTo c'.advance⟩]) c'.advance
        else failed [] c' (.incompleteBlock name) start') := by
  rw [h.isAt (by decide)]
  split
  · rename_i hat
    refine ⟨?_, h.advance_isAt (by decide) hat, rfl⟩
    simp only [done, List.map_append, hlexemes, List.map_cons, List.map_nil, Lexeme.recast]
  · exact ⟨rfl, h, rfl⟩

theorem blockHeader_abreast (h : Markup.Abreast source c c') (hat : c.isAt '@' = true) :
    (blockHeader c).Abreast source (blockHeader c') := by
  obtain ⟨hname, htext, -⟩ := (h.advance_isAt (by decide) hat).skipWhile
    (p := CharClass.isBlockName) (by decide) (by decide)
  have hafter := hname.skipSpace
  rw [blockHeader, blockHeader]
  dsimp only
  rw [hafter.isAt (by decide), htext]
  split
  · rename_i hparen
    have hfirst := (hafter.advance_isAt (by decide) hparen).skipSpace
    obtain ⟨source', hsource⟩ := hfirst.within_joined
    rw [blockParameters_of_le hsource hfirst.length_le]
    have hparameters := blockParameters_abreast
      (c.advance.skipWhile CharClass.isBlockName).skipSpace.advance.skipSpace.rest.length hfirst
    have hstop := hparameters.cursor.skipSpace
    rw [hstop.isAt (by decide)]
    split
    · rename_i hclose
      refine brace_abreast ?_ (hstop.advance_isAt (by decide) hclose).skipSpace
      simp only [List.map_cons, hparameters.lexemes, Lexeme.recast]
    · exact ⟨rfl, hstop, rfl⟩
  · exact brace_abreast rfl hafter

theorem textToken_lexemes {d d' : Cursor}
    (htext : c'.textTo d' = (c.textTo d).normalizeLineEndings) :
    (textToken ⟨false⟩ c' d').map Token.lexeme =
      (textToken ⟨false⟩ c d).map fun t => t.lexeme.recast Text.normalizeLineEndings := by
  rw [textToken, textToken, htext, Text.isEmpty_normalizeLineEndings]
  split
  · rfl
  · simp only [List.map_cons, List.map_nil, decoded_normalizeLineEndings, Lexeme.recast]

theorem textRun_abreast (fuel : Nat) (h : Markup.Abreast source c c') :
    (textRun ⟨false⟩ fuel c).Abreast source (textRun ⟨false⟩ fuel c') := by
  induction fuel generalizing c c' with
  | zero => exact ⟨rfl, h, rfl⟩
  | succ fuel ih =>
    obtain ⟨hstop, htext⟩ := h.seek (Blind.endsText.or Blind.beginsInterpolation)
    have hbefore := textToken_lexemes htext
    rw [textRun, textRun]
    dsimp only
    rw [show beginsInterpolation (c'.seek fun gs => endsText gs || beginsInterpolation gs).rest =
      beginsInterpolation (c.seek fun gs => endsText gs || beginsInterpolation gs).rest by
        rw [hstop.rest, Blind.beginsInterpolation.join]]
    split
    · rename_i hbegins
      have hinner := hstop.advanceBy (s := ['\x7b', '\x7b']) (Blind.not_isNewline (by decide)) hbegins
      obtain ⟨hclose, hexpression⟩ :=
        hinner.seek (@Blind.beginsWith '\x7d' ['\x7d'] (Blind.not_isNewline (by decide)))
      obtain ⟨-, -, hend, -⟩ := Cursor.exists_seek (Cursor.beginsWith ['\x7d', '\x7d'])
        ((c.seek fun gs => endsText gs || beginsInterpolation gs).advanceBy 2)
      simp only [List.length_cons, List.length_nil] at hclose hexpression
      rw [hclose.atEnd]
      split
      · exact ⟨hbefore, hclose, rfl⟩
      · rename_i hmore
        have hafter := hclose.advanceBy (s := ['\x7d', '\x7d']) (Blind.not_isNewline (by decide))
          (hend.resolve_left hmore)
        refine Abreast.andThen ⟨?_, hafter, rfl⟩ fun _ => ih hafter
        simp only [done, List.map_append, hbefore, List.map_cons, List.map_nil, hexpression,
          Lexeme.recast]
    · exact ⟨hbefore, hstop, rfl⟩

theorem isBefore_abreast (h : Markup.Abreast source c c') {s : String} {x : Char} {cs : List Char}
    (hs : s.toList = x :: cs) (hchars : ∀ y ∈ x :: cs, CharClass.isNewline y = false) :
    c'.isBefore s = c.isBefore s := by
  rw [Cursor.isBefore, Cursor.isBefore, hs, h.rest, (Blind.beginsWith hchars).join]

/-- Whatever construct comes next is the same for both cursors. -/
theorem next_abreast (h : Markup.Abreast source c c') :
    (next ⟨false⟩ c).Abreast source (next ⟨false⟩ c') := by
  rw [next, next, isBefore_abreast h (s := "<!--") rfl (Blind.not_isNewline (by decide)),
    isBefore_abreast h (s := "</") rfl (Blind.not_isNewline (by decide)), h.isAt (by decide),
    h.isAt (by decide)]
  split
  · rename_i hbefore
    exact comment_abreast
      (h.advanceBy (s := "<!--".toList) (Blind.not_isNewline (by decide)) hbefore) c c'
  split
  · rename_i hbefore
    exact endTag_abreast
      (h.advanceBy (s := "</".toList) (Blind.not_isNewline (by decide)) hbefore) c c'
  split
  · rename_i hat
    exact startTag_abreast (h.advance_isAt (by decide) hat) c c'
  rw [h.rest, Blind.beginsBlock.join]
  split
  · rename_i hblock
    apply blockHeader_abreast h
    cases hrest : c.rest with
    | nil =>
      rw [hrest] at hblock
      cases hblock
    | cons g rest =>
      rw [hrest, beginsBlock] at hblock
      simpa [Cursor.isAt, Cursor.peek?, hrest] using (Bool.and_eq_true_iff.mp hblock).1
  split
  · rename_i hat
    exact ⟨rfl, h.advance_isAt (by decide) hat, rfl⟩
  · obtain ⟨source', hsource⟩ := h.within_joined
    have hlength := h.length_le
    rw [← h.rest, textRun_of_le hsource (Nat.le_succ _) (Nat.le_succ_of_le hlength)]
    exact textRun_abreast _ h

end Scan

/-! ### Whole sources -/

namespace TokenStream

variable {source : Text} {c c' : Cursor}

theorem resume_next {options : ScanOptions} (hc : c.rest <:+ source.glyphs) (hmore : c.atEnd = false) :
    resume c (Scan.next options c) = (Scan.next options c).cursor ∧
      (Scan.next options c).cursor.rest <:+ source.glyphs ∧
      (Scan.next options c).cursor.rest.length < c.rest.length := by
  obtain ⟨gs, honward⟩ := (@Scan.next_lays options source none c hc hmore).onward
  obtain ⟨g, hstep⟩ := Cursor.exists_of_not_atEnd hmore
  have hall := hstep.trans honward
  have hlength := hall.length
  rw [List.length_append, List.length_singleton] at hlength
  exact ⟨resume_eq_cursor hc hmore honward, hall.isSuffix hc, by omega⟩

theorem readFrom_of_le {options : ScanOptions} {fuel : Nat} (hc : c.rest <:+ source.glyphs)
    (hfuel : c.rest.length ≤ fuel) :
    readFrom options c.rest.length c = readFrom options fuel c := by
  refine Scan.enough_fuel (fun n c hc => ?_) (fun m n c hc ih => ?_) _ _ hc (Nat.le_refl _) hfuel
  · cases n with
    | zero => rfl
    | succ n => simp [readFrom, Cursor.atEnd, hc]
  · rw [readFrom, readFrom]
    split
    · rfl
    · rename_i hmore
      obtain ⟨hresume, hwithin, hshorter⟩ :=
        @resume_next source c options hc (Bool.eq_false_iff.mpr hmore)
      dsimp only
      rw [hresume, ih _ hwithin hshorter]

theorem readFrom_abreast (fuel : Nat) (h : Abreast source c c') :
    (readFrom ⟨false⟩ fuel c').tokens.map Token.lexeme =
        (readFrom ⟨false⟩ fuel c).tokens.map (fun t => t.lexeme.recast Text.normalizeLineEndings) ∧
      (readFrom ⟨false⟩ fuel c').diagnostics.length = (readFrom ⟨false⟩ fuel c).diagnostics.length := by
  induction fuel generalizing c c' with
  | zero => exact ⟨rfl, rfl⟩
  | succ fuel ih =>
    have hend := h.atEnd
    rw [readFrom, readFrom, hend]
    cases hmore : c.atEnd with
    | true => exact ⟨rfl, rfl⟩
    | false =>
      rw [hmore] at hend
      obtain ⟨source', hsource⟩ := h.within_joined
      have hnext := Scan.next_abreast h
      obtain ⟨hlexemes, hcount⟩ := ih hnext.cursor
      have hproblem : (diagnosticOf (Scan.next ⟨false⟩ c')).length =
          (diagnosticOf (Scan.next ⟨false⟩ c)).length := by
        have hfailure := hnext.failure
        rw [diagnosticOf, diagnosticOf]
        cases hs : (Scan.next ⟨false⟩ c).failure <;> cases hs' : (Scan.next ⟨false⟩ c').failure <;>
          simp_all
      rw [if_neg (by decide), if_neg (by decide)]
      dsimp only
      rw [(resume_next h.within hmore).1, (resume_next hsource hend).1, List.map_append,
        List.map_append, hnext.lexemes, hlexemes, List.length_append, List.length_append, hproblem,
        hcount]
      exact ⟨rfl, rfl⟩

/-- With its lines joined a source has the same lexemes, lines in expressions joined, and as many
problems. -/
theorem ofText_normalizeLineEndings (t : Text) :
    (ofText ⟨false⟩ t.normalizeLineEndings).tokens.map Token.lexeme =
        (ofText ⟨false⟩ t).tokens.map (fun u => u.lexeme.recast Text.normalizeLineEndings) ∧
      (ofText ⟨false⟩ t.normalizeLineEndings).diagnostics.length =
        (ofText ⟨false⟩ t).diagnostics.length := by
  have h : Abreast t (.ofText t) (.ofText t.normalizeLineEndings) :=
    ⟨List.suffix_rfl, Text.glyphs_normalizeLineEndings t⟩
  obtain ⟨source', hsource⟩ := h.within_joined
  have hfuel := @readFrom_of_le _ _ ⟨false⟩ _ hsource h.length_le
  change ofText ⟨false⟩ t.normalizeLineEndings = _ at hfuel
  rw [hfuel]
  exact readFrom_abreast _ h

end TokenStream

end Markup

end Stencil
