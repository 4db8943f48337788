import Stencil.Source

/-!
# Excerpts are as long as they may be

An excerpt is limited twice, by its bytes and by its line feeds, and the limits hold on either side of a position. On
each side it is the longest stretch that respects both: a longer one has a byte too many or reaches into one line too
many. The two sides are found by different loops, but going back from the position is going forward in the reversed
text, `slice_startBefore`, so one argument does for both.

`excerpt_longest` says so of every position of every source, and that in a message the mark stands at the position,
within a stretch of the source that has no gap.
-/

namespace Stencil

/-! ### The longest stretch that fits -/

/-- At most so many bytes and fewer than so many line feeds. -/
structure Fits (bytes lines : Nat) (t : Text) : Prop where
  length_le : t.length ≤ bytes
  count_lt : t.count 0x0A < lines

/-- The longest beginning of a text that fits. -/
structure IsLongestFront (bytes lines : Nat) (t w : Text) : Prop where
  front : w <+: t
  fits : Fits bytes lines w
  longest : ∀ other, other <+: t → Fits bytes lines other → other.length ≤ w.length

/-- The longest end of a text that fits. -/
structure IsLongestBack (bytes lines : Nat) (t w : Text) : Prop where
  back : w <:+ t
  fits : Fits bytes lines w
  longest : ∀ other, other <:+ t → Fits bytes lines other → other.length ≤ w.length

variable {bytes lines : Nat}

theorem fits_nil (hlines : 1 ≤ lines) : Fits bytes lines [] := ⟨Nat.zero_le _, hlines⟩

theorem fits_reverse {t : Text} : Fits bytes lines (List.reverse t) ↔ Fits bytes lines t := by
  constructor
  · rintro ⟨hlength, hcount⟩
    rw [List.length_reverse] at hlength
    rw [List.count_reverse] at hcount
    exact ⟨hlength, hcount⟩
  · rintro ⟨hlength, hcount⟩
    exact ⟨by rwa [List.length_reverse], by rwa [List.count_reverse]⟩

/-- A line feed takes a byte and a line. -/
theorem fits_lineFeed {t : Text} : Fits (bytes + 1) (lines + 1) (0x0A :: t) ↔ Fits bytes lines t := by
  constructor
  · rintro ⟨hlength, hcount⟩
    rw [List.length_cons] at hlength
    rw [List.count_cons_self] at hcount
    constructor <;> omega
  · rintro ⟨hlength, hcount⟩
    constructor
    · rw [List.length_cons]
      omega
    · rw [List.count_cons_self]
      omega

/-- Any other byte takes a byte only. -/
theorem fits_cons {b : UInt8} (hb : b ≠ 0x0A) {t : Text} : Fits (bytes + 1) lines (b :: t) ↔ Fits bytes lines t := by
  constructor
  · rintro ⟨hlength, hcount⟩
    rw [List.length_cons] at hlength
    rw [List.count_cons_of_ne hb] at hcount
    constructor <;> omega
  · rintro ⟨hlength, hcount⟩
    constructor
    · rw [List.length_cons]
      omega
    · rw [List.count_cons_of_ne hb]
      omega

/-- Nothing is taken where one byte would be too much. -/
theorem isLongestFront_nothing {b : UInt8} {rest : Text} (hlines : 1 ≤ lines)
    (hnone : ∀ t, ¬ Fits bytes lines (b :: t)) : IsLongestFront bytes lines (b :: rest) [] := by
  refine ⟨List.nil_prefix, fits_nil hlines, ?_⟩
  intro other hother hfits
  cases other with
  | nil => exact Nat.le_refl _
  | cons c other =>
    obtain ⟨rfl, _⟩ := List.cons_prefix_cons.mp hother
    exact absurd hfits (hnone other)

/-- A byte that fits is taken, and after it as much as still fits. -/
theorem IsLongestFront.cons {fewer remaining : Nat} {b : UInt8} {rest w : Text}
    (h : IsLongestFront fewer remaining rest w)
    (hfits : ∀ t, Fits bytes lines (b :: t) ↔ Fits fewer remaining t) :
    IsLongestFront bytes lines (b :: rest) (b :: w) := by
  refine ⟨List.cons_prefix_cons.mpr ⟨rfl, h.front⟩, (hfits w).mpr h.fits, ?_⟩
  intro other hother hfit
  cases other with
  | nil => exact Nat.zero_le _
  | cons c other =>
    obtain ⟨rfl, htail⟩ := List.cons_prefix_cons.mp hother
    exact Nat.succ_le_succ (h.longest other htail ((hfits other).mp hfit))

theorem isLongestFront_window (bytes lines : Nat) (hlines : 1 ≤ lines) (t : Text) :
    IsLongestFront bytes lines t (window bytes lines t) := by
  induction t generalizing bytes lines with
  | nil =>
    rw [window]
    refine ⟨List.prefix_refl _, fits_nil hlines, fun other hother _ => ?_⟩
    exact Nat.le_of_eq (congrArg List.length (List.prefix_nil.mp hother))
  | cons b rest ih =>
    cases bytes with
    | zero => exact isLongestFront_nothing hlines fun t h => absurd h.length_le (Nat.not_succ_le_zero _)
    | succ bytes =>
      obtain ⟨lines, rfl⟩ := Nat.exists_eq_add_of_le' hlines
      rw [window]
      by_cases hb : b = 0x0A
      · subst hb
        rw [if_pos rfl]
        cases lines with
        | zero =>
          -- The line feed that ends the last line is left out.
          refine isLongestFront_nothing hlines fun t h => ?_
          exact absurd (fits_lineFeed.mp h).count_lt (Nat.not_lt_zero _)
        | succ lines => exact (ih bytes (lines + 1) (Nat.le_add_left 1 lines)).cons fun t => fits_lineFeed
      · rw [if_neg hb]
        exact (ih bytes (lines + 1) hlines).cons fun t => fits_cons hb

/-- The longest end is the longest beginning of the reversed text, read backwards. -/
theorem IsLongestFront.reverse {t w : Text} (h : IsLongestFront bytes lines (List.reverse t) w) :
    IsLongestBack bytes lines t (List.reverse w) := by
  refine ⟨?_, fits_reverse.mpr h.fits, ?_⟩
  · rw [← List.reverse_prefix, List.reverse_reverse]
    exact h.front
  · intro other hother hfits
    have hle := h.longest (List.reverse other) (List.reverse_prefix.mpr hother) (fits_reverse.mpr hfits)
    rwa [List.length_reverse] at hle ⊢

/-! ### Going back -/

theorem startBefore_le (t : Text) (bytes lines place : Nat) : startBefore t bytes lines place ≤ place := by
  induction bytes generalizing lines place with
  | zero => exact Nat.le_refl place
  | succ bytes ih =>
    cases place with
    | zero => exact Nat.le_refl 0
    | succ start =>
      rw [startBefore]
      split
      · split
        · exact Nat.le_refl _
        · exact Nat.le_succ_of_le (ih _ start)
      · exact Nat.le_succ_of_le (ih _ start)

/-- What is passed over going back from a place is what the window shows of the text before it, read backwards. -/
theorem slice_startBefore (s : Source) (bytes lines : Nat) {place : Nat} (hplace : place ≤ s.text.length) :
    s.slice (startBefore s.text bytes lines place) place =
      (window bytes lines (s.text.take place).reverse).reverse := by
  rw [Source.slice]
  induction bytes generalizing lines place with
  | zero =>
    have hnothing : window 0 lines (List.reverse (s.text.take place)) = [] := by
      cases List.reverse (s.text.take place) <;> rfl
    rw [startBefore, hnothing, List.drop_of_length_le (List.length_take_le _ _)]
    rfl
  | succ bytes ih =>
    cases place with
    | zero => rfl
    | succ start =>
      have hstart : start ≤ s.text.length := Nat.le_of_succ_le hplace
      obtain ⟨b, hb⟩ : ∃ b, s.text[start]? = some b := ⟨_, List.getElem?_eq_getElem hplace⟩
      -- A byte that is passed over is the last of the stretch, and the first of the reversed text.
      have hpassed : ∀ remaining, (s.text.take start ++ [b]).drop (startBefore s.text bytes remaining start) =
          List.reverse (b :: window bytes remaining (List.reverse (s.text.take start))) := by
        intro remaining
        have hle : startBefore s.text bytes remaining start ≤ (s.text.take start).length := by
          rw [List.length_take, Nat.min_eq_left hstart]
          exact startBefore_le s.text bytes remaining start
        rw [List.drop_append_of_le_length hle, ih remaining hstart, List.reverse_cons]
      rw [startBefore, hb, List.take_add_one, hb, Option.toList_some, List.reverse_append, List.reverse_singleton,
        List.singleton_append, window]
      by_cases hfeed : b = 0x0A
      · rw [if_pos (congrArg some hfeed), if_pos hfeed]
        split
        · have hlength : (s.text.take start ++ [b]).length ≤ start + 1 := by
            rw [List.length_append, List.length_take, List.length_singleton]
            omega
          rw [List.drop_of_length_le hlength]
          rfl
        · exact hpassed (lines - 1)
      · rw [if_neg (fun h => hfeed (Option.some.inj h)), if_neg hfeed]
        exact hpassed lines

/-! ### Excerpts -/

theorem Source.excerpt_min (s : Source) (offset bytes lines : Nat) :
    s.excerpt (min offset s.text.length) bytes lines = s.excerpt offset bytes lines := by
  rw [Source.excerpt, Source.excerpt, Nat.min_assoc, Nat.min_self]

/-- The two parts of an excerpt, each as long as it may be. -/
structure IsExcerpt (s : Source) (offset bytes lines : Nat) (e : Excerpt) : Prop where
  before : IsLongestBack bytes lines (s.text.take offset) e.before
  after : IsLongestFront bytes lines (s.text.drop offset) e.after

theorem isExcerpt_excerpt (s : Source) {offset : Nat} (hoffset : offset ≤ s.text.length) (bytes lines : Nat)
    (hlines : 1 ≤ lines) : IsExcerpt s offset bytes lines (s.excerpt offset bytes lines) := by
  rw [Source.excerpt, Nat.min_eq_left hoffset, slice_startBefore s bytes lines hoffset]
  exact ⟨(isLongestFront_window bytes lines hlines _).reverse, isLongestFront_window bytes lines hlines _⟩

/-- What an excerpt shows is one stretch of the source, with the position inside it. -/
theorem IsExcerpt.exists_append {s : Source} {offset : Nat} {e : Excerpt} (h : IsExcerpt s offset bytes lines e)
    (hoffset : offset ≤ s.text.length) :
    ∃ front back, s.text = front ++ (e.before ++ e.after) ++ back ∧ front.length + e.before.length = offset := by
  obtain ⟨front, hfront⟩ := h.before.back
  obtain ⟨back, hback⟩ := h.after.front
  refine ⟨front, back, ?_, ?_⟩
  · rw [← List.append_assoc, hfront, List.append_assoc, hback, List.take_append_drop]
  · rw [← List.length_append, hfront, List.length_take, Nat.min_eq_left hoffset]

/-- The source around a position is on either side the longest stretch within the limits, a position beyond the end
being the end. A message shows it with its line feeds written out: the parts before and after the mark are one
stretch of the source, and the mark stands in it where the position is. -/
theorem excerpt_longest (s : Source) (p : Position) (bytes lines : Nat) (hlines : 1 ≤ lines) :
    let offset := min p.offset s.text.length
    (∃ e, Location.excerpt ⟨some s, some p⟩ bytes lines = some e ∧ IsExcerpt s offset bytes lines e) ∧
      ∀ message : Text, ∃ e front back, IsExcerpt s offset 100 3 e ∧
        s.text = front ++ (e.before ++ e.after) ++ back ∧ front.length + e.before.length = offset ∧
        annotate message (some ⟨some s, some p⟩) =
          message ++ " (\"" ++ Excerpt.flat e.before ++ "[ERROR ->]" ++ Excerpt.flat e.after ++ "\")" ∧
        Excerpt.flat e.before ++ Excerpt.flat e.after = Excerpt.flat (e.before ++ e.after) := by
  intro offset
  have hlocated : ∀ bytes lines, Location.excerpt ⟨some s, some p⟩ bytes lines =
      some (s.excerpt offset bytes lines) := fun bytes lines => congrArg some (s.excerpt_min p.offset bytes lines).symm
  have hoffset : offset ≤ s.text.length := Nat.min_le_right _ _
  refine ⟨⟨_, hlocated bytes lines, isExcerpt_excerpt s hoffset bytes lines hlines⟩, fun message => ?_⟩
  have hexcerpt := isExcerpt_excerpt s hoffset 100 3 (by decide)
  obtain ⟨front, back, hsource, hlength⟩ := hexcerpt.exists_append hoffset
  refine ⟨_, front, back, hexcerpt, hsource, hlength, ?_, List.flatMap_append.symm⟩
  rw [annotate, Option.bind_some, hlocated]
  dsimp only
  rw [Excerpt.toText]
  simp only [List.append_assoc]
  rfl

/-- Before the position the limit of lines is met first, behind it that of bytes. -/
theorem excerpt_longest_between_lines :
    let s : Source := ⟨"a\nb\ncd\nefghi", "a.html"⟩
    1 ≤ 2 ∧ Location.excerpt ⟨some s, some ⟨5, 2, 1⟩⟩ 5 2 = some ⟨"b\nc", "d\nefg"⟩ ∧
      ∃ e, Location.excerpt ⟨some s, some ⟨5, 2, 1⟩⟩ 5 2 = some e ∧ IsExcerpt s 5 5 2 e :=
  ⟨by decide, rfl, (excerpt_longest ⟨"a\nb\ncd\nefghi", "a.html"⟩ ⟨5, 2, 1⟩ 5 2 (by decide)).1⟩

end Stencil
