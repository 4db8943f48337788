import Stencil.Markup.Scan
import Stencil.Proofs.Glyphs

/-!
# Reading off a known beginning

Where a cursor comes to when it is known what it reads first. The rest is never looked into beyond its
first characters, so each fact holds whatever comes after. The other way round, what a cursor has passed
over is a run of glyphs that leads from one cursor to the next, and such runs can be put together.
-/

namespace Stencil

/-- The position after some more characters. -/
def Position.afterAll (p : Position) (gs : List Glyph) : Position := gs.foldl Position.after p

namespace Position

theorem offset_after (p : Position) (g : Glyph) : (p.after g).offset = p.offset + g.bytes.length := by
  unfold after
  split
  · rfl
  · split <;> rfl

theorem afterAll_append (p : Position) (first others : List Glyph) :
    p.afterAll (first ++ others) = (p.afterAll first).afterAll others :=
  List.foldl_append

theorem le_offset_afterAll (p : Position) (gs : List Glyph) :
    p.offset ≤ (p.afterAll gs).offset := by
  induction gs generalizing p with
  | nil => exact Nat.le_refl _
  | cons g gs ih =>
    have hstep := ih (p.after g)
    rw [offset_after] at hstep
    exact Nat.le_trans (Nat.le_add_right _ _) hstep

theorem offset_afterAll (p : Position) (gs : List Glyph) :
    (p.afterAll gs).offset = p.offset + (Text.ofGlyphs gs).length := by
  induction gs generalizing p with
  | nil => rfl
  | cons g gs ih =>
    have hsplit : p.afterAll (g :: gs) = (p.after g).afterAll gs := rfl
    have hbytes : Text.ofGlyphs (g :: gs) = g.bytes ++ Text.ofGlyphs gs := rfl
    rw [hsplit, ih, offset_after, hbytes, List.length_append, Nat.add_assoc]

/-- Characters that have bytes move a position forward. -/
theorem offset_afterAll_ne (p : Position) {g : Glyph} (gs : List Glyph) (hg : g.bytes ≠ []) :
    (p.afterAll (g :: gs)).offset ≠ p.offset := by
  have hlater := le_offset_afterAll (p.after g) gs
  rw [offset_after] at hlater
  have hlength : 0 < g.bytes.length := List.length_pos_iff.mpr hg
  have hsplit : p.afterAll (g :: gs) = (p.after g).afterAll gs := rfl
  rw [hsplit]
  omega

end Position

namespace Markup.Cursor

variable {gs rest : List Glyph}

theorem advance_cons (g : Glyph) (rest : List Glyph) (p : Position) :
    advance ⟨g :: rest, p⟩ = ⟨rest, p.afterAll [g]⟩ := rfl

theorem textTo_append (gs rest : List Glyph) (p q : Position) :
    textTo ⟨gs ++ rest, p⟩ ⟨rest, q⟩ = Text.ofGlyphs gs := by
  rw [textTo, List.length_append, Nat.add_sub_cancel, List.take_left]

theorem seek_append {stop : List Glyph → Bool} (hgs : ∀ g ∈ gs, ∀ more, stop (g :: more) = false)
    (hrest : rest = [] ∨ stop rest = true) (p : Position) :
    seek stop ⟨gs ++ rest, p⟩ = ⟨rest, p.afterAll gs⟩ := by
  unfold seek
  induction gs generalizing p with
  | nil =>
    cases rest with
    | nil => rfl
    | cons g rest =>
      have hstop : stop (g :: rest) = true := hrest.resolve_left (by simp)
      rw [List.nil_append, seekFrom, if_pos hstop]
      rfl
  | cons g gs ih =>
    rw [List.cons_append, seekFrom, if_neg (by simp [hgs g (by simp)])]
    exact ih (fun h hh => hgs h (by simp [hh])) (p.after g)

/-- At the end a search stops anyway. -/
theorem seek_congr {stop stop' : List Glyph → Bool} (h : ∀ g gs, stop (g :: gs) = stop' (g :: gs))
    (c : Cursor) : c.seek stop = c.seek stop' := by
  obtain ⟨rest, p⟩ := c
  unfold seek
  induction rest generalizing p with
  | nil => rfl
  | cons g rest ih =>
    dsimp only at ih ⊢
    rw [seekFrom, seekFrom, h, ih]

theorem seek_eq_self {stop : List Glyph → Bool} {c : Cursor} (h : stop c.rest = true) : c.seek stop = c :=
  @seek_append [] c.rest stop (by simp) (.inr h) c.position

theorem seek_advance {stop : List Glyph → Bool} {c : Cursor} (h : stop c.rest = false) :
    c.advance.seek stop = c.seek stop := by
  obtain ⟨_ | ⟨g, rest⟩, p⟩ := c
  · rfl
  · rw [seek, seek, seekFrom, if_neg (Bool.eq_false_iff.mp h)]
    rfl

theorem skipWhile_append {within : Char → Bool} (hgs : ∀ g ∈ gs, within g.char = true)
    (hrest : ∀ g ∈ rest.head?, within g.char = false) (p : Position) :
    skipWhile within ⟨gs ++ rest, p⟩ = ⟨rest, p.afterAll gs⟩ := by
  apply seek_append
  · intro g hg more
    simp [hgs g hg]
  · cases rest with
    | nil => exact .inl rfl
    | cons g rest => exact .inr (by simp [hrest g rfl])

theorem skipWhile_eq_self {within : Char → Bool} (hrest : ∀ g ∈ rest.head?, within g.char = false)
    (p : Position) : skipWhile within ⟨rest, p⟩ = ⟨rest, p⟩ :=
  @skipWhile_append [] rest within (by simp) hrest p

/-! ### What is read between two cursors -/

/-- Reading the glyphs `gs` leads from the cursor `c` to the cursor `d`. -/
structure Reads (c : Cursor) (gs : List Glyph) (d : Cursor) : Prop where
  rest : c.rest = gs ++ d.rest
  position : d.position = c.position.afterAll gs

namespace Reads

variable {c d e : Cursor} {gs hs : List Glyph}

theorem refl (c : Cursor) : c.Reads [] c := ⟨rfl, rfl⟩

theorem trans (hgs : c.Reads gs d) (hhs : d.Reads hs e) : c.Reads (gs ++ hs) e where
  rest := by rw [hgs.rest, hhs.rest, List.append_assoc]
  position := by rw [hhs.position, hgs.position, Position.afterAll_append]

theorem cons {g : Glyph} {p : Position} (h : Reads ⟨hs, p.after g⟩ gs d) :
    Reads ⟨g :: hs, p⟩ (g :: gs) d where
  rest := congrArg (g :: ·) h.rest
  position := h.position

theorem eq_of_nil (h : c.Reads [] d) : d = c := by
  obtain ⟨rest, p⟩ := c
  obtain ⟨rest', p'⟩ := d
  obtain ⟨hrest, hposition⟩ := h
  exact (Cursor.mk.injEq ..).mpr ⟨hrest.symm, hposition⟩

theorem tail {g : Glyph} (h : c.Reads (g :: gs) d) : c.advance.Reads gs d := by
  obtain ⟨rest, p⟩ := c
  obtain rfl : rest = g :: gs ++ d.rest := h.rest
  exact ⟨rfl, h.position⟩

theorem textTo (h : c.Reads gs d) : c.textTo d = Text.ofGlyphs gs := by
  rw [Cursor.textTo, h.rest, List.length_append, Nat.add_sub_cancel, List.take_left]

theorem offset (h : c.Reads gs d) :
    d.position.offset = c.position.offset + (Text.ofGlyphs gs).length := by
  rw [h.position, Position.offset_afterAll]

theorem length (h : c.Reads gs d) : c.rest.length = gs.length + d.rest.length := by
  rw [h.rest, List.length_append]

theorem isSuffix {source : List Glyph} (h : c.Reads gs d) (hc : c.rest <:+ source) :
    d.rest <:+ source :=
  List.IsSuffix.trans ⟨gs, h.rest.symm⟩ hc

theorem isInfix {source : List Glyph} (h : c.Reads gs d) (hc : c.rest <:+ source) :
    gs <:+: source := by
  obtain ⟨before, hsource⟩ := hc
  exact ⟨before, d.rest, by rw [← hsource, h.rest, List.append_assoc]⟩

end Reads

theorem reads_advance {c : Cursor} {g : Glyph} {rest : List Glyph} (hc : c.rest = g :: rest) :
    c.Reads [g] c.advance := by
  obtain ⟨gs, p⟩ := c
  obtain rfl : gs = g :: rest := hc
  exact ⟨rfl, rfl⟩

theorem exists_of_peek? {c : Cursor} {x : Char} (hc : c.peek? = some x) :
    ∃ g, g.char = x ∧ c.Reads [g] c.advance := by
  rw [peek?, Option.map_eq_some_iff] at hc
  obtain ⟨g, hhead, hchar⟩ := hc
  obtain ⟨rest, hrest⟩ := List.head?_eq_some_iff.mp hhead
  exact ⟨g, hchar, reads_advance hrest⟩

theorem exists_of_isAt {c : Cursor} {x : Char} (hc : c.isAt x = true) :
    ∃ g, g.char = x ∧ c.Reads [g] c.advance :=
  exists_of_peek? (by simpa [isAt] using hc)

theorem exists_advanceBy (n : Nat) (c : Cursor) : ∃ gs, c.Reads gs (c.advanceBy n) := by
  induction n generalizing c with
  | zero => exact ⟨[], .refl c⟩
  | succ n ih =>
    obtain ⟨_ | ⟨g, rest⟩, p⟩ := c
    · exact ih ⟨[], p⟩
    · obtain ⟨gs, hread⟩ := ih ⟨rest, p.after g⟩
      exact ⟨g :: gs, hread.cons⟩

/-- The characters that come next are read by passing over as many. -/
theorem exists_of_beginsWith {s : List Char} {c : Cursor} (hc : beginsWith s c.rest = true) :
    ∃ gs, gs.map Glyph.char = s ∧ c.Reads gs (c.advanceBy s.length) := by
  induction s generalizing c with
  | nil => exact ⟨[], rfl, .refl c⟩
  | cons x s ih =>
    obtain ⟨_ | ⟨g, rest⟩, p⟩ := c
    · cases hc
    · simp only [beginsWith, Bool.and_eq_true, beq_iff_eq] at hc
      obtain ⟨gs, hchars, hread⟩ := @ih ⟨rest, p.after g⟩ hc.2
      exact ⟨g :: gs, by rw [List.map_cons, hchars, hc.1], hread.cons⟩

/-- A search passes over glyphs at which it does not stop. -/
theorem exists_seek (stop : List Glyph → Bool) (c : Cursor) :
    ∃ gs, c.Reads gs (c.seek stop) ∧ ((c.seek stop).atEnd = true ∨ stop (c.seek stop).rest = true) ∧
      ∀ before g after, gs = before ++ g :: after →
        stop (g :: after ++ (c.seek stop).rest) = false := by
  obtain ⟨rest, p⟩ := c
  unfold seek
  induction rest generalizing p with
  | nil => exact ⟨[], .refl _, .inl rfl, by simp⟩
  | cons g rest ih =>
    dsimp only
    rw [seekFrom]
    cases hstop : stop (g :: rest) with
    | true => exact ⟨[], .refl _, .inr hstop, by simp⟩
    | false =>
      obtain ⟨gs, hread, hend, hpassed⟩ := ih (p.after g)
      refine ⟨g :: gs, hread.cons, hend, ?_⟩
      intro before h after hsplit
      cases before with
      | nil =>
        obtain ⟨rfl, rfl⟩ := List.cons.inj hsplit
        have hrest : rest = gs ++ (seekFrom stop rest (p.after g)).rest := hread.rest
        rw [if_neg (by decide), List.cons_append, ← hrest, hstop]
      | cons _ before =>
        exact hpassed before h after (List.cons.inj hsplit).2

theorem exists_skipWhile (p : Char → Bool) (c : Cursor) :
    ∃ gs, c.Reads gs (c.skipWhile p) ∧ (∀ g ∈ gs, p g.char = true) ∧
      (c.skipWhile p).isIn p = false := by
  obtain ⟨gs, hread, hend, hpassed⟩ := exists_seek (fun gs => !(gs.head?.any fun g => p g.char)) c
  refine ⟨gs, hread, ?_, ?_⟩
  · intro g hg
    obtain ⟨before, after, hsplit⟩ := List.append_of_mem hg
    simpa using hpassed before g after hsplit
  · rw [skipWhile, isIn, peek?]
    rcases hend with hend | hend
    · rw [List.isEmpty_iff.mp hend]
      rfl
    · simpa [Option.any_map] using hend

theorem take_skipWhile (p : Char → Bool) (c : Cursor) :
    c.rest.take (c.rest.length - (c.skipWhile p).rest.length) = c.rest.takeWhile fun g => p g.char := by
  obtain ⟨gs, hread, hgs, hstop⟩ := exists_skipWhile p c
  have hnone : (c.skipWhile p).rest.takeWhile (fun g => p g.char) = [] := by
    cases hrest : (c.skipWhile p).rest with
    | nil => rfl
    | cons g rest =>
      rw [List.takeWhile_cons_of_neg]
      simpa [isIn, peek?, hrest] using hstop
  rw [hread.rest, List.length_append, Nat.add_sub_cancel, List.take_left, List.takeWhile_append_of_pos hgs,
    hnone, List.append_nil]

theorem exists_skipSpace (c : Cursor) :
    ∃ gs, c.Reads gs c.skipSpace ∧ ∀ g ∈ gs, CharClass.isMarkupSpace g.char = true := by
  obtain ⟨gs, hread, hspaces, -⟩ := exists_skipWhile CharClass.isMarkupSpace c
  exact ⟨gs, hread, hspaces⟩

theorem exists_skipName (c : Cursor) :
    ∃ gs, c.Reads gs c.skipName ∧ ∀ g ∈ gs, endsName g.char = false := by
  obtain ⟨gs, hread, hname, -⟩ := exists_skipWhile (fun x => !endsName x) c
  exact ⟨gs, hread, fun g hg => by simpa using hname g hg⟩

theorem exists_of_not_atEnd {c : Cursor} (hc : c.atEnd = false) : ∃ g, c.Reads [g] c.advance := by
  obtain ⟨g, rest, hrest⟩ := List.exists_cons_of_ne_nil (l := c.rest) (by simpa [atEnd] using hc)
  exact ⟨g, reads_advance hrest⟩

/-- A search for a character that does not come to the end comes to that character. -/
theorem exists_of_skipWhile_ne {c : Cursor} {x : Char} (hc : (c.skipWhile (· != x)).atEnd = false) :
    ∃ g, g.char = x ∧ (c.skipWhile (· != x)).Reads [g] (c.skipWhile (· != x)).advance := by
  obtain ⟨-, -, -, hstop⟩ := exists_skipWhile (· != x) c
  obtain ⟨g, hread⟩ := exists_of_not_atEnd hc
  refine ⟨g, ?_, hread⟩
  simpa [isIn, peek?, hread.rest] using hstop

end Markup.Cursor

end Stencil
