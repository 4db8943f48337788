import Stencil.Proofs.CheckedReader
import Stencil.Proofs.Spelling

/-!
# What the reader with checks does

One equation for each operation of the reader: where it ends, and with what, from where it begins. None of them
comes to a trap. Going on at the end would be one, so the loops that only go on are shown to stop there; a
search that has a failure of its own for the end stops by failing.
-/

namespace Stencil.Markup

namespace Reading

variable {α β : Type} {c : Cursor} {s : Option Cursor} {k : Option (Text → Lexeme)} {ts : List Token}
  {ds : List Diagnostic} {r : Reader}

theorem bind_ok {m : Reading α} {f : α → Reading β} {a : α} {r r' : Reader} (h : m r = .ok a r') :
    (m >>= f) r = f a r' := by
  change EStateM.bind m f r = f a r'
  rw [EStateM.bind, h]

theorem bind_error {m : Reading α} {f : α → Reading β} {e : Interrupt} {r r' : Reader}
    (h : m r = .error e r') : (m >>= f) r = .error e r' := by
  change EStateM.bind m f r = .error e r'
  rw [EStateM.bind, h]

theorem bind_eq {m m' : Reading α} {f : α → Reading β} {r r' : Reader} (h : m r = m' r') :
    (m >>= f) r = (m' >>= f) r' := by
  change EStateM.bind m f r = EStateM.bind m' f r'
  rw [EStateM.bind, EStateM.bind, h]

/-! ### Moving -/

theorem cursor_run (r : Reader) : cursor r = .ok r.cursor r := rfl

theorem step_run (h : c.atEnd = false) (r : Reader) : step c r = .ok c.advance r := by
  rw [step, h]
  rfl

theorem advance_run (h : c.atEnd = false) : advance ⟨c, s, k, ts, ds⟩ = .ok () ⟨c.advance, s, k, ts, ds⟩ := by
  rw [advance, bind_ok (cursor_run _), bind_ok (step_run h _)]
  rfl

theorem advance_atEnd (h : c.atEnd = true) :
    advance ⟨c, s, k, ts, ds⟩ = .error (.trap .advancedAtEnd) ⟨c, s, k, ts, ds⟩ := by
  have hstep : step c ⟨c, s, k, ts, ds⟩ = .error (.trap .advancedAtEnd) ⟨c, s, k, ts, ds⟩ := by
    rw [step, h]
    rfl
  rw [advance, bind_ok (cursor_run _), bind_error hstep]

theorem advanceBy_run {n : Nat} (h : n ≤ c.rest.length) :
    advanceBy n ⟨c, s, k, ts, ds⟩ = .ok () ⟨c.advanceBy n, s, k, ts, ds⟩ := by
  induction n generalizing c with
  | zero => rfl
  | succ n ih =>
    obtain ⟨_ | ⟨g, rest⟩, p⟩ := c
    · cases h
    · rw [advanceBy, bind_ok (advance_run rfl)]
      exact ih (Nat.le_of_succ_le_succ h)

section Loop

variable {σ : Type} {more : σ → Reading Bool} {body : σ → Reading σ} {fuel : Nat} {x : σ} {r' : Reader}

theorem loop_more (h : more x r = .ok true r') :
    loop more body (fuel + 1) x r = (body x >>= loop more body fuel) r' := by
  rw [loop, bind_ok h]
  rfl

theorem loop_done (h : more x r = .ok false r') : loop more body (fuel + 1) x r = .ok x r' := by
  rw [loop, bind_ok h]
  rfl

theorem repeatWhile_run (x : σ) (r : Reader) :
    repeatWhile more body x r = loop more body (r.cursor.rest.length + 1) x r := rfl

end Loop

/-- Going on character by character leads to where a search leads. What becomes of it at the end depends on
the body. -/
theorem loop_seek {more : Unit → Reading Bool} {body : Unit → Reading Unit} {stop : List Glyph → Bool}
    {e : Cursor → Interrupt}
    (hmore : ∀ c, more () ⟨c, s, k, ts, ds⟩ = .ok (!stop c.rest) ⟨c, s, k, ts, ds⟩)
    (hbody : ∀ c, c.atEnd = false → body () ⟨c, s, k, ts, ds⟩ = .ok () ⟨c.advance, s, k, ts, ds⟩)
    (hend : ∀ c, c.atEnd = true → body () ⟨c, s, k, ts, ds⟩ = .error (e c) ⟨c, s, k, ts, ds⟩)
    {fuel : Nat} (hfuel : c.rest.length < fuel) :
    loop more body fuel () ⟨c, s, k, ts, ds⟩ =
      if stop (c.seek stop).rest then .ok () ⟨c.seek stop, s, k, ts, ds⟩
      else .error (e (c.seek stop)) ⟨c.seek stop, s, k, ts, ds⟩ := by
  obtain ⟨rest, p⟩ := c
  unfold Cursor.seek
  induction rest generalizing p fuel with
  | nil =>
    cases fuel with
    | zero => cases hfuel
    | succ fuel =>
      have hturn := hmore ⟨[], p⟩
      rw [Cursor.seekFrom]
      cases hstop : stop [] with
      | true =>
        rw [hstop] at hturn
        rw [loop_done hturn, if_pos rfl]
      | false =>
        rw [hstop] at hturn
        rw [loop_more hturn, bind_error (hend _ rfl), if_neg (by decide)]
  | cons g rest ih =>
    cases fuel with
    | zero => cases hfuel
    | succ fuel =>
      have hturn := hmore ⟨g :: rest, p⟩
      dsimp only
      cases hstop : stop (g :: rest) with
      | true =>
        rw [hstop] at hturn
        rw [loop_done hturn, Cursor.seekFrom, if_pos hstop, if_pos hstop]
      | false =>
        have hseek : Cursor.seekFrom stop (g :: rest) p = Cursor.seekFrom stop rest (p.after g) := by
          rw [Cursor.seekFrom, hstop]
          rfl
        rw [hstop] at hturn
        rw [loop_more hturn, bind_ok (hbody _ rfl), hseek]
        exact ih _ (Nat.lt_of_succ_lt_succ hfuel)

theorem skipUntil_run {stop : Option Char → Bool} {within : Char → Bool} (hnone : stop none = true)
    (hsome : ∀ x, stop (some x) = !within x) :
    skipUntil stop ⟨c, s, k, ts, ds⟩ = .ok () ⟨c.skipWhile within, s, k, ts, ds⟩ := by
  have hmore (d : Cursor) : stop d.peek? = !(d.rest.head?.any fun g => within g.char) := by
    obtain ⟨_ | ⟨g, rest⟩, p⟩ := d
    · exact hnone
    · exact hsome g.char
  have hloop := @loop_seek c s k ts ds (fun _ => return !stop (← cursor).peek?) (fun _ => advance)
    (fun gs => !(gs.head?.any fun g => within g.char)) (fun _ => .trap .advancedAtEnd)
    (fun d => by rw [bind_ok (cursor_run _), hmore]; rfl)
    (fun _ => advance_run) (fun _ => advance_atEnd) _ (Nat.lt_succ_self _)
  have hstopped : (!((c.skipWhile within).rest.head?.any fun g => within g.char)) = true := by
    obtain ⟨-, -, hend | hend, -⟩ := Cursor.exists_seek (fun gs => !(gs.head?.any fun g => within g.char)) c
    · rw [Cursor.skipWhile, List.isEmpty_iff.mp hend]
      rfl
    · exact hend
  exact hloop.trans (if_pos hstopped)

theorem skipSpace_run : skipSpace ⟨c, s, k, ts, ds⟩ = .ok () ⟨c.skipSpace, s, k, ts, ds⟩ :=
  skipUntil_run rfl (by simp [isNotSpace])

/-! ### Tokens -/

theorem begin_run {kind : Text → Lexeme} {start : Cursor} :
    begin kind start ⟨c, s, k, ts, ds⟩ = .ok () ⟨c, some start, some kind, ts, ds⟩ := rfl

theorem drop_run : drop ⟨c, s, k, ts, ds⟩ = .ok () ⟨c, none, none, ts, ds⟩ := rfl

theorem finishAt_run {kind : Text → Lexeme} {part : Text} {start stop : Cursor} :
    finishAt part stop ⟨c, some start, some kind, ts, ds⟩ =
      .ok () ⟨c, none, none, ts ++ [⟨kind part, start.spanTo stop⟩], ds⟩ := rfl

theorem finish_run {kind : Text → Lexeme} {part : Text} {start : Cursor} :
    finish part ⟨c, some start, some kind, ts, ds⟩ =
      .ok () ⟨c, none, none, ts ++ [⟨kind part, start.spanTo c⟩], ds⟩ := rfl

/-! ### Characters that are tried or required -/

theorem atEnd_of_isAt {x : Char} (h : c.isAt x = true) : c.atEnd = false := by
  obtain ⟨_ | ⟨g, rest⟩, p⟩ := c
  · cases h
  · rfl

theorem peek?_of_atEnd (h : c.atEnd = true) : c.peek? = none := by
  rw [Cursor.peek?, List.isEmpty_iff.mp h]
  rfl

theorem unexpected_run {start : Cursor} (r : Reader) :
    (unexpected start : Reading α) r = .error (.failure ⟨.unexpectedChar r.cursor.peek?, start⟩) r := rfl

theorem attemptChar_pos {x : Char} (h : c.isAt x = true) :
    attemptChar x ⟨c, s, k, ts, ds⟩ = .ok true ⟨c.advance, s, k, ts, ds⟩ := by
  rw [attemptChar, bind_ok (cursor_run _), if_pos h, bind_ok (advance_run (atEnd_of_isAt h))]
  rfl

theorem attemptChar_neg {x : Char} (h : c.isAt x = false) :
    attemptChar x ⟨c, s, k, ts, ds⟩ = .ok false ⟨c, s, k, ts, ds⟩ := by
  rw [attemptChar, bind_ok (cursor_run _), if_neg (by rw [h]; decide)]
  rfl

theorem requireChar_pos {x : Char} (h : c.isAt x = true) :
    requireChar x ⟨c, s, k, ts, ds⟩ = .ok () ⟨c.advance, s, k, ts, ds⟩ := by
  rw [requireChar, bind_ok (cursor_run _), bind_ok (attemptChar_pos h)]
  rfl

theorem requireChar_neg {x : Char} (h : c.isAt x = false) :
    requireChar x ⟨c, s, k, ts, ds⟩ =
      .error (.failure ⟨.unexpectedChar c.peek?, c⟩) ⟨c, s, k, ts, ds⟩ := by
  rw [requireChar, bind_ok (cursor_run _), bind_ok (attemptChar_neg h)]
  rfl

theorem peekChars_run (x : List Char) (c : Cursor) (r : Reader) :
    peekChars x c r = .ok (Cursor.beginsWith x c.rest) r := by
  induction x generalizing c with
  | nil => rfl
  | cons y x ih =>
    obtain ⟨_ | ⟨g, rest⟩, p⟩ := c
    · rfl
    · rw [peekChars]
      by_cases hy : Cursor.isAt ⟨g :: rest, p⟩ y = true
      · have hg : (g.char == y) = true := by simpa [Cursor.isAt, Cursor.peek?] using hy
        rw [if_pos hy, bind_ok (step_run rfl r), ih, Cursor.beginsWith, hg]
        rfl
      · have hg : (g.char == y) = false := by simpa [Cursor.isAt, Cursor.peek?] using hy
        rw [if_neg hy, Cursor.beginsWith, hg]
        rfl

theorem attemptChars_pos {x : List Char} (h : Cursor.beginsWith x c.rest = true) :
    attemptChars x ⟨c, s, k, ts, ds⟩ = .ok true ⟨c.advanceBy x.length, s, k, ts, ds⟩ := by
  obtain ⟨gs, hgs, hread⟩ := Cursor.exists_of_beginsWith h
  have hlength : x.length ≤ c.rest.length := by
    rw [← hgs, List.length_map, hread.length]
    exact Nat.le_add_right _ _
  have hpeek := peekChars_run x c ⟨c, s, k, ts, ds⟩
  rw [h] at hpeek
  rw [attemptChars, bind_ok (cursor_run _), bind_ok hpeek, if_pos rfl, bind_ok (advanceBy_run hlength)]
  rfl

theorem attemptChars_neg {x : List Char} (h : Cursor.beginsWith x c.rest = false) :
    attemptChars x ⟨c, s, k, ts, ds⟩ = .ok false ⟨c, s, k, ts, ds⟩ := by
  have hpeek := peekChars_run x c ⟨c, s, k, ts, ds⟩
  rw [h] at hpeek
  rw [attemptChars, bind_ok (cursor_run _), bind_ok hpeek]
  rfl

theorem requireChars_pos {x : List Char} (h : Cursor.beginsWith x c.rest = true) :
    requireChars x ⟨c, s, k, ts, ds⟩ = .ok () ⟨c.advanceBy x.length, s, k, ts, ds⟩ := by
  rw [requireChars, bind_ok (cursor_run _), bind_ok (attemptChars_pos h)]
  rfl

theorem skipName_run : skipUntil isNameEnd ⟨c, s, k, ts, ds⟩ = .ok () ⟨c.skipName, s, k, ts, ds⟩ :=
  skipUntil_run rfl (by simp [isNameEnd])

theorem name_pos (h : (c.textTo c.skipName == []) = false) :
    name ⟨c, s, k, ts, ds⟩ = .ok (c.textTo c.skipName) ⟨c.skipName, s, k, ts, ds⟩ := by
  obtain ⟨gs, hread, -⟩ := Cursor.exists_skipName c
  have hlength : 0 < (c.textTo c.skipName).length := List.length_pos_iff.mpr (by simpa using h)
  have hoffset := hread.offset
  rw [← hread.textTo] at hoffset
  rw [name, bind_ok (cursor_run _), bind_ok skipName_run, bind_ok (cursor_run _), if_neg ?_]
  · rfl
  · change ¬ c.skipName.position.offset - c.position.offset < 1
    omega

theorem name_neg {source : Text} (hc : c.rest <:+ source.glyphs)
    (h : (c.textTo c.skipName == []) = true) :
    name ⟨c, s, k, ts, ds⟩ = .error (.failure ⟨.unexpectedChar c.peek?, c⟩) ⟨c, s, k, ts, ds⟩ := by
  obtain ⟨gs, hread, -⟩ := Cursor.exists_skipName c
  have hempty : Text.ofGlyphs gs = [] := by
    rw [← hread.textTo]
    simpa using h
  -- Nothing was taken, so the cursor is still where it was.
  obtain rfl := hread.eq_nil hc hempty
  have hstay : c.skipName = c := hread.eq_of_nil
  rw [name, bind_ok (cursor_run _), bind_ok skipName_run, bind_ok (cursor_run _), hstay, if_pos ?_]
  · rfl
  · change c.position.offset - c.position.offset < 1
    omega

section Seek

variable {found : Cursor → Reading Bool} {missing : Cursor → Failure} {stop : List Glyph → Bool}
  (hfound : ∀ c r, found c r = .ok (stop c.rest) r)
include hfound

theorem seek_run : seek found missing ⟨c, s, k, ts, ds⟩ =
    if stop (c.seek stop).rest then .ok () ⟨c.seek stop, s, k, ts, ds⟩
    else .error (.failure (missing (c.seek stop))) ⟨c.seek stop, s, k, ts, ds⟩ := by
  rw [seek, repeatWhile_run]
  refine @loop_seek c s k ts ds _ _ stop (fun c => .failure (missing c)) ?_ ?_ ?_ _ (Nat.lt_succ_self _)
  · intro c
    rw [bind_ok (cursor_run _), bind_ok (hfound c _)]
    rfl
  · intro c hmore
    rw [bind_ok (cursor_run _), if_neg (by simpa using hmore), advance_run hmore]
  · intro c hend
    rw [bind_ok (cursor_run _), if_pos hend]
    rfl

theorem seek_pos (h : (c.seek stop).atEnd = false) :
    seek found missing ⟨c, s, k, ts, ds⟩ = .ok () ⟨c.seek stop, s, k, ts, ds⟩ := by
  obtain ⟨-, -, hend, -⟩ := Cursor.exists_seek stop c
  rw [seek_run hfound, if_pos (hend.resolve_left (by simp [h]))]

theorem seek_neg (hstop : stop [] = false) (h : (c.seek stop).atEnd = true) :
    seek found missing ⟨c, s, k, ts, ds⟩ =
      .error (.failure (missing (c.seek stop))) ⟨c.seek stop, s, k, ts, ds⟩ := by
  rw [seek_run hfound, if_neg (by rw [List.isEmpty_iff.mp h, hstop]; decide)]

end Seek

/-! ### What comes next -/

theorem closesName_run (ns : List Nat) (c : Cursor) (r : Reader) :
    closesName ns c r = .ok (Markup.closesName ns c.rest) r := by
  induction ns generalizing c with
  | nil =>
    obtain ⟨_ | ⟨g, rest⟩, p⟩ := c
    · rfl
    · rw [closesName, Markup.closesName]
      simp [isNameEnd, Cursor.peek?]
      rfl
  | cons n ns ih =>
    obtain ⟨_ | ⟨g, rest⟩, p⟩ := c
    · rfl
    · have hin : Cursor.isIn ⟨g :: rest, p⟩ (fun x => upperCode x.toNat == upperCode n) =
          (upperCode g.char.toNat == upperCode n) := rfl
      rw [closesName, Markup.closesName, hin]
      cases upperCode g.char.toNat == upperCode n with
      | true =>
        rw [if_pos rfl, bind_ok (step_run rfl r), ih]
        rfl
      | false => rfl

theorem isAt_cons (g : Glyph) (rest : List Glyph) (p : Position) (x : Char) :
    Cursor.isAt ⟨g :: rest, p⟩ x = (g.char == x) := by
  simp [Cursor.isAt, Cursor.peek?]

theorem isAt_of_cons {x : Char} {g : Glyph} {rest : List Glyph} {p : Position} :
    Cursor.isAt ⟨g :: rest, p⟩ x = true ↔ g.char = x := by
  rw [isAt_cons, beq_iff_eq]

theorem isAt_eq_beginsWith (x : Char) (c : Cursor) : c.isAt x = Cursor.beginsWith [x] c.rest := by
  obtain ⟨_ | ⟨g, rest⟩, p⟩ := c
  · rfl
  · rw [isAt_cons, Cursor.beginsWith, Cursor.beginsWith, Bool.and_true]

theorem isAtEndTag_run (name : Text) (c : Cursor) (r : Reader) :
    isAtEndTag name c r = .ok (beginsEndTag name c.rest) r := by
  obtain ⟨_ | ⟨g, _ | ⟨h, rest⟩⟩, p⟩ := c
  · rfl
  · change isAtEndTag name ⟨[g], p⟩ r = .ok false r
    rw [isAtEndTag, isAt_cons]
    cases g.char == '<' with
    | true => exact bind_ok (step_run rfl r)
    | false => rfl
  · rw [isAtEndTag, isAt_cons, beginsEndTag]
    cases g.char == '<' with
    | false => rfl
    | true =>
      rw [if_pos rfl, bind_ok (step_run rfl r), Cursor.advance, isAt_cons]
      cases h.char == '/' with
      | false => rfl
      | true =>
        rw [if_pos rfl, bind_ok (step_run rfl r), closesName_run]
        rfl

theorem isAtTag_run (c : Cursor) (r : Reader) : isAtTag c r = .ok (beginsTag c.rest) r := by
  obtain ⟨_ | ⟨g, rest⟩, p⟩ := c
  · rfl
  · rw [isAtTag, isAt_cons]
    cases hless : g.char == '<' with
    | true =>
      rw [if_pos rfl, bind_ok (step_run rfl r)]
      cases rest with
      | nil => rfl
      | cons h rest =>
        rw [beginsTag, hless]
        rfl
    | false =>
      cases rest with
      | nil => rfl
      | cons h rest =>
        rw [beginsTag, hless]
        rfl

/-- The characters of a class are walked over, on a cursor of their own. -/
theorem loop_skipWhile {more : Cursor → Reading Bool} {within : Char → Bool}
    (hmore : ∀ d, more d r = .ok (d.isIn within) r) {fuel : Nat} {d : Cursor}
    (hfuel : d.rest.length < fuel) : loop more step fuel d r = .ok (d.skipWhile within) r := by
  obtain ⟨rest, p⟩ := d
  unfold Cursor.skipWhile Cursor.seek
  induction rest generalizing p fuel with
  | nil =>
    cases fuel with
    | zero => cases hfuel
    | succ fuel => exact loop_done (hmore _)
  | cons g rest ih =>
    cases fuel with
    | zero => cases hfuel
    | succ fuel =>
      have hturn : more ⟨g :: rest, p⟩ r = .ok (within g.char) r := hmore _
      dsimp only
      rw [Cursor.seekFrom]
      cases hin : within g.char with
      | true =>
        rw [hin] at hturn
        rw [loop_more hturn, bind_ok (step_run rfl r), if_neg (by simp [hin])]
        exact ih _ (Nat.lt_of_succ_lt_succ hfuel)
      | false =>
        rw [hin] at hturn
        rw [loop_done hturn, if_pos (by simp [hin])]

theorem isAtBlock_run :
    isAtBlock c ⟨c, s, k, ts, ds⟩ = .ok (beginsBlock c.rest) ⟨c, s, k, ts, ds⟩ := by
  obtain ⟨_ | ⟨g, rest⟩, p⟩ := c
  · rfl
  · rw [isAtBlock, isAt_cons, beginsBlock]
    cases g.char == '@' with
    | false => rfl
    | true =>
      have hfuel : rest.length < (g :: rest).length + 1 := Nat.lt_succ_of_lt (Nat.lt_succ_self _)
      have hwalk : repeatWhile (fun d => return d.isIn CharClass.isBlockName) step ⟨rest, p.after g⟩
          ⟨⟨g :: rest, p⟩, s, k, ts, ds⟩ =
            .ok (Cursor.skipWhile CharClass.isBlockName ⟨rest, p.after g⟩) ⟨⟨g :: rest, p⟩, s, k, ts, ds⟩ :=
        loop_skipWhile (fun _ => rfl) hfuel
      rw [if_pos rfl, bind_ok (step_run rfl _), Cursor.advance, bind_ok hwalk, Cursor.take_skipWhile]
      rfl

theorem isAtTextEnd_run :
    isAtTextEnd c ⟨c, s, k, ts, ds⟩ = .ok (endsText c.rest) ⟨c, s, k, ts, ds⟩ := by
  have hhead : c.isAt '\x7d' = c.rest.head?.any fun g => g.char == '\x7d' := by
    obtain ⟨_ | ⟨g, rest⟩, p⟩ := c
    · rfl
    · exact isAt_cons g rest p _
  rw [isAtTextEnd, endsText, hhead, Cursor.atEnd]
  cases c.rest.isEmpty || c.rest.head?.any fun g => g.char == '\x7d' with
  | true => rfl
  | false =>
    rw [if_neg (by decide), bind_ok (isAtTag_run c _)]
    cases beginsTag c.rest with
    | true => rfl
    | false => exact isAtBlock_run

end Reading

end Stencil.Markup
