import Stencil.Proofs.ReaderSteps
import Stencil.Proofs.JoinedLines
import Stencil.Proofs.Gathering
import Stencil.Proofs.Names

/-!
# Reading moves on and never trips

The reader with checks never comes to a trap, and gives the tokens and the problems that scanning gives. A
construct is followed operation by operation, next to the scan of that construct (`Follows`). What a failure
leaves behind, a token that was begun, does no harm: it is given up before the next construct begins.
-/

namespace Stencil.Markup

namespace Reading

variable {α β : Type} {c : Cursor} {s : Option Cursor} {k : Option (Text → Lexeme)} {ts : List Token}
  {ds : List Diagnostic} {r : Reader}

/-! ### Constructs -/

/-- Reading a construct ends as scanning it does. Where it fails, a token may be left begun. -/
inductive Follows (ts : List Token) (ds : List Diagnostic) (a : α) :
    Scan → EStateM.Result Interrupt Reader α → Prop
  | done (tokens : List Token) (c : Cursor) :
      Follows ts ds a ⟨tokens, c, none⟩ (.ok a ⟨c, none, none, ts ++ tokens, ds⟩)
  | failed (tokens : List Token) (c : Cursor) (f : Failure) (s : Option Cursor)
      (k : Option (Text → Lexeme)) :
      Follows ts ds a ⟨tokens, c, some f⟩ (.error (.failure f) ⟨c, s, k, ts ++ tokens, ds⟩)

namespace Follows

theorem nothing (a : α) (c : Cursor) : Follows ts ds a (Scan.done [] c) (.ok a ⟨c, none, none, ts, ds⟩) := by
  have h := @done α ts ds a [] c
  rwa [List.append_nil] at h

theorem lost (a : α) (c : Cursor) (problem : Problem) (start : Cursor) :
    Follows ts ds a (Scan.failed [] c problem start)
      (.error (.failure ⟨problem, start⟩) ⟨c, s, k, ts, ds⟩) := by
  have h := @failed α ts ds a [] c ⟨problem, start⟩ s k
  rwa [List.append_nil] at h

/-- What follows goes on behind the tokens there are. -/
theorem after {a : α} {tokens : List Token} {next : Cursor → Scan} {result : EStateM.Result Interrupt Reader α}
    (h : Follows (ts ++ tokens) ds a (next c) result) :
    Follows ts ds a ((Scan.done tokens c).andThen next) result := by
  rw [Scan.andThen]
  dsimp only [Scan.done]
  generalize next c = scan at h
  cases h with
  | done others e =>
    rw [List.append_assoc]
    exact .done _ e
  | failed others e g s k =>
    rw [List.append_assoc]
    exact .failed _ e g s k

theorem andThen {m : Reading α} {f : α → Reading β} {a : α} {b : β} {scan : Scan} {next : Cursor → Scan}
    (h : Follows ts ds a scan (m r))
    (hnext : ∀ tokens d, scan = .done tokens d →
      Follows (ts ++ tokens) ds b (next d) (f a ⟨d, none, none, ts ++ tokens, ds⟩)) :
    Follows ts ds b (scan.andThen next) ((m >>= f) r) := by
  generalize hm : m r = result at h
  cases h with
  | failed tokens d g s k =>
    rw [bind_error hm]
    exact .failed tokens d g s k
  | done tokens d =>
    rw [bind_ok hm]
    exact (hnext tokens d rfl).after

end Follows

section Constructs

variable {options : ScanOptions} {source : Text} {start : Cursor}

theorem comment_follows :
    Follows ts ds () (Scan.comment options start c) (comment options start ⟨c, s, k, ts, ds⟩) := by
  rw [Scan.comment, comment, bind_ok begin_run, bind_ok (cursor_run _)]
  dsimp only
  cases hend : (c.seek (Cursor.beginsWith ['-', '-', '>'])).atEnd with
  | true =>
    rw [bind_error (seek_neg (peekChars_run _) rfl hend), if_pos rfl, Scan.unexpected, peek?_of_atEnd hend]
    exact .lost () _ _ _
  | false =>
    obtain ⟨-, -, hfound, -⟩ := Cursor.exists_seek (Cursor.beginsWith ['-', '-', '>']) c
    rw [bind_ok (seek_pos (peekChars_run _) hend), bind_ok (cursor_run _),
      bind_ok (requireChars_pos (hfound.resolve_left (by simp [hend]))), finish_run, if_neg (by decide)]
    exact .done _ _

theorem endTag_follows (hc : c.rest <:+ source.glyphs) :
    Follows ts ds () (Scan.endTag start c) (endTag start ⟨c, s, k, ts, ds⟩) := by
  obtain ⟨space, hspace, -⟩ := Cursor.exists_skipSpace c
  rw [Scan.endTag, endTag, bind_ok begin_run, bind_ok skipSpace_run]
  dsimp only
  cases hname : c.skipSpace.textTo c.skipSpace.skipName == [] with
  | true =>
    rw [bind_error (name_neg (hspace.isSuffix hc) hname), if_pos rfl]
    exact .lost () _ _ _
  | false =>
    rw [bind_ok (name_pos hname), bind_ok skipSpace_run, if_neg (by decide)]
    cases hclose : c.skipSpace.skipName.skipSpace.isAt '>' with
    | true =>
      rw [bind_ok (requireChar_pos hclose), finish_run, if_pos rfl]
      exact .done _ _
    | false =>
      rw [bind_error (requireChar_neg hclose), if_neg (by decide)]
      exact .lost () _ _ _

theorem quote_run {q : Char} (h : c.isAt q = true) :
    quote q ⟨c, s, k, ts, ds⟩ =
      .ok () ⟨c.advance, none, none, ts ++ [⟨.attrQuote (Text.ofChar q), c.spanTo c.advance⟩], ds⟩ := by
  rw [quote, bind_ok (cursor_run _), bind_ok begin_run, bind_ok (requireChar_pos h), finish_run]

theorem skipWhile_ne (q : Char) (c : Cursor) :
    c.skipWhile (· != q) = c.seek fun gs => gs.head?.map Glyph.char == some q :=
  Cursor.seek_congr (by simp [bne]) c

theorem quotedValue_follows {q : Char} (hq : c.isAt q = true) :
    let quote (d : Cursor) : Token := ⟨.attrQuote (Text.ofChar q), d.spanTo d.advance⟩
    let stop := c.advance.skipWhile (· != q)
    Follows ts ds ()
      (if stop.atEnd then Scan.unexpected [quote c] stop
      else Scan.done [quote c, ⟨.attrValue (Scan.decoded options (c.advance.textTo stop)),
        c.advance.spanTo stop⟩, quote stop] stop.advance)
      (quotedValue options q ⟨c, s, k, ts, ds⟩) := by
  have hfound (d : Cursor) (r : Reader) :
      (return d.isAt q : Reading Bool) r = .ok (d.rest.head?.map Glyph.char == some q) r := rfl
  dsimp only
  rw [quotedValue, bind_ok (quote_run hq), bind_ok (cursor_run _)]
  cases hend : (c.advance.skipWhile (· != q)).atEnd with
  | true =>
    have hseek := hend
    rw [skipWhile_ne] at hseek
    rw [bind_error (seek_neg hfound rfl hseek), if_pos rfl, Scan.unexpected, peek?_of_atEnd hend,
      skipWhile_ne]
    exact .failed _ _ _ _ _
  | false =>
    obtain ⟨g, hg, hread⟩ := Cursor.exists_of_skipWhile_ne hend
    have hclose : (c.advance.skipWhile (· != q)).isAt q = true := by
      rw [Cursor.isAt, Cursor.peek?, hread.rest, ← hg]
      simp
    rw [skipWhile_ne] at hend hclose
    rw [bind_ok (seek_pos hfound hend), bind_ok (cursor_run _), bind_ok begin_run, bind_ok finish_run,
      quote_run hclose, if_neg (by decide), skipWhile_ne, List.append_assoc, List.append_assoc]
    exact .done _ _

theorem unquotedValue_follows (hc : c.rest <:+ source.glyphs) :
    Follows ts ds ()
      (if c.textTo c.skipName == [] then Scan.unexpected [] c
      else Scan.done [⟨.attrValue (c.textTo c.skipName), c.spanTo c.skipName⟩] c.skipName)
      (unquotedValue ⟨c, s, k, ts, ds⟩) := by
  rw [unquotedValue, bind_ok (cursor_run _)]
  cases hname : c.textTo c.skipName == [] with
  | true =>
    rw [bind_error (name_neg hc hname), if_pos rfl]
    exact .lost () _ _ _
  | false =>
    rw [bind_ok (name_pos hname), bind_ok begin_run, finish_run, if_neg (by decide)]
    exact .done _ _

theorem attrValue_follows (hc : c.rest <:+ source.glyphs) :
    Follows ts ds () (Scan.attrValue options c) (attrValue options ⟨c, s, k, ts, ds⟩) := by
  have hvalue := @unquotedValue_follows c s k ts ds source hc
  rw [attrValue, bind_ok (cursor_run _), Scan.attrValue]
  dsimp only
  cases hpeek : c.peek? with
  | none =>
    obtain ⟨_ | ⟨g, rest⟩, p⟩ := c
    · exact hvalue
    · cases hpeek
  | some q =>
    dsimp only
    cases CharClass.isQuote q with
    | true => exact quotedValue_follows (by rw [Cursor.isAt, hpeek]; simp)
    | false => exact hvalue

/-- Where a quote stands no name begins. -/
theorem textTo_skipName_of_isQuote (h : c.isIn CharClass.isQuote = true) :
    (c.textTo c.skipName == []) = true := by
  obtain ⟨_ | ⟨g, rest⟩, p⟩ := c
  · cases h
  · have hquote : CharClass.isQuote g.char = true := h
    have hstay : Cursor.skipName ⟨g :: rest, p⟩ = ⟨g :: rest, p⟩ := by
      apply Cursor.skipWhile_eq_self
      rintro _ ⟨⟩
      simp [endsName, hquote]
    rw [hstay, (Cursor.Reads.refl _).textTo]
    rfl

theorem attrName_pos (h : (c.textTo c.skipName == []) = false) :
    attrName ⟨c, s, k, ts, ds⟩ =
      .ok () ⟨c.skipName, none, none, ts ++ [⟨.attrName (c.textTo c.skipName), c.spanTo c.skipName⟩], ds⟩ := by
  rw [attrName, bind_ok (cursor_run _), bind_ok begin_run, bind_ok (name_pos h), finish_run]

theorem attrName_neg (hc : c.rest <:+ source.glyphs) (h : (c.textTo c.skipName == []) = true) :
    attrName ⟨c, s, k, ts, ds⟩ =
      .error (.failure ⟨.unexpectedChar c.peek?, c⟩) ⟨c, some c, some .attrName, ts, ds⟩ := by
  rw [attrName, bind_ok (cursor_run _), bind_ok begin_run, bind_error (name_neg hc h)]

theorem attr_follows (hc : c.rest <:+ source.glyphs) :
    Follows ts ds () (Scan.attr options c) (attr options ⟨c, s, k, ts, ds⟩) := by
  rw [Scan.attr, attr, bind_ok (cursor_run _)]
  dsimp only
  cases hquote : c.isIn CharClass.isQuote with
  | true =>
    rw [if_pos rfl, bind_ok (cursor_run _), unexpected_run, if_pos (textTo_skipName_of_isQuote hquote)]
    exact .lost () _ _ _
  | false =>
    rw [if_neg Bool.false_ne_true]
    cases hempty : c.textTo c.skipName == [] with
    | true =>
      rw [bind_error (attrName_neg hc hempty), if_pos rfl]
      exact .lost () _ _ _
    | false =>
      rw [bind_ok (attrName_pos hempty), bind_ok skipSpace_run, if_neg Bool.false_ne_true]
      cases hequals : c.skipName.skipSpace.isAt '=' with
      | false =>
        rw [bind_ok (attemptChar_neg hequals)]
        exact .done _ _
      | true =>
        obtain ⟨taken, hname, -⟩ := Cursor.exists_skipName c
        obtain ⟨space, hspace, -⟩ := Cursor.exists_skipSpace c.skipName
        obtain ⟨g, -, hadvance⟩ := Cursor.exists_of_isAt hequals
        obtain ⟨more, hmore, -⟩ := Cursor.exists_skipSpace c.skipName.skipSpace.advance
        rw [if_pos rfl, bind_ok (attemptChar_pos hequals), if_pos rfl, bind_ok skipSpace_run]
        exact (attrValue_follows (((hname.trans hspace).trans (hadvance.trans hmore)).isSuffix hc)).after

/-- The attributes of a start tag, from behind the space in front of them. Every round takes one. -/
theorem attrs_loop {n m : Nat} (hc : c.rest <:+ source.glyphs) (hn : c.skipSpace.rest.length < n)
    (hm : c.skipSpace.rest.length ≤ m) :
    Follows ts ds () (Scan.attrs options m c)
      (loop (fun _ => return !endsAttributes (← cursor)) (fun _ => do attr options; skipSpace) n ()
        ⟨c.skipSpace, none, none, ts, ds⟩) := by
  induction n generalizing c m ts with
  | zero => cases hn
  | succ n ih =>
    cases hends : endsAttributes c.skipSpace with
    | true =>
      rw [loop_done (by rw [bind_ok (cursor_run _), hends]; rfl)]
      cases m with
      | zero => exact .nothing () _
      | succ m =>
        rw [Scan.attrs, if_pos hends]
        exact .nothing () _
    | false =>
      rw [loop_more (by rw [bind_ok (cursor_run _), hends]; rfl)]
      cases m with
      | zero =>
        rw [endsAttributes, Cursor.atEnd, List.length_eq_zero_iff.mp (Nat.le_zero.mp hm)] at hends
        cases hends
      | succ m =>
        obtain ⟨space, hspace, -⟩ := Cursor.exists_skipSpace c
        have hwithin := hspace.isSuffix hc
        rw [Scan.attrs, if_neg (by simp [hends]), bind_assoc]
        refine Follows.andThen (attr_follows hwithin) fun tokens d hattr => ?_
        have hshorter := @Scan.attr_shorter options source c.skipSpace hwithin (by rw [hattr]; rfl)
        obtain ⟨gs, honward⟩ := (@Scan.attr_lays options source none c.skipSpace hwithin).onward
        rw [hattr] at hshorter honward
        obtain ⟨more, hmore, -⟩ := Cursor.exists_skipSpace d
        have hlength := hmore.length
        change d.rest.length < c.skipSpace.rest.length at hshorter
        rw [bind_ok skipSpace_run]
        exact ih (honward.isSuffix hwithin) (by omega) (by omega)

theorem attrs_follows (hc : c.rest <:+ source.glyphs) :
    Follows ts ds () (Scan.attrs options c.rest.length c) (attrs options ⟨c, none, none, ts, ds⟩) := by
  obtain ⟨space, hspace, -⟩ := Cursor.exists_skipSpace c
  have hlength := hspace.length
  rw [attrs, bind_ok skipSpace_run, repeatWhile_run]
  exact attrs_loop hc (Nat.lt_succ_self _) (by omega)

theorem startTagEnd_follows :
    Follows ts ds (c.isAt '/') (Scan.startTagEnd c) (startTagEnd ⟨c, s, k, ts, ds⟩) := by
  rw [Scan.startTagEnd, startTagEnd, bind_ok (cursor_run _)]
  cases hslash : c.isAt '/' with
  | true =>
    rw [if_pos rfl, bind_ok (attemptChar_pos hslash), if_pos rfl, bind_ok begin_run]
    cases hclose : c.advance.isAt '>' with
    | true =>
      rw [bind_ok (requireChar_pos hclose), bind_ok finish_run]
      exact .done _ _
    | false =>
      rw [bind_error (requireChar_neg hclose)]
      exact .lost _ _ _ _
  | false =>
    rw [if_neg Bool.false_ne_true, bind_ok (attemptChar_neg hslash), if_neg Bool.false_ne_true,
      bind_ok begin_run]
    cases hclose : c.isAt '>' with
    | true =>
      rw [bind_ok (requireChar_pos hclose), bind_ok finish_run]
      exact .done _ _
    | false =>
      rw [bind_error (requireChar_neg hclose)]
      exact .lost _ _ _ _

theorem rawText_follows (name : Text) :
    Follows ts ds () (Scan.rawText options name c) (rawText options name ⟨c, s, k, ts, ds⟩) := by
  have hseek : (c.seek fun gs => gs.isEmpty || beginsEndTag name gs) = c.seek (beginsEndTag name) :=
    Cursor.seek_congr (by simp) c
  have hstop : ((c.seek fun gs => gs.isEmpty || beginsEndTag name gs).rest.isEmpty ||
      beginsEndTag name (c.seek fun gs => gs.isEmpty || beginsEndTag name gs).rest) = true := by
    obtain ⟨-, -, hend, -⟩ := Cursor.exists_seek (fun gs => gs.isEmpty || beginsEndTag name gs) c
    rcases hend with hend | hend
    · exact Bool.or_eq_true_iff.mpr (.inl hend)
    · exact hend
  have hloop : repeatWhile
      (fun _ => do
        let c ← cursor
        if c.atEnd then return false else return !(← isAtEndTag name c))
      (fun _ => advance) () ⟨c, some c, some .rawText, ts, ds⟩ =
        .ok () ⟨c.seek (beginsEndTag name), some c, some .rawText, ts, ds⟩ := by
    rw [repeatWhile_run, @loop_seek c _ _ ts ds _ _ (fun gs => gs.isEmpty || beginsEndTag name gs) _ ?_
      (fun _ => advance_run) (fun _ => advance_atEnd) _ (Nat.lt_succ_self _), if_pos hstop, hseek]
    intro c
    rw [bind_ok (cursor_run _)]
    cases hend : c.atEnd with
    | true =>
      rw [if_pos rfl, show c.rest.isEmpty = true from hend]
      rfl
    | false =>
      rw [if_neg Bool.false_ne_true, bind_ok (isAtEndTag_run name c _), show c.rest.isEmpty = false from hend]
      rfl
  rw [Scan.rawText, rawText, bind_ok (cursor_run _), bind_ok begin_run, bind_ok hloop, bind_ok (cursor_run _)]
  dsimp only
  cases (c.textTo (c.seek (beginsEndTag name))).isEmpty with
  | true => exact .nothing () _
  | false => exact .done _ _

theorem startTag_follows (hc : c.rest <:+ source.glyphs) :
    Follows ts ds () (Scan.startTag options start c) (startTag options start ⟨c, s, k, ts, ds⟩) := by
  rw [Scan.startTag, startTag, bind_ok (cursor_run _)]
  dsimp only
  cases hletter : c.isIn CharClass.isLetter with
  | false =>
    rw [if_neg Bool.false_ne_true, bind_ok begin_run, finish_run]
    exact .done _ _
  | true =>
    obtain ⟨taken, hname, -⟩ := Cursor.exists_skipName c
    have hempty : (c.textTo c.skipName == []) = false := by
      simpa using Cursor.skipName_ne_nil hc hletter
    rw [if_pos rfl, bind_ok begin_run, bind_ok (name_pos hempty), bind_ok finish_run,
      if_neg (by decide : ¬ (!true) = true)]
    have hattrs : Follows ts ds ()
        ((Scan.done [⟨.tagOpenStart (c.textTo c.skipName), start.spanTo c.skipName⟩] c.skipName).andThen
          fun c => Scan.attrs options c.rest.length c)
        (attrs options ⟨c.skipName, none, none,
          ts ++ [⟨.tagOpenStart (c.textTo c.skipName), start.spanTo c.skipName⟩], ds⟩) :=
      .after (attrs_follows (hname.isSuffix hc))
    refine hattrs.andThen fun tokens d _ => ?_
    refine startTagEnd_follows.andThen fun more e _ => ?_
    cases !d.isAt '/' && (Tag.ofName (c.textTo c.skipName)).content == .raw with
    | true => exact rawText_follows _
    | false => exact .nothing () _

/-! ### Blocks -/

/-- A parameter is walked over to where it ends. -/
theorem loop_parameter {more : Nat → Reading Bool} {body : Nat → Reading Nat}
    (hmore : ∀ depth c, more depth ⟨c, s, k, ts, ds⟩ = .ok (!endsParameter depth c) ⟨c, s, k, ts, ds⟩)
    (hbody : ∀ depth c, c.atEnd = false → body depth ⟨c, s, k, ts, ds⟩ =
      .ok (if c.isAt '(' then depth + 1 else if c.isAt ')' then depth - 1 else depth)
        ⟨c.advance, s, k, ts, ds⟩)
    {fuel : Nat} (hfuel : c.rest.length < fuel) (depth : Nat) :
    ∃ last, loop more body fuel depth ⟨c, s, k, ts, ds⟩ =
      .ok last ⟨Scan.parameterStop depth c.rest c.position, s, k, ts, ds⟩ := by
  obtain ⟨rest, p⟩ := c
  induction rest generalizing p fuel depth with
  | nil =>
    cases fuel with
    | zero => cases hfuel
    | succ fuel => exact ⟨depth, loop_done (hmore depth _)⟩
  | cons g rest ih =>
    cases fuel with
    | zero => cases hfuel
    | succ fuel =>
      have hends : endsParameter depth ⟨g :: rest, p⟩ =
          decide (depth = 0 ∧ (g.char = ';' ∨ g.char = ')')) := by
        rw [Bool.eq_iff_iff]
        simp [endsParameter, isAt_cons, Cursor.atEnd]
      have hturn := hmore depth ⟨g :: rest, p⟩
      rw [hends] at hturn
      dsimp only
      rw [Scan.parameterStop]
      by_cases hstop : depth = 0 ∧ (g.char = ';' ∨ g.char = ')')
      · rw [decide_eq_true hstop] at hturn
        rw [if_pos hstop]
        exact ⟨depth, loop_done hturn⟩
      · rw [decide_eq_false hstop] at hturn
        rw [if_neg hstop, loop_more hturn, bind_ok (hbody depth _ rfl)]
        simp only [isAt_of_cons]
        exact ih _ _ (Nat.lt_of_succ_lt_succ hfuel)

theorem parameter_run :
    let stop := Scan.parameterStop 0 c.rest c.position
    parameter ⟨c, s, k, ts, ds⟩ =
      .ok () ⟨stop, none, none, ts ++ [⟨.blockParameter (c.textTo stop).trim, c.spanTo stop⟩], ds⟩ := by
  obtain ⟨last, hloop⟩ := @loop_parameter c (some c) (some .blockParameter) ts ds
    (fun depth => return !endsParameter depth (← cursor))
    (fun depth => do
      let c ← cursor
      advance
      return if c.isAt '(' then depth + 1 else if c.isAt ')' then depth - 1 else depth)
    (fun _ _ => rfl)
    (fun depth d hmore => by rw [bind_ok (cursor_run _), bind_ok (advance_run hmore)]; rfl)
    _ (Nat.lt_succ_self _) 0
  rw [parameter, bind_ok (cursor_run _), bind_ok begin_run, bind_ok ((repeatWhile_run _ _).trans hloop),
    bind_ok (cursor_run _), finish_run]

/-- The parameters of a block. Every round takes one, or the semicolon behind it. -/
theorem blockParameters_loop {n m : Nat} (hn : c.rest.length < n) (hm : c.rest.length ≤ m) :
    Follows ts ds () (Scan.blockParameters m c)
      (loop (fun _ => return !((← cursor).atEnd || (← cursor).isAt ')'))
        (fun _ => do
          parameter
          let _ ← attemptChar ';'
          skipSpace) n () ⟨c, none, none, ts, ds⟩) := by
  induction n generalizing c m ts with
  | zero => cases hn
  | succ n ih =>
    cases hends : c.atEnd || c.isAt ')' with
    | true =>
      rw [loop_done (by rw [bind_ok (cursor_run _), bind_ok (cursor_run _), hends]; rfl)]
      cases m with
      | zero => exact .nothing () _
      | succ m =>
        rw [Scan.blockParameters, if_pos hends]
        exact .nothing () _
    | false =>
      rw [loop_more (by rw [bind_ok (cursor_run _), bind_ok (cursor_run _), hends]; rfl)]
      cases m with
      | zero =>
        rw [Cursor.atEnd, List.length_eq_zero_iff.mp (Nat.le_zero.mp hm)] at hends
        cases hends
      | succ m =>
        have hshorter := Scan.parameter_shorter hends
        rw [Scan.blockParameters, if_neg (by simp [hends]), bind_assoc, bind_ok parameter_run, bind_assoc]
        dsimp only
        apply Follows.after
        cases hat : (Scan.parameterStop 0 c.rest c.position).isAt ';' with
        | true =>
          rw [hat, if_pos rfl] at hshorter
          rw [bind_ok (attemptChar_pos hat), bind_ok skipSpace_run, if_pos rfl]
          obtain ⟨space, hspace, -⟩ := Cursor.exists_skipSpace (Scan.parameterStop 0 c.rest c.position).advance
          have hlength := hspace.length
          exact ih (by omega) (by omega)
        | false =>
          rw [hat, if_neg Bool.false_ne_true] at hshorter
          rw [bind_ok (attemptChar_neg hat), bind_ok skipSpace_run, if_neg Bool.false_ne_true]
          obtain ⟨space, hspace, -⟩ := Cursor.exists_skipSpace (Scan.parameterStop 0 c.rest c.position)
          have hlength := hspace.length
          exact ih (by omega) (by omega)

theorem blockParameters_run :
    let scan := Scan.blockParameters c.rest.length c
    blockParameters ⟨c, none, none, ts, ds⟩ = .ok () ⟨scan.cursor, none, none, ts ++ scan.tokens, ds⟩ := by
  have hfollows : Follows ts ds () (Scan.blockParameters c.rest.length c)
      (blockParameters ⟨c, none, none, ts, ds⟩) :=
    blockParameters_loop (Nat.lt_succ_self _) (Nat.le_refl _)
  have hnone := Scan.blockParameters_failure c.rest.length c
  generalize Scan.blockParameters c.rest.length c = scan at hfollows hnone
  generalize blockParameters ⟨c, none, none, ts, ds⟩ = result at hfollows
  cases hfollows with
  | done tokens d => rfl
  | failed => cases hnone

section Header

variable {x : Char} {name : Text} {others : List Token}

theorem needChar_pos {mark : Nat} (h : c.isAt x = true) :
    needChar x name start mark ⟨c, s, k, ts, ds⟩ = .ok () ⟨c.advance, s, k, ts, ds⟩ := by
  rw [needChar, bind_ok (attemptChar_pos h)]
  rfl

theorem needChar_neg (h : c.isAt x = false) :
    needChar x name start ts.length ⟨c, s, k, ts ++ others, ds⟩ =
      .error (.failure ⟨.incompleteBlock name, start⟩) ⟨c, s, k, ts, ds⟩ := by
  have htake : (ts ++ others).take ts.length = ts := List.take_left
  rw [needChar, bind_ok (attemptChar_neg h)]
  change EStateM.Result.error (Interrupt.failure ⟨.incompleteBlock name, start⟩)
    (⟨c, s, k, (ts ++ others).take ts.length, ds⟩ : Reader) = _
  rw [htake]

theorem parentheses_absent {mark : Nat} (h : c.isAt '(' = false) :
    parentheses name start mark ⟨c, s, k, ts, ds⟩ = .ok () ⟨c, s, k, ts, ds⟩ := by
  rw [parentheses, bind_ok (attemptChar_neg h)]
  rfl

section Parentheses

variable (hat : c.isAt '(' = true)
include hat

theorem parentheses_closed {mark : Nat} :
    let first := c.advance.skipSpace
    let scan := Scan.blockParameters first.rest.length first
    scan.cursor.skipSpace.isAt ')' = true →
      parentheses name start mark ⟨c, none, none, ts, ds⟩ =
        .ok () ⟨scan.cursor.skipSpace.advance.skipSpace, none, none, ts ++ scan.tokens, ds⟩ := by
  intro first scan hclose
  rw [parentheses, bind_ok (attemptChar_pos hat), if_pos rfl, bind_ok skipSpace_run,
    bind_ok blockParameters_run, bind_ok skipSpace_run, bind_ok (needChar_pos hclose), skipSpace_run]

theorem parentheses_open :
    let first := c.advance.skipSpace
    let scan := Scan.blockParameters first.rest.length first
    scan.cursor.skipSpace.isAt ')' = false →
      parentheses name start ts.length ⟨c, none, none, ts ++ others, ds⟩ =
        .error (.failure ⟨.incompleteBlock name, start⟩) ⟨scan.cursor.skipSpace, none, none, ts, ds⟩ := by
  intro first scan hopen
  rw [parentheses, bind_ok (attemptChar_pos hat), if_pos rfl, bind_ok skipSpace_run,
    bind_ok blockParameters_run, bind_ok skipSpace_run, List.append_assoc, bind_error (needChar_neg hopen)]

end Parentheses

/-- The brace that ends a block header. -/
theorem brace_follows :
    Follows ts ds ()
      (if c.isAt '\x7b' then Scan.done (others ++ [⟨.blockOpenEnd, c.spanTo c.advance⟩]) c.advance
      else Scan.failed [] c (.incompleteBlock name) start)
      ((do
        begin (fun _ => .blockOpenEnd) (← cursor)
        needChar '\x7b' name start ts.length
        finish [] : Reading Unit) ⟨c, s, k, ts ++ others, ds⟩) := by
  rw [bind_ok (cursor_run _), bind_ok begin_run]
  cases hat : c.isAt '\x7b' with
  | true =>
    rw [bind_ok (needChar_pos hat), finish_run, if_pos rfl, List.append_assoc]
    exact .done _ _
  | false =>
    rw [bind_error (needChar_neg hat), if_neg Bool.false_ne_true]
    exact .lost () _ _ _

end Header

theorem blockHeader_follows (hat : c.isAt '@' = true) :
    Follows ts ds () (Scan.blockHeader c) (blockHeader c ⟨c, s, k, ts, ds⟩) := by
  have hget (r : Reader) : (get : Reading Reader) r = .ok r r := rfl
  have hname {c s k ts ds} : skipUntil (fun x => !x.any CharClass.isBlockName) ⟨c, s, k, ts, ds⟩ =
      .ok () ⟨c.skipWhile CharClass.isBlockName, s, k, ts, ds⟩ := skipUntil_run rfl (by simp)
  rw [Scan.blockHeader, blockHeader, bind_ok (hget _), bind_ok begin_run,
    bind_ok (advance_run (atEnd_of_isAt hat)), bind_ok (cursor_run _), bind_ok hname, bind_ok (cursor_run _),
    bind_ok finish_run, bind_ok skipSpace_run]
  dsimp only
  generalize c.advance.skipWhile CharClass.isBlockName = nameStop
  cases hparen : nameStop.skipSpace.isAt '(' with
  | false =>
    rw [bind_ok (parentheses_absent hparen), if_neg Bool.false_ne_true]
    exact brace_follows
  | true =>
    rw [if_pos rfl]
    cases hclose : (Scan.blockParameters nameStop.skipSpace.advance.skipSpace.rest.length
        nameStop.skipSpace.advance.skipSpace).cursor.skipSpace.isAt ')' with
    | true =>
      rw [bind_ok (parentheses_closed hparen hclose), if_pos rfl, List.append_assoc]
      exact brace_follows
    | false =>
      rw [bind_error (parentheses_open hparen hclose), if_neg Bool.false_ne_true]
      exact .lost () _ _ _

/-! ### Text -/

theorem endText_run {a b : Cursor} :
    endText options a b ⟨c, some a, some .text, ts, ds⟩ =
      .ok () ⟨c, none, none, ts ++ Scan.textToken options a b, ds⟩ := by
  rw [endText, Scan.textToken]
  cases (a.textTo b).isEmpty with
  | true => rw [if_pos rfl, if_pos rfl, List.append_nil, drop_run]
  | false => rw [if_neg Bool.false_ne_true, if_neg Bool.false_ne_true, finishAt_run]

/-- An interpolation whose opening braces lie between `start` and `c`, as a scan by itself. -/
def scanInterpolation (start c : Cursor) : Scan :=
  let close := c.seek (Cursor.beginsWith ['\x7d', '\x7d'])
  if close.atEnd then .failed [] close .unterminatedInterpolation start
  else .done [⟨.interpolation (c.textTo close), start.spanTo (close.advanceBy 2)⟩] (close.advanceBy 2)

theorem interpolation_follows :
    Follows ts ds () (scanInterpolation start c) (interpolation start ⟨c, s, k, ts, ds⟩) := by
  rw [scanInterpolation, interpolation, bind_ok begin_run, bind_ok (cursor_run _)]
  dsimp only
  cases hend : (c.seek (Cursor.beginsWith ['\x7d', '\x7d'])).atEnd with
  | true =>
    rw [bind_error (seek_neg (peekChars_run _) rfl hend), if_pos rfl]
    exact .lost () _ _ _
  | false =>
    obtain ⟨-, -, hfound, -⟩ := Cursor.exists_seek (Cursor.beginsWith ['\x7d', '\x7d']) c
    rw [bind_ok (seek_pos (peekChars_run _) hend), bind_ok (cursor_run _),
      bind_ok (requireChars_pos (hfound.resolve_left (by simp [hend]))), finish_run,
      if_neg Bool.false_ne_true]
    exact .done _ _

theorem endsText_of_beginsInterpolation {gs : List Glyph} (h : beginsInterpolation gs = true) :
    endsText gs = false := by
  cases gs with
  | nil => cases h
  | cons g rest =>
    simp only [beginsInterpolation, Cursor.beginsWith, Bool.and_eq_true, beq_iff_eq] at h
    cases rest <;> simp [endsText, beginsTag, beginsBlock, h.1]

/-- Behind the opening braces an interpolation is read, and then the text goes on. -/
theorem textRun_interpolation {a : Cursor} {m : Nat}
    (hseek : (a.seek fun gs => endsText gs || beginsInterpolation gs) = c)
    (hbraces : beginsInterpolation c.rest = true) :
    Scan.textRun options (m + 1) a =
      (Scan.done (Scan.textToken options a c) (c.advanceBy 2)).andThen fun inner =>
        (scanInterpolation c inner).andThen (Scan.textRun options m) := by
  rw [Scan.textRun, hseek]
  dsimp only
  rw [if_pos hbraces]
  cases hend : ((c.advanceBy 2).seek (Cursor.beginsWith ['\x7d', '\x7d'])).atEnd <;>
    simp [scanInterpolation, hend, Scan.andThen, Scan.done, Scan.failed]

/-- Text that began at `a`, from a cursor behind which the search for its end leads to the same place. Every
round takes a character or an interpolation. -/
theorem textRun_loop {more : Cursor → Reading Bool}
    (hmore : ∀ a c s k ts, more a ⟨c, s, k, ts, ds⟩ = .ok (!endsText c.rest) ⟨c, s, k, ts, ds⟩)
    {a : Cursor} {n m : Nat}
    (hseek : (a.seek fun gs => endsText gs || beginsInterpolation gs) =
      c.seek fun gs => endsText gs || beginsInterpolation gs)
    (hn : c.rest.length < n) (hm : c.rest.length < m) :
    Follows ts ds () (Scan.textRun options m a)
      ((loop more (textStep options) n a >>= fun last => do
        endText options last (← cursor)) ⟨c, some a, some .text, ts, ds⟩) := by
  induction n generalizing c a m ts with
  | zero => cases hn
  | succ n ih =>
    obtain ⟨m, rfl⟩ : ∃ m', m = m' + 1 := ⟨m - 1, by omega⟩
    have hturn := hmore a c (some a) (some .text) ts
    cases hbraces : beginsInterpolation c.rest with
    | true =>
      have hstop := hseek.trans (Cursor.seek_eq_self (by rw [hbraces, Bool.or_true]))
      rw [endsText_of_beginsInterpolation hbraces] at hturn
      rw [bind_eq (loop_more hturn), textRun_interpolation hstop hbraces]
      simp only [textStep, bind_assoc]
      rw [bind_ok (cursor_run _), bind_ok (attemptChars_pos hbraces), if_pos rfl]
      simp only [bind_assoc, pure_bind]
      rw [bind_ok endText_run]
      apply Follows.after
      refine interpolation_follows.andThen fun tokens d hdone => ?_
      rw [bind_ok (cursor_run _), bind_ok begin_run]
      obtain ⟨braces, hchars, hopen⟩ := Cursor.exists_of_beginsWith hbraces
      obtain ⟨inner, hinner, -⟩ := Cursor.exists_seek (Cursor.beginsWith ['\x7d', '\x7d']) (c.advanceBy 2)
      obtain ⟨closing, hclosing⟩ := Cursor.exists_advanceBy 2
        ((c.advanceBy 2).seek (Cursor.beginsWith ['\x7d', '\x7d']))
      have hd : ((c.advanceBy 2).seek (Cursor.beginsWith ['\x7d', '\x7d'])).advanceBy 2 = d := by
        rw [scanInterpolation] at hdone
        split at hdone
        · cases congrArg Scan.failure hdone
        · exact congrArg Scan.cursor hdone
      rw [hd] at hclosing
      have hlength := (hopen.trans (hinner.trans hclosing)).length
      have htwo : braces.length = 2 := by simpa using congrArg List.length hchars
      rw [List.length_append, htwo] at hlength
      exact ih rfl (by omega) (by omega)
    | false =>
      cases hends : endsText c.rest with
      | true =>
        have hstop := hseek.trans (Cursor.seek_eq_self (by rw [hends, Bool.true_or]))
        rw [hends] at hturn
        rw [bind_ok (loop_done hturn), bind_ok (cursor_run _), endText_run, Scan.textRun, hstop]
        dsimp only
        rw [if_neg (Bool.eq_false_iff.mp hbraces)]
        exact .done _ _
      | false =>
        have hleft : c.atEnd = false := by
          rw [endsText, Bool.or_eq_false_iff, Bool.or_eq_false_iff, Bool.or_eq_false_iff] at hends
          exact hends.1.1.1
        have hadvance : (c.advance.seek fun gs => endsText gs || beginsInterpolation gs) =
            c.seek fun gs => endsText gs || beginsInterpolation gs :=
          Cursor.seek_advance (by rw [hends, hbraces]; rfl)
        obtain ⟨g, hstep⟩ := Cursor.exists_of_not_atEnd hleft
        have hlength := hstep.length
        rw [List.length_singleton] at hlength
        rw [hends] at hturn
        rw [bind_eq (loop_more hturn)]
        simp only [textStep, bind_assoc]
        rw [bind_ok (cursor_run _), bind_ok (attemptChars_neg hbraces), if_neg Bool.false_ne_true]
        simp only [bind_assoc, pure_bind]
        rw [bind_ok (advance_run hleft)]
        exact ih (hseek.trans hadvance.symm) (by omega) (by omega)

theorem textRun_follows :
    Follows ts ds () (Scan.textRun options (c.rest.length + 1) c) (textRun options ⟨c, s, k, ts, ds⟩) := by
  rw [textRun, bind_ok (cursor_run _), bind_ok begin_run]
  refine textRun_loop (fun a c s k ts => ?_) rfl (Nat.lt_succ_self _) (Nat.lt_succ_self _)
  rw [bind_ok (cursor_run _), bind_ok isAtTextEnd_run]
  rfl

/-! ### The next construct -/

theorem isBefore_of_not_isAt {x : String} {cs : List Char} (hx : x.toList = '<' :: cs)
    (h : c.isAt '<' = false) : c.isBefore x = false := by
  obtain ⟨_ | ⟨g, rest⟩, p⟩ := c
  · rw [Cursor.isBefore, hx]
    rfl
  · rw [isAt_cons] at h
    rw [Cursor.isBefore, hx, Cursor.beginsWith, h]
    rfl

theorem isBefore_of_isAt {x : String} {cs : List Char} (hx : x.toList = '<' :: cs)
    (h : c.isAt '<' = true) : c.isBefore x = Cursor.beginsWith cs c.advance.rest := by
  obtain ⟨_ | ⟨g, rest⟩, p⟩ := c
  · cases h
  · rw [isAt_cons] at h
    rw [Cursor.isBefore, hx, Cursor.beginsWith, h]
    rfl

theorem isAt_of_beginsBlock (h : beginsBlock c.rest = true) : c.isAt '@' = true := by
  obtain ⟨_ | ⟨g, rest⟩, p⟩ := c
  · cases h
  · rw [beginsBlock, Bool.and_eq_true] at h
    rw [isAt_cons]
    exact h.1

theorem next_follows (hc : c.rest <:+ source.glyphs) :
    Follows ts ds () (Scan.next options c) (next options c ⟨c, s, k, ts, ds⟩) := by
  rw [Scan.next, next]
  cases hless : c.isAt '<' with
  | true =>
    have hopen : c.isBefore "<!--" = Cursor.beginsWith ['!', '-', '-'] c.advance.rest :=
      isBefore_of_isAt rfl hless
    have hclose : c.isBefore "</" = c.advance.isAt '/' :=
      (isBefore_of_isAt rfl hless).trans (isAt_eq_beginsWith '/' c.advance).symm
    obtain ⟨g, -, hstep⟩ := Cursor.exists_of_isAt hless
    rw [bind_ok (attemptChar_pos hless), if_pos rfl, if_pos rfl, hopen, hclose]
    cases hcomment : Cursor.beginsWith ['!', '-', '-'] c.advance.rest with
    | true =>
      rw [bind_ok (attemptChars_pos hcomment), if_pos rfl, if_pos rfl]
      exact comment_follows
    | false =>
      rw [bind_ok (attemptChars_neg hcomment), if_neg Bool.false_ne_true, if_neg Bool.false_ne_true]
      cases hslash : c.advance.isAt '/' with
      | true =>
        obtain ⟨h, -, hslashed⟩ := Cursor.exists_of_isAt hslash
        rw [bind_ok (attemptChar_pos hslash), if_pos rfl, if_pos rfl]
        exact endTag_follows ((hstep.trans hslashed).isSuffix hc)
      | false =>
        rw [bind_ok (attemptChar_neg hslash), if_neg Bool.false_ne_true, if_neg Bool.false_ne_true]
        exact startTag_follows (hstep.isSuffix hc)
  | false =>
    rw [bind_ok (attemptChar_neg hless), if_neg Bool.false_ne_true, if_neg Bool.false_ne_true,
      bind_ok (cursor_run _), bind_ok isAtBlock_run, isBefore_of_not_isAt rfl hless,
      isBefore_of_not_isAt rfl hless, if_neg Bool.false_ne_true, if_neg Bool.false_ne_true]
    cases hblock : beginsBlock c.rest with
    | true =>
      rw [if_pos rfl, if_pos rfl]
      exact blockHeader_follows (isAt_of_beginsBlock hblock)
    | false =>
      rw [if_neg Bool.false_ne_true, if_neg Bool.false_ne_true]
      cases hbrace : c.isAt '\x7d' with
      | true =>
        rw [bind_ok (attemptChar_pos hbrace), if_pos rfl, if_pos rfl]
        exact .done _ _
      | false =>
        rw [bind_ok (attemptChar_neg hbrace), if_neg Bool.false_ne_true, if_neg Bool.false_ne_true]
        exact textRun_follows

/-! ### Rounds -/

/-- Whether a construct fails or not, the round goes on behind it with nothing begun. -/
theorem Follows.handled {m : Reading Unit} {scan : Scan} (h : Follows ts ds () scan (m r)) :
    (tryCatch m handle : Reading Unit) r =
      .ok () ⟨scan.cursor, none, none, ts ++ scan.tokens, ds ++ TokenStream.diagnosticOf scan⟩ := by
  change EStateM.tryCatch m handle r = _
  delta EStateM.tryCatch
  dsimp only
  generalize m r = result at h
  cases h with
  | done tokens d =>
    rw [TokenStream.diagnosticOf, List.append_nil]
  | failed tokens d f s k => rfl

/-- The next construct takes at least one byte, also where it fails. -/
theorem next_reads (hc : c.rest <:+ source.glyphs) (hmore : c.atEnd = false) :
    ∃ gs, c.Reads gs (Scan.next options c).cursor ∧ 0 < (Text.ofGlyphs gs).length := by
  obtain ⟨gs, honward⟩ := (@Scan.next_lays options source none c hc hmore).onward
  obtain ⟨g, hstep⟩ := Cursor.exists_of_not_atEnd hmore
  have hbytes := List.length_pos_iff.mpr (Text.bytes_ne_nil_of_mem_glyphs (hstep.mem hc g List.mem_cons_self))
  refine ⟨[g] ++ gs, hstep.trans honward, ?_⟩
  rw [Text.ofGlyphs_append, List.length_append, Text.ofGlyphs, List.flatMap_singleton]
  omega

/-- A round reads the next construct and notes its problem, if there is one. -/
theorem round_run (hc : c.rest <:+ source.glyphs) (hmore : c.atEnd = false) :
    let scan := Scan.next options c
    round options ⟨c, s, k, ts, ds⟩ =
      .ok () ⟨scan.cursor, none, none, ts ++ scan.tokens, ds ++ TokenStream.diagnosticOf scan⟩ := by
  obtain ⟨gs, hreads, htaken⟩ := @next_reads c options source hc hmore
  have hoffset := hreads.offset
  have hother : ((Scan.next options c).cursor.position.offset == c.position.offset) = false :=
    beq_false_of_ne (by omega)
  rw [round, bind_ok (cursor_run _), bind_ok (next_follows hc).handled, moveOn, bind_ok (cursor_run _), hother]
  rfl

/-- The readers that rounds lead to from the beginning of a source. -/
inductive Reached (options : ScanOptions) (source : Text) : Reader → Prop
  | start : Reached options source (.ofText source)
  | round {r r' : Reader} (h : Reached options source r) (hmore : r.cursor.atEnd = false)
      (hround : round options r = .ok () r') : Reached options source r'

theorem Reached.within (h : Reached options source r) : r.cursor.rest <:+ source.glyphs := by
  induction h with
  | start => exact List.suffix_rfl
  | @round r r' _ hmore hround ih =>
    obtain ⟨c, s, k, ts, ds⟩ := r
    rw [round_run ih hmore] at hround
    cases hround
    exact (TokenStream.resume_next ih hmore).2.1

theorem Reached.moves (h : Reached options source r) (hmore : r.cursor.atEnd = false) :
    ∃ r', Reading.round options r = .ok () r' ∧ r.cursor.position.offset < r'.cursor.position.offset := by
  obtain ⟨c, s, k, ts, ds⟩ := r
  obtain ⟨gs, hreads, htaken⟩ := @next_reads c options source h.within hmore
  have hoffset := hreads.offset
  refine ⟨_, round_run h.within hmore, ?_⟩
  dsimp only
  omega

/-- Every round takes at least one byte, so there are no more rounds than bytes. -/
theorem rounds_run {n m : Nat} (hc : c.rest <:+ source.glyphs) (hn : (Text.ofGlyphs c.rest).length < n)
    (hm : c.rest.length ≤ m) :
    ∃ last tokens, last.rest = [] ∧ c.Reads c.rest last ∧
      (TokenStream.readFrom options m c).tokens = tokens ++ [⟨.eof, last.spanTo last⟩] ∧
      loop (fun _ => return !(← cursor).atEnd) (fun _ => round options) n () ⟨c, none, none, ts, ds⟩ =
        .ok () ⟨last, none, none, ts ++ tokens,
          ds ++ (TokenStream.readFrom options m c).diagnostics⟩ := by
  induction n generalizing c m ts ds with
  | zero => cases hn
  | succ n ih =>
    cases hmore : c.atEnd with
    | true =>
      have hend : c.rest = [] := List.isEmpty_iff.mp hmore
      have hread : TokenStream.readFrom options m c = ⟨[⟨.eof, c.spanTo c⟩], []⟩ := by
        cases m with
        | zero => rfl
        | succ m => rw [TokenStream.readFrom, if_pos hmore]
      rw [loop_done (by rw [bind_ok (cursor_run _), hmore]; rfl), hread]
      refine ⟨c, [], hend, ?_, rfl, ?_⟩
      · rw [hend]
        exact .refl c
      · rw [List.append_nil, List.append_nil]
    | false =>
      obtain ⟨m, rfl⟩ : ∃ m', m = m' + 1 := by
        cases m with
        | zero =>
          rw [Cursor.atEnd, List.length_eq_zero_iff.mp (Nat.le_zero.mp hm)] at hmore
          cases hmore
        | succ m => exact ⟨m, rfl⟩
      obtain ⟨hresume, hwithin, hshorter⟩ := @TokenStream.resume_next source c options hc hmore
      obtain ⟨gs, hreads, htaken⟩ := @next_reads c options source hc hmore
      have hbytes : (Text.ofGlyphs c.rest).length =
          (Text.ofGlyphs gs).length + (Text.ofGlyphs (Scan.next options c).cursor.rest).length := by
        rw [hreads.rest, Text.ofGlyphs_append, List.length_append]
      have hread : TokenStream.readFrom options (m + 1) c =
          ⟨(Scan.next options c).tokens ++
              (TokenStream.readFrom options m (Scan.next options c).cursor).tokens,
            TokenStream.diagnosticOf (Scan.next options c) ++
              (TokenStream.readFrom options m (Scan.next options c).cursor).diagnostics⟩ := by
        rw [TokenStream.readFrom, if_neg (Bool.eq_false_iff.mp hmore)]
        dsimp only
        rw [hresume]
      obtain ⟨last, tokens, hend, hlast, htokens, hloop⟩ := @ih (Scan.next options c).cursor
        (ts ++ (Scan.next options c).tokens) (ds ++ TokenStream.diagnosticOf (Scan.next options c)) m
        hwithin (by omega) (by omega)
      refine ⟨last, (Scan.next options c).tokens ++ tokens, hend, ?_, ?_, ?_⟩
      · rw [hreads.rest]
        exact hreads.trans hlast
      · rw [hread, htokens, List.append_assoc]
      · rw [loop_more (by rw [bind_ok (cursor_run _), hmore]; rfl), bind_ok (round_run hc hmore), hloop, hread,
          List.append_assoc, List.append_assoc]

end Constructs

end Reading

open Reading in
/-- Reading with checks never comes to a trap. It takes no more rounds than the source has bytes, since every
round that is reached takes at least one; it gives the tokens and the problems of the source; and among the
tokens the last one, an empty one behind all bytes, is the only end mark. -/
theorem reading_never_traps (options : ScanOptions) (source : Text) :
    (∃ last others,
      all options source.length (.ofText source) =
        .ok () ⟨last, none, none, (TokenStream.ofText options source).tokens,
          (TokenStream.ofText options source).diagnostics⟩ ∧
      last.rest = [] ∧ last.position.offset = source.length ∧
      (TokenStream.ofText options source).tokens = others ++ [⟨.eof, last.spanTo last⟩] ∧
      ∀ t ∈ others, t.lexeme ≠ .eof) ∧
    ∀ r, Reached options source r → r.cursor.atEnd = false →
      ∃ r', round options r = .ok () r' ∧ r.cursor.position.offset < r'.cursor.position.offset := by
  have hbytes : (Text.ofGlyphs source.glyphs).length = source.length := by rw [Text.ofGlyphs_glyphs]
  obtain ⟨last, others, hend, hreads, htokens, hloop⟩ := @rounds_run (.ofText source) [] [] options source
    (source.length + 1) source.glyphs.length List.suffix_rfl (by simp [Cursor.ofText, hbytes]) (Nat.le_refl _)
  have hoffset : last.position.offset = source.length := by
    rw [hreads.offset]
    exact (Nat.zero_add _).trans hbytes
  refine ⟨⟨last, others, ?_, hend, hoffset, htokens, ?_⟩, fun r h hmore => h.moves hmore⟩
  · rw [all, Reader.ofText, bind_ok hloop, bind_ok (cursor_run _), bind_ok begin_run, finish_run,
      show (TokenStream.ofText options source).tokens = _ from htokens]
    rfl
  · have hsentence := TokenStream.readFrom_sentence options source.glyphs.length (.ofText source)
    obtain ⟨front, hfront, hnone⟩ := hsentence.exists_append_eof
    rw [htokens, List.map_append] at hfront
    obtain ⟨rfl, -⟩ := List.append_inj' hfront rfl
    intro t ht heof
    exact hnone (heof ▸ List.mem_map_of_mem ht)

/-- A start tag that fails after the name of an attribute was begun. -/
def halfTag : Text := Text.ofString "<a =x"

open Reading in
theorem halfTag_moves :
    ∃ r, Reached ⟨false⟩ halfTag r ∧ r.cursor.atEnd = false ∧ r.cursor.position.offset = 3 ∧
      r.diagnostics = [⟨.unexpectedChar (some '='), ⟨⟨3, 0, 3⟩, ⟨3, 0, 3⟩⟩⟩] ∧
      ∃ r', round ⟨false⟩ r = .ok () r' ∧ r.cursor.position.offset < r'.cursor.position.offset := by
  have hround : round ⟨false⟩ (.ofText halfTag) =
      .ok () ⟨⟨halfTag.glyphs.drop 3, ⟨3, 0, 3⟩⟩, none, none,
        [⟨.tagOpenStart (Text.ofString "a"), ⟨⟨0, 0, 0⟩, ⟨2, 0, 2⟩⟩⟩],
        [⟨.unexpectedChar (some '='), ⟨⟨3, 0, 3⟩, ⟨3, 0, 3⟩⟩⟩]⟩ := by rfl
  have hreached := Reached.round .start rfl hround
  exact ⟨_, hreached, rfl, rfl, rfl, (reading_never_traps ⟨false⟩ halfTag).2 _ hreached rfl⟩

end Stencil.Markup
