import Mathlib.Data.List.Chain
import Stencil.Proofs.BlankErasure

/-!
# Removing blanks settles

Removing blanks once is enough, and it touches nothing else. Written out in document order, the nodes have the
same marks before and after: the starts and ends of elements and blocks, comments, all tokens that are not text,
the characters of texts that are no blanks, and, as a whole, the content of every element that keeps its blanks.
What is left is tidy: outside such elements no text is blank, and none has two blanks in a row.

Collapsing works on characters, so the one thing to see is that the characters of a collapsed text are the
collapsed characters. It holds also where bytes are stray, because what is put for a run is an ASCII space, and no
character reaches past one.
-/

namespace Stencil

/-! ### Collapsing -/

/-- Two characters that are not both blanks. -/
def CharClass.Apart (a b : Char) : Prop := ¬ (isCollapsible a = true ∧ isCollapsible b = true)

/-- No two blanks stand in a row in a text. -/
def Text.HasNoBlankRun (t : Text) : Prop := t.chars.IsChain CharClass.Apart

namespace Markup

namespace BlankRun

/-- Blanks that make a run. -/
def Stands : BlankRun → List Glyph → Prop
  | .none, blanks => blanks = []
  | .one blank, blanks => blanks = [blank]
  | .many, _ => True

theorem Stands.add {run : BlankRun} {blanks : List Glyph} (h : run.Stands blanks) (g : Glyph) :
    (run.add g).Stands (blanks ++ [g]) := by
  cases run with
  | none =>
    obtain rfl : blanks = [] := h
    rfl
  | one blank => trivial
  | many => trivial

end BlankRun

/-- A space is read on its own, and so is what stands before it. -/
theorem glyphs_ofGlyphs_space {t : Text} {front : List Glyph} (hfront : front <:+: t.glyphs) (back : List Glyph) :
    Text.glyphs (Text.ofGlyphs (front ++ BlankRun.space :: back)) =
      front ++ BlankRun.space :: Text.glyphs (Text.ofGlyphs back) := by
  have hbytes : Text.ofGlyphs (front ++ BlankRun.space :: back) =
      Text.ofGlyphs front ++ 0x20 :: Text.ofGlyphs back := Text.ofGlyphs_append _ _
  rw [hbytes, Text.glyphs_append_cons _ (by decide), Text.glyphs_ofGlyphs_of_isInfix hfront]
  rfl

/-- What is collapsed is read as it was written. The characters in `front` are left as they were; the first bytes
behind them may be such that they belong together. -/
theorem glyphs_append_collapseBlanksAfter {t : Text} {front blanks gs : List Glyph} {run : BlankRun}
    (hrun : run.Stands blanks) (ht : front ++ blanks ++ gs <:+: t.glyphs) :
    Text.glyphs (Text.ofGlyphs (front ++ collapseBlanksAfter run gs)) = front ++ collapseBlanksAfter run gs := by
  induction gs generalizing front blanks run with
  | nil =>
    rw [collapseBlanksAfter]
    rw [List.append_nil] at ht
    cases run with
    | none =>
      obtain rfl : blanks = [] := hrun
      exact Text.glyphs_ofGlyphs_of_isInfix ht
    | one blank =>
      obtain rfl : blanks = [blank] := hrun
      exact Text.glyphs_ofGlyphs_of_isInfix ht
    | many => exact glyphs_ofGlyphs_space ((List.prefix_append front blanks).isInfix.trans ht) []
  | cons g gs ih =>
    rw [collapseBlanksAfter]
    split
    · exact ih (hrun.add g) (by simpa using ht)
    · cases run with
      | none =>
        obtain rfl : blanks = [] := hrun
        have hnext := @ih (front ++ [g]) [] .none rfl (by simpa using ht)
        simpa [BlankRun.toGlyphs] using hnext
      | one blank =>
        obtain rfl : blanks = [blank] := hrun
        have hnext := @ih (front ++ [blank, g]) [] .none rfl (by simpa using ht)
        simpa [BlankRun.toGlyphs] using hnext
      | many =>
        have hfront : front <:+: t.glyphs := by
          rw [List.append_assoc] at ht
          exact (List.prefix_append front _).isInfix.trans ht
        have hback : [g] ++ [] ++ gs <:+: t.glyphs := (List.suffix_append (front ++ blanks) (g :: gs)).isInfix.trans ht
        have hnext := @ih [g] [] .none rfl hback
        rw [BlankRun.toGlyphs, List.singleton_append, glyphs_ofGlyphs_space hfront]
        exact congrArg (front ++ BlankRun.space :: ·) hnext

theorem glyphs_collapseBlanks (t : Text) :
    (collapseBlanks t).glyphs = collapseBlanksAfter .none t.glyphs :=
  @glyphs_append_collapseBlanksAfter t [] [] t.glyphs .none rfl (List.infix_refl _)

theorem isChain_collapseBlanksAfter (run : BlankRun) (gs : List Glyph) :
    (collapseBlanksAfter run gs).IsChain fun a b => CharClass.Apart a.char b.char := by
  induction gs generalizing run with
  | nil =>
    rw [collapseBlanksAfter]
    cases run <;> simp [BlankRun.toGlyphs]
  | cons g gs ih =>
    rw [collapseBlanksAfter]
    split
    · exact ih (run.add g)
    · rename_i hg
      have hbehind : (g :: collapseBlanksAfter .none gs).IsChain fun a b => CharClass.Apart a.char b.char := by
        rw [List.isChain_cons]
        exact ⟨fun _ _ h => hg h.1, ih .none⟩
      cases run with
      | none => exact hbehind
      | one blank => exact List.isChain_cons_cons.mpr ⟨fun h => hg h.2, hbehind⟩
      | many => exact List.isChain_cons_cons.mpr ⟨fun h => hg h.2, hbehind⟩

/-- Where no two blanks stand in a row there is nothing to collapse, also not behind one blank. -/
theorem collapseBlanksAfter_of_isChain (gs : List Glyph) :
    (gs.IsChain (fun a b => CharClass.Apart a.char b.char) → collapseBlanksAfter .none gs = gs) ∧
      ∀ blank, CharClass.isCollapsible blank.char = true →
        (blank :: gs).IsChain (fun a b => CharClass.Apart a.char b.char) →
        collapseBlanksAfter (.one blank) gs = blank :: gs := by
  induction gs with
  | nil => exact ⟨fun _ => rfl, fun _ _ _ => rfl⟩
  | cons g gs ih =>
    obtain ⟨hnone, hone⟩ := ih
    constructor
    · intro hgs
      rw [collapseBlanksAfter]
      split
      · rename_i hg
        exact hone g hg hgs
      · exact congrArg (g :: ·) (hnone hgs.tail)
    · intro blank hblank hgs
      obtain ⟨hapart, hgs⟩ := List.isChain_cons_cons.mp hgs
      rw [collapseBlanksAfter, if_neg fun hg => hapart ⟨hblank, hg⟩, hnone hgs.tail]
      rfl

theorem hasNoBlankRun_collapseBlanks (t : Text) : (collapseBlanks t).HasNoBlankRun := by
  rw [Text.HasNoBlankRun, Text.chars, glyphs_collapseBlanks, List.isChain_map]
  exact isChain_collapseBlanksAfter .none t.glyphs

theorem collapseBlanks_of_hasNoBlankRun {t : Text} (ht : t.HasNoBlankRun) : collapseBlanks t = t := by
  rw [Text.HasNoBlankRun, Text.chars, List.isChain_map] at ht
  rw [collapseBlanks, (collapseBlanksAfter_of_isChain _).1 ht, Text.ofGlyphs_glyphs]

/-- The characters of a text that are no blanks. -/
def inkOf (t : Text) : List Char := t.chars.filter fun c => !CharClass.isCollapsible c

theorem inkOf_collapseBlanks (t : Text) : inkOf (collapseBlanks t) = inkOf t := by
  have hglyphs : ∀ t : Text, inkOf t = (t.glyphs.filter fun g => !CharClass.isCollapsible g.char).map Glyph.char :=
    fun t => List.filter_map
  rw [hglyphs, hglyphs, glyphs_collapseBlanks, @filter_collapseBlanksAfter t.glyphs .none rfl]

/-! ### Tokens -/

theorem isBlank_text {value : Text} {span : Span} : Token.isBlank ⟨.text value, span⟩ = true ↔ inkOf value = [] := by
  simp [Token.isBlank, inkOf]

theorem Token.isBlank_collapseBlanks (t : Token) : t.collapseBlanks.isBlank = t.isBlank := by
  obtain ⟨lexeme, span⟩ := t
  cases lexeme with
  | text value =>
    rw [Bool.eq_iff_iff, isBlank_text, ← inkOf_collapseBlanks]
    exact isBlank_text
  | _ => rfl

/-- A token that has no two blanks in a row if it is text. -/
def Token.IsTidy (t : Token) : Prop := ∀ value, t.lexeme = .text value → value.HasNoBlankRun

theorem Token.isTidy_collapseBlanks (t : Token) : t.collapseBlanks.IsTidy := by
  obtain ⟨lexeme, span⟩ := t
  cases lexeme with
  | text value =>
    rintro _ ⟨⟩
    exact hasNoBlankRun_collapseBlanks value
  | _ => rintro _ ⟨⟩

theorem Token.collapseBlanks_of_isTidy {t : Token} (ht : t.IsTidy) : t.collapseBlanks = t := by
  obtain ⟨lexeme, span⟩ := t
  cases lexeme with
  | text value => exact congrArg (fun v => Token.mk (.text v) span) (collapseBlanks_of_hasNoBlankRun (ht value rfl))
  | _ => rfl

/-! ### Tidy nodes -/

mutual

/-- Outside the elements that keep their blanks no text of a node is blank, and none has two blanks in a row. -/
def Node.IsTidy : Node → Prop
  | .element name _ children _ _ => keepsBlanks name = true ∨ TidyIn children
  | .text value tokens _ =>
    (∃ t ∈ tokens, t.isBlank = false) ∧ (∀ t ∈ tokens, t.IsTidy) ∧ value.HasNoBlankRun
  | .comment .. => True
  | .block _ _ children _ => TidyIn children

/-- Outside the elements that keep their blanks no text of some nodes is blank, and none has two blanks in a
row. -/
def TidyIn : List Node → Prop
  | [] => True
  | node :: rest => node.IsTidy ∧ TidyIn rest

end

mutual

theorem Node.isTidy_removeBlanks {n kept : Node} (hkept : n.removeBlanks = some kept) : kept.IsTidy := by
  match n with
  | .element name attrs children selfClosing spans =>
    simp only [Node.removeBlanks, Option.some.injEq] at hkept
    subst hkept
    by_cases hname : keepsBlanks name = true
    · exact .inl hname
    · rw [if_neg hname]
      exact .inr (tidyIn_removeBlanks children)
  | .text value tokens span =>
    rw [Node.removeBlanks] at hkept
    split at hkept
    · cases hkept
    · rename_i hink
      cases hkept
      obtain ⟨t, ht, hblank⟩ : ∃ t ∈ tokens, t.isBlank = false := by simpa using hink
      refine ⟨⟨t.collapseBlanks, List.mem_map_of_mem ht, by rw [t.isBlank_collapseBlanks, hblank]⟩, ?_,
        hasNoBlankRun_collapseBlanks value⟩
      intro t ht
      obtain ⟨token, -, rfl⟩ := List.mem_map.mp ht
      exact token.isTidy_collapseBlanks
  | .comment body span =>
    simp only [Node.removeBlanks, Option.some.injEq] at hkept
    subst hkept
    trivial
  | .block name parameters children spans =>
    simp only [Node.removeBlanks, Option.some.injEq] at hkept
    subst hkept
    exact tidyIn_removeBlanks children

theorem tidyIn_removeBlanks (ns : List Node) : TidyIn (removeBlanks ns) := by
  match ns with
  | [] => trivial
  | n :: rest =>
    rw [removeBlanks]
    cases hn : n.removeBlanks with
    | none => exact tidyIn_removeBlanks rest
    | some kept => exact ⟨Node.isTidy_removeBlanks hn, tidyIn_removeBlanks rest⟩

end

mutual

theorem Node.removeBlanks_of_isTidy {n : Node} (hn : n.IsTidy) : n.removeBlanks = some n := by
  match n with
  | .element name attrs children selfClosing spans =>
    rw [Node.removeBlanks]
    rcases hn with hname | hchildren
    · rw [if_pos hname]
    · rw [removeBlanks_of_tidyIn hchildren, ite_self]
  | .text value tokens span =>
    obtain ⟨⟨t, ht, hblank⟩, htokens, hvalue⟩ := hn
    have hink : ¬ tokens.all Token.isBlank = true := by
      intro hall
      rw [List.all_eq_true.mp hall t ht] at hblank
      cases hblank
    have hsame : tokens.map Token.collapseBlanks = tokens.map id :=
      List.map_congr_left fun t ht => Token.collapseBlanks_of_isTidy (htokens t ht)
    rw [Node.removeBlanks, if_neg hink, hsame, List.map_id, collapseBlanks_of_hasNoBlankRun hvalue]
  | .comment body span => rfl
  | .block name parameters children spans =>
    rw [Node.removeBlanks, removeBlanks_of_tidyIn hn]

/-- There is nothing to remove from tidy nodes. -/
theorem removeBlanks_of_tidyIn {ns : List Node} (hns : TidyIn ns) : removeBlanks ns = ns := by
  match ns with
  | [] => rfl
  | n :: rest =>
    obtain ⟨hn, hrest⟩ := hns
    rw [removeBlanks, Node.removeBlanks_of_isTidy hn, removeBlanks_of_tidyIn hrest]
    rfl

end

/-! ### What is left as it is -/

/-- What is met in document order when blanks are disregarded. The content of an element that keeps its blanks is
met as a whole. -/
inductive Mark where
  | elementStart (name : Text) (attrs : List Attr) (selfClosing : Bool) (spans : ElementSpans)
  | elementEnd
  | blockStart (name : Text) (parameters : List Parameter) (spans : BlockSpans)
  | blockEnd
  | comment (body : Text) (span : Span)
  | content (nodes : List Node)
  /-- A token that is not text. -/
  | token (t : Token)
  /-- A character of a text that is no blank. -/
  | char (c : Char)

def Token.marks (t : Token) : List Mark :=
  match t.lexeme with
  | .text value => (inkOf value).map .char
  | _ => [.token t]

mutual

/-- The marks of a node. -/
def Node.marks : Node → List Mark
  | .element name attrs children selfClosing spans =>
    .elementStart name attrs selfClosing spans ::
      ((if keepsBlanks name then [.content children] else marksIn children) ++ [.elementEnd])
  | .text _ tokens _ => tokens.flatMap Token.marks
  | .comment body span => [.comment body span]
  | .block name parameters children spans => .blockStart name parameters spans :: (marksIn children ++ [.blockEnd])

/-- The marks of some nodes. -/
def marksIn : List Node → List Mark
  | [] => []
  | node :: rest => node.marks ++ marksIn rest

end

theorem marksIn_append (first others : List Node) : marksIn (first ++ others) = marksIn first ++ marksIn others := by
  induction first with
  | nil => rfl
  | cons n first ih => rw [List.cons_append, marksIn, ih, marksIn, List.append_assoc]

theorem Token.marks_collapseBlanks (t : Token) : t.collapseBlanks.marks = t.marks := by
  obtain ⟨lexeme, span⟩ := t
  cases lexeme with
  | text value => exact congrArg (List.map Mark.char) (inkOf_collapseBlanks value)
  | _ => rfl

theorem Token.marks_of_isBlank {t : Token} (ht : t.isBlank = true) : t.marks = [] := by
  obtain ⟨lexeme, span⟩ := t
  cases lexeme with
  | text value => exact congrArg (List.map Mark.char) (isBlank_text.mp ht)
  | _ => cases ht

mutual

theorem Node.marks_removeBlanks (n : Node) : marksIn n.removeBlanks.toList = n.marks := by
  match n with
  | .element name attrs children selfClosing spans =>
    rw [Node.removeBlanks, Option.toList_some, marksIn, marksIn, List.append_nil, Node.marks, Node.marks]
    split
    · rfl
    · rw [marksIn_removeBlanks children]
  | .text value tokens span =>
    rw [Node.removeBlanks, Node.marks]
    split
    · rename_i hblank
      rw [Option.toList_none, marksIn, eq_comm, List.flatMap_eq_nil_iff]
      exact fun t ht => Token.marks_of_isBlank (List.all_eq_true.mp hblank t ht)
    · rw [Option.toList_some, marksIn, marksIn, List.append_nil, Node.marks, List.flatMap_map]
      exact congrArg (List.flatMap · tokens) (funext Token.marks_collapseBlanks)
  | .comment body span => rfl
  | .block name parameters children spans =>
    rw [Node.removeBlanks, Option.toList_some, marksIn, marksIn, List.append_nil, Node.marks, Node.marks,
      marksIn_removeBlanks children]

theorem marksIn_removeBlanks (ns : List Node) : marksIn (removeBlanks ns) = marksIn ns := by
  match ns with
  | [] => rfl
  | n :: rest =>
    rw [removeBlanks, marksIn_append, Node.marks_removeBlanks n, marksIn_removeBlanks rest, marksIn]

end

/-- Removing blanks once is enough. It leaves tidy nodes, and changes nothing that is met when blanks are
disregarded. -/
theorem removeBlanks_settles (nodes : List Node) :
    removeBlanks (removeBlanks nodes) = removeBlanks nodes ∧ TidyIn (removeBlanks nodes) ∧
      marksIn (removeBlanks nodes) = marksIn nodes :=
  ⟨removeBlanks_of_tidyIn (tidyIn_removeBlanks nodes), tidyIn_removeBlanks nodes, marksIn_removeBlanks nodes⟩

end Markup

end Stencil
