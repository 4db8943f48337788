import Stencil.Proofs.Bracketing

/-!
# Flattening

A markup tree that was built without problems holds the tokens of its source, all of them and in their
order: written out in document order it gives them back. Only which quotes stand around a value is not kept,
nor are texts that are empty, nor a line feed right behind the start tag of an element that ignores it.

What a nest holds is the top level nodes and then, from the outside in, each open container with what it
contains so far. Every piece is put at the end of this.
-/

namespace Stencil.Markup

mutual

/-- The lexemes of a node in document order. -/
def Node.flattened : Node → List Lexeme
  | .element name attrs children selfClosing _ =>
    .tagOpenStart name :: (attrs.flatMap Attr.lexemes ++
      (if selfClosing then .tagOpenEndVoid else .tagOpenEnd) :: (flattenedIn children ++
        if selfClosing || isVoidName name then [] else [.tagClose name]))
  | .text _ tokens _ => tokens.map Token.lexeme
  | .comment body _ => [.comment body]
  | .block name parameters children _ =>
    .blockOpenStart name :: (parameters.map Parameter.lexeme ++
      .blockOpenEnd :: (flattenedIn children ++ [.blockClose]))

def flattenedIn : List Node → List Lexeme
  | [] => []
  | n :: rest => n.flattened ++ flattenedIn rest

end

theorem flattenedIn_append (first others : List Node) :
    flattenedIn (first ++ others) = flattenedIn first ++ flattenedIn others := by
  induction first with
  | nil => rfl
  | cons n first ih => rw [List.cons_append, flattenedIn, ih, flattenedIn, List.append_assoc]

namespace Lexeme

def withoutFirstLineFeed : Lexeme → Lexeme
  | .text (0x0A :: value) => .text value
  | l => l

/-- The name of the start tag that is being read behind a lexeme. -/
def tagAfter (tag : Text) : Lexeme → Text
  | .tagOpenStart name => name
  | _ => tag

/-- Whether a lexeme is something else than an empty text. -/
def shows (l : Lexeme) : Bool := l != .text []

end Lexeme

/-- The lexemes without the line feeds that are ignored. Here `tag` is the name of the start tag that is being
read, and `trims` tells whether it has just ended and its element ignores a line feed. -/
def withoutFirstLineFeeds (tag : Text) (trims : Bool) : List Lexeme → List Lexeme
  | [] => []
  | l :: rest =>
    (if trims then l.withoutFirstLineFeed else l) ::
      withoutFirstLineFeeds (l.tagAfter tag)
        (l == .tagOpenEnd && (Tag.ofName tag).ignoresFirstLineFeed) rest

/-- Lexemes inside a construct stay as they are. -/
theorem withoutFirstLineFeeds_append {first : List Lexeme} {tag : Text}
    (hfirst : ∀ l ∈ first, l.tagAfter tag = tag ∧ l ≠ .tagOpenEnd) (rest : List Lexeme) :
    withoutFirstLineFeeds tag false (first ++ rest) =
      first ++ withoutFirstLineFeeds tag false rest := by
  induction first with
  | nil => rfl
  | cons l first ih =>
    obtain ⟨⟨htag, hend⟩, hmore⟩ := List.forall_mem_cons.mp hfirst
    rw [List.cons_append, withoutFirstLineFeeds, htag, beq_false_of_ne hend, Bool.false_and, ih hmore]
    rfl

theorem map_unmarked_withoutFirstLineFeeds (tag : Text) (trims : Bool) (lexemes : List Lexeme) :
    (withoutFirstLineFeeds tag trims lexemes).map Lexeme.unmarked =
      withoutFirstLineFeeds tag trims (lexemes.map Lexeme.unmarked) := by
  have htrim : ∀ l : Lexeme, l.withoutFirstLineFeed.unmarked = l.unmarked.withoutFirstLineFeed := by
    intro l
    unfold Lexeme.withoutFirstLineFeed
    split
    · rfl
    · cases l <;> simp_all [Lexeme.unmarked]
  induction lexemes generalizing tag trims with
  | nil => rfl
  | cons l lexemes ih =>
    have htag : l.unmarked.tagAfter tag = l.tagAfter tag := by cases l <;> rfl
    have hend : (l.unmarked == .tagOpenEnd) = (l == .tagOpenEnd) := by
      cases l <;> rfl
    rw [withoutFirstLineFeeds, List.map_cons, ih, List.map_cons, withoutFirstLineFeeds, htag, hend,
      ← htrim]
    cases trims <;> rfl

theorem ignoresFirstLineFeed_of_isVoidName {name : Text} (hname : isVoidName name = true) :
    (Tag.ofName name).ignoresFirstLineFeed = false := by
  unfold isVoidName at hname
  unfold Tag.ofName Tag.special? at *
  split
  · rfl
  · rename_i hvoid
    rw [if_neg hvoid] at hname
    repeat' split at hname
    all_goals cases hname

/-! ### Pieces -/

namespace Piece

/-- The lexemes of a piece where a first line feed may be ignored. -/
def lexemesAt (trims : Bool) : Piece → List Lexeme
  | .text first rest =>
    (if trims then first.lexeme.withoutFirstLineFeed else first.lexeme) :: rest.map Token.lexeme
  | piece => piece.lexemes

/-- Whether a line feed right behind a piece is ignored. -/
def trims : Piece → Bool
  | .startTag name _ .opening _ => (Tag.ofName name).ignoresFirstLineFeed
  | _ => false

theorem lexemesAt_of_not_text {piece : Piece} (hpiece : startsWithText [piece] = false)
    (trims : Bool) : piece.lexemesAt trims = piece.lexemes := by
  cases piece with
  | text => cases hpiece
  | _ => rfl

theorem withoutFirstLineFeeds_lexemes {piece : Piece} (hpiece : piece.IsWhole) (tag : Text)
    (trims : Bool) (rest : List Lexeme) :
    ∃ later, withoutFirstLineFeeds tag trims (piece.lexemes ++ rest) =
      piece.lexemesAt trims ++ withoutFirstLineFeeds later piece.trims rest := by
  cases piece with
  | startTag name attrs ending span =>
    have hattrs : ∀ l ∈ attrs.flatMap Attr.lexemes, l.tagAfter name = name ∧ l ≠ .tagOpenEnd := by
      intro l hl
      obtain ⟨a, -, ha⟩ := List.mem_flatMap.mp hl
      rcases Attr.mem_lexemes ha with ⟨_, rfl⟩ | ⟨_, rfl⟩ | ⟨_, rfl⟩ <;> exact ⟨rfl, by rintro ⟨⟩⟩
    have hbehind : withoutFirstLineFeeds name false
        (attrs.flatMap Attr.lexemes ++ (ending.lexemes ++ rest)) =
          attrs.flatMap Attr.lexemes ++ (ending.lexemes ++
            withoutFirstLineFeeds name (Piece.startTag name attrs ending span).trims rest) := by
      rw [withoutFirstLineFeeds_append hattrs]
      cases ending with
      | opening => rfl
      | selfClosing => rfl
      | incomplete => exact absurd rfl hpiece
    refine ⟨name, ?_⟩
    rw [lexemesAt_of_not_text rfl, lexemes, List.cons_append, List.append_assoc, List.cons_append,
      List.append_assoc, ← hbehind]
    cases trims <;> rfl
  | endTag name span => exact ⟨tag, by cases trims <;> rfl⟩
  | text first more =>
    have htextual : ∀ t ∈ first :: more,
        t.lexeme.tagAfter tag = tag ∧ t.lexeme ≠ .tagOpenEnd := by
      intro t ht
      rcases eq_of_isTextual (hpiece t ht).1 with ⟨_, heq⟩ | ⟨_, heq⟩ | ⟨_, heq⟩ <;> rw [heq] <;>
        exact ⟨rfl, by rintro ⟨⟩⟩
    obtain ⟨⟨htag, hend⟩, hmore⟩ := List.forall_mem_cons.mp htextual
    refine ⟨tag, ?_⟩
    rw [lexemes, List.map_cons, List.cons_append, withoutFirstLineFeeds, htag, beq_false_of_ne hend,
      Bool.false_and, withoutFirstLineFeeds_append]
    · rfl
    · intro l hl
      obtain ⟨t, ht, rfl⟩ := List.mem_map.mp hl
      exact hmore t ht
  | comment body span => exact ⟨tag, by cases trims <;> rfl⟩
  | blockOpen name parameters nameSpan span =>
    have hparameters : ∀ l ∈ parameters.map Parameter.lexeme,
        l.tagAfter tag = tag ∧ l ≠ .tagOpenEnd := by
      intro l hl
      obtain ⟨p, -, rfl⟩ := List.mem_map.mp hl
      exact ⟨rfl, by rintro ⟨⟩⟩
    have hbehind : withoutFirstLineFeeds tag false
        (parameters.map Parameter.lexeme ++ ([.blockOpenEnd] ++ rest)) =
          parameters.map Parameter.lexeme ++ ([.blockOpenEnd] ++
            withoutFirstLineFeeds tag false rest) :=
      withoutFirstLineFeeds_append hparameters _
    refine ⟨tag, ?_⟩
    rw [← List.append_assoc, ← List.append_assoc] at hbehind
    cases trims <;> exact congrArg (_ :: ·) hbehind
  | blockClose span => exact ⟨tag, by cases trims <;> rfl⟩

end Piece

/-! ### Nesting -/

/-- The lexemes that open a container. -/
def Container.openingLexemes : Container → List Lexeme
  | .element name attrs _ => .tagOpenStart name :: (attrs.flatMap Attr.lexemes ++ [.tagOpenEnd])
  | .block name parameters _ _ =>
    .blockOpenStart name :: (parameters.map Parameter.lexeme ++ [.blockOpenEnd])

/-- An open container with what it contains so far. -/
def Frame.flattened (f : Frame) : List Lexeme :=
  f.container.openingLexemes ++ flattenedIn f.children.reverse

namespace Nest

def flattened (t : Nest) : List Lexeme :=
  flattenedIn t.roots.reverse ++ t.frames.reverse.flatMap Frame.flattened

theorem flattened_cons (f : Frame) (fs : List Frame) (roots : List Node)
    (problems : List Diagnostic) :
    (Nest.mk (f :: fs) roots problems).flattened =
      (Nest.mk fs roots problems).flattened ++ f.flattened := by
  simp [flattened]

theorem flattened_add (t : Nest) (n : Node) : (t.add n).flattened = t.flattened ++ n.flattened := by
  have hone : flattenedIn [n] = n.flattened := List.append_nil _
  obtain ⟨frames, roots, problems⟩ := t
  cases frames with
  | nil => simp [add, flattened, flattenedIn_append, hone]
  | cons f fs =>
    rw [add]
    dsimp only
    rw [flattened_cons, flattened_cons, Frame.flattened, Frame.flattened, Frame.add]
    simp [flattenedIn_append, hone]

theorem flattened_push (t : Nest) (c : Container) :
    (t.push c).flattened = t.flattened ++ c.openingLexemes := by
  obtain ⟨frames, roots, problems⟩ := t
  rw [push, flattened_cons, Frame.flattened]
  exact congrArg (_ ++ ·) (List.append_nil _)

/-- An end without a problem closes the innermost container. -/
theorem close_of_opened? {t : Nest} {p : Container → Bool} {span : Span} {problem : Problem}
    (hclean : (t.close p span problem).opened? ≠ none) :
    ∃ f fs, t.frames = f :: fs ∧ p f.container = true ∧
      t.close p span problem = add { t with frames := fs } (f.toNode (some span)) := by
  obtain ⟨frames, roots, problems⟩ := t
  cases frames with
  | nil => exact absurd rfl hclean
  | cons f fs =>
    rw [close] at hclean ⊢
    dsimp only at hclean ⊢
    by_cases hf : p f.container = true
    · refine ⟨f, fs, rfl, hf, ?_⟩
      rw [if_pos hf, List.length_cons, closeTo]
      dsimp only
      rw [if_pos hf]
    · rw [if_neg hf] at hclean
      split at hclean <;> exact absurd rfl hclean

/-- Whether a line feed is dropped from a text that comes next. -/
def trims (t : Nest) : Bool :=
  match t.frames with
  | ⟨.element name _ _, []⟩ :: _ => (Tag.ofName name).ignoresFirstLineFeed
  | _ => false

theorem lexeme_firstToken (t : Nest) (token : Token) :
    (t.firstToken token).lexeme =
      if t.trims then token.lexeme.withoutFirstLineFeed else token.lexeme := by
  obtain ⟨frames, roots, problems⟩ := t
  obtain ⟨l, s⟩ := token
  unfold firstToken trims Lexeme.withoutFirstLineFeed
  dsimp only
  split
  · split <;> rfl
  · rename_i hother
    split <;> split
    · split
      · exact absurd rfl (hother _ _ _ _ _ rfl)
      · rfl
    · rfl
    · contradiction
    · rfl

theorem trims_add (t : Nest) (n : Node) : (t.add n).trims = false := by
  obtain ⟨frames, roots, problems⟩ := t
  cases frames with
  | nil => rfl
  | cons f fs =>
    obtain ⟨c, children⟩ := f
    cases c <;> rfl

theorem trims_step {t : Nest} {piece : Piece} (hpiece : piece.IsWhole)
    (htext : Piece.startsWithText [piece] = false) (hclean : (t.step piece).opened? ≠ none) :
    (t.step piece).trims = piece.trims := by
  cases piece with
  | startTag name attrs ending span =>
    cases ending with
    | incomplete => exact absurd rfl hpiece
    | selfClosing => exact trims_add t _
    | opening =>
      rw [step]
      cases hvoid : isVoidName name with
      | false => rfl
      | true => exact (trims_add t _).trans (ignoresFirstLineFeed_of_isVoidName hvoid).symm
  | endTag name span =>
    rw [step] at hclean ⊢
    split at hclean
    · exact absurd rfl hclean
    · rename_i hvoid
      obtain ⟨f, fs, -, -, hclose⟩ := close_of_opened? hclean
      rw [if_neg hvoid, hclose]
      exact trims_add _ _
  | text => cases htext
  | comment body span => exact trims_add t _
  | blockOpen name parameters nameSpan span => rfl
  | blockClose span =>
    obtain ⟨f, fs, -, -, hclose⟩ := close_of_opened? hclean
    rw [step, hclose]
    exact trims_add _ _

theorem isWhole_firstToken {first : Token} {rest : List Token}
    (hpiece : (Piece.text first rest).IsWhole) (t : Nest) :
    (Piece.text (t.firstToken first) rest).IsWhole := by
  obtain ⟨hfirst, hrest⟩ := List.forall_mem_cons.mp hpiece
  refine List.forall_mem_cons.mpr ⟨?_, hrest⟩
  unfold firstToken
  split
  · split
    · exact ⟨rfl, nofun⟩
    · exact hfirst
  · exact hfirst

/-- A text that is not kept shows nothing. -/
theorem flattened_addText {t : Nest} {first : Token} {rest : List Token}
    (hpiece : (Piece.text first rest).IsWhole) :
    (t.addText first rest).flattened.filter Lexeme.shows =
      (t.flattened ++ (Piece.text first rest).lexemesAt t.trims).filter Lexeme.shows := by
  have hlexemes : (t.firstToken first :: rest).map Token.lexeme =
      (Piece.text first rest).lexemesAt t.trims := by
    rw [List.map_cons, lexeme_firstToken]
    rfl
  rw [addText]
  split
  · rename_i hempty
    have hcontent : ∀ u ∈ t.firstToken first :: rest, u.lexeme.content = [] :=
      List.flatMap_eq_nil_iff.mp (List.isEmpty_iff.mp hempty)
    have hnothing : ((t.firstToken first :: rest).map Token.lexeme).filter Lexeme.shows = [] := by
      rw [List.filter_eq_nil_iff]
      intro l hl
      obtain ⟨u, hu, rfl⟩ := List.mem_map.mp hl
      obtain ⟨htextual, hraw⟩ := isWhole_firstToken hpiece t u hu
      have hu := hcontent u hu
      rcases Piece.eq_of_isTextual htextual with ⟨_, heq⟩ | ⟨_, heq⟩ | ⟨_, heq⟩ <;>
        rw [heq] at hu hraw ⊢
      · obtain rfl : _ = [] := by simpa [Lexeme.content, Lexeme.parts] using hu
        decide
      · exact absurd (by simpa [Lexeme.content, Lexeme.parts] using hu) hraw
      · cases hu
    rw [List.filter_append, ← hlexemes, hnothing, List.append_nil]
  · rw [flattened_add, Node.flattened, hlexemes]

theorem flattened_close {t : Nest} {p : Container → Bool} {span : Span} {problem : Problem}
    {l : Lexeme} (hl : ∀ c, p c = true → ∀ children,
      (c.toNode children (some span)).flattened = c.openingLexemes ++ (flattenedIn children ++ [l]))
    (hclean : (t.close p span problem).opened? ≠ none) :
    (t.close p span problem).flattened = t.flattened ++ [l] := by
  obtain ⟨f, fs, hframes, hf, hclose⟩ := close_of_opened? hclean
  obtain ⟨frames, roots, problems⟩ := t
  obtain rfl : frames = f :: fs := hframes
  rw [hclose, flattened_add, flattened_cons, Frame.toNode, hl _ hf, Frame.flattened]
  simp only [List.append_assoc]

theorem flattened_step {t : Nest} {piece : Piece} (hpiece : piece.IsWhole)
    (hclean : (t.step piece).opened? ≠ none) :
    (t.step piece).flattened.filter Lexeme.shows =
      (t.flattened ++ piece.lexemesAt t.trims).filter Lexeme.shows := by
  cases piece with
  | startTag name attrs ending span =>
    rw [Piece.lexemesAt_of_not_text rfl, step]
    split
    · rename_i hopens
      obtain ⟨hending, -⟩ := Bool.and_eq_true_iff.mp hopens
      rw [flattened_push, eq_of_beq hending]
      rfl
    · rename_i hopens
      rw [flattened_add]
      cases ending with
      | incomplete => exact absurd rfl hpiece
      | selfClosing => rfl
      | opening =>
        have hvoid : isVoidName name = true := by simpa using hopens
        simp [Node.flattened, flattenedIn, hvoid, Piece.lexemes, StartTagEnd.lexemes]
  | endTag name span =>
    rw [Piece.lexemesAt_of_not_text rfl]
    rw [step] at hclean ⊢
    split at hclean
    · exact absurd rfl hclean
    · rename_i hvoid
      rw [if_neg hvoid, flattened_close _ hclean]
      · rfl
      · intro c hc children
        cases c with
        | block => cases hc
        | element tag attrs startTag =>
          obtain rfl : tag = name := by simpa [Container.isElement] using hc
          simp [Container.toNode, Node.flattened, Container.openingLexemes, hvoid]
  | text first rest => exact flattened_addText hpiece
  | comment body span =>
    rw [step, flattened_add]
    rfl
  | blockOpen name parameters nameSpan span =>
    rw [step, flattened_push]
    rfl
  | blockClose span =>
    rw [Piece.lexemesAt_of_not_text rfl, step, flattened_close _ hclean]
    · rfl
    · intro c hc children
      cases c with
      | element => cases hc
      | block name parameters nameSpan header =>
        simp [Container.toNode, Node.flattened, Container.openingLexemes]

theorem flattenedIn_ofNest {t : Nest} (hopened : t.opened? = some []) :
    flattenedIn (Tree.ofNest t).nodes = t.flattened := by
  obtain ⟨frames, roots, problems⟩ := t
  rw [opened?] at hopened
  split at hopened
  · obtain rfl : frames = [] := by simpa using hopened
    exact (List.append_nil _).symm
  · cases hopened

theorem opened?_ne_none_of_run {t : Nest} {pieces : List Piece}
    (hclean : (pieces.foldl step t).opened? ≠ none) : t.opened? ≠ none := by
  intro hnone
  rw [opened?_run, hnone] at hclean
  exact hclean rfl

/-- Pieces are put at the end of what the nest holds. Whether a line feed is ignored matters only if they
begin with a text, so only then the lexemes and the nest have to agree on it. -/
theorem flattened_run {t : Nest} {pieces : List Piece} (hwhole : ∀ piece ∈ pieces, piece.IsWhole)
    (hseparated : Piece.Separated pieces) (hclean : (pieces.foldl step t).opened? ≠ none)
    (tag : Text) (trims : Bool) (htrims : Piece.startsWithText pieces = true → t.trims = trims) :
    ((pieces.foldl step t).flattened ++ [Lexeme.eof]).filter Lexeme.shows =
      (t.flattened ++ withoutFirstLineFeeds tag trims (pieces.flatMap Piece.lexemes ++ [.eof])).filter
        Lexeme.shows := by
  induction pieces generalizing t tag trims with
  | nil => cases trims <;> rfl
  | cons piece pieces ih =>
    obtain ⟨hpiece, hmore⟩ := List.forall_mem_cons.mp hwhole
    have hstep : (t.step piece).opened? ≠ none := opened?_ne_none_of_run hclean
    obtain ⟨later, hlater⟩ := Piece.withoutFirstLineFeeds_lexemes hpiece tag trims
      (pieces.flatMap Piece.lexemes ++ [.eof])
    have hfirst : piece.lexemesAt t.trims = piece.lexemesAt trims := by
      cases piece with
      | text => rw [htrims rfl]
      | _ => rfl
    have hnext : Piece.startsWithText pieces = true → (t.step piece).trims = piece.trims := by
      intro hstarts
      apply trims_step hpiece _ hstep
      cases htext : Piece.startsWithText [piece] with
      | false => rfl
      | true => rw [hseparated.1 htext] at hstarts; cases hstarts
    rw [List.foldl_cons, ih hmore hseparated.2 hclean later piece.trims hnext, List.filter_append,
      flattened_step hpiece hstep, ← List.filter_append, hfirst, List.append_assoc, ← hlater,
      List.flatMap_cons, List.append_assoc]

end Nest

/-- Written out in document order, a tree that was built without problems gives back the lexemes of its
source. -/
theorem Tree.flattened_ofTokens (options : ScanOptions) (text : Text)
    (hread : (TokenStream.ofText options text).diagnostics = [])
    (hbuilt : (ofTokens (TokenStream.ofText options text).tokens).diagnostics = []) :
    let tokens := (TokenStream.ofText options text).tokens
    (flattenedIn (ofTokens tokens).nodes ++ [Lexeme.eof]).filter Lexeme.shows =
      ((withoutFirstLineFeeds [] false (tokens.map Token.lexeme)).map Lexeme.unmarked).filter
        Lexeme.shows := by
  intro tokens
  have hhold := Piece.hold_ofText hread
  have hopened := diagnostics_ofNest_eq_nil.mp hbuilt
  have hclean : ((Piece.ofTokens tokens).foldl Nest.step .empty).opened? ≠ none := by
    rw [hopened]
    exact Option.some_ne_none []
  calc (flattenedIn (ofTokens tokens).nodes ++ [Lexeme.eof]).filter Lexeme.shows
      = (((Piece.ofTokens tokens).foldl Nest.step .empty).flattened ++ [Lexeme.eof]).filter
          Lexeme.shows := by rw [ofTokens, Nest.flattenedIn_ofNest hopened]
    _ = (Nest.empty.flattened ++ withoutFirstLineFeeds [] false
          ((Piece.ofTokens tokens).flatMap Piece.lexemes ++ [Lexeme.eof])).filter Lexeme.shows :=
        Nest.flattened_run hhold.whole hhold.separated hclean [] false fun _ => rfl
    _ = (withoutFirstLineFeeds [] false
          ((tokens.map Token.lexeme).map Lexeme.unmarked)).filter Lexeme.shows := by
        rw [hhold.lexemes]
        rfl
    _ = _ := by rw [map_unmarked_withoutFirstLineFeeds]

/-- Both kinds of quotes, an ignored line feed in front of an interpolation, a void and a self-closing
element, and a block. -/
def sampleMarkup : Text :=
  "<pre a='1' b=2>\n\x7b\x7bx\x7d\x7d<br></pre><!--n-->@if (x) \x7b<i c=\"3\"/>\x7d<script>y</script>"

theorem sampleMarkup_flattened :
    let tokens := (TokenStream.ofText ⟨false⟩ sampleMarkup).tokens
    (TokenStream.ofText ⟨false⟩ sampleMarkup).diagnostics = [] ∧
      (Tree.ofTokens tokens).diagnostics = [] ∧
      (flattenedIn (Tree.ofTokens tokens).nodes ++ [Lexeme.eof]).filter Lexeme.shows =
        ((withoutFirstLineFeeds [] false (tokens.map Token.lexeme)).map Lexeme.unmarked).filter
          Lexeme.shows ∧
      (tokens.map Token.lexeme).length =
        ((flattenedIn (Tree.ofTokens tokens).nodes ++ [Lexeme.eof]).filter Lexeme.shows).length + 1 := by
  intro tokens
  have hread : (TokenStream.ofText ⟨false⟩ sampleMarkup).diagnostics = [] := by decide +kernel
  have hbuilt : (Tree.ofTokens tokens).diagnostics = [] := by decide +kernel
  exact ⟨hread, hbuilt, Tree.flattened_ofTokens ⟨false⟩ sampleMarkup hread hbuilt, by decide +kernel⟩

end Stencil.Markup
