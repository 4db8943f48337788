import Stencil.Proofs.TokenGrammar

/-!
# Bracketing

Elements and blocks are the brackets of a source. A source that was read without problems is nested without
problems exactly if its brackets are a Dyck word: each end closes what was opened last, and everything is
closed.

The open containers of a nest are the stack on which a Dyck word is matched, for as long as no problem was
noted. A problem is never taken back, so an end that closes more than the innermost container cannot be made
good by what follows it.
-/

namespace Stencil.Markup

/-- What has to agree between the two ends of a container. -/
inductive ContainerKind where
  | element (name : Text)
  | block
deriving DecidableEq, Repr

inductive Bracket where
  | opening (kind : ContainerKind)
  | closing (kind : ContainerKind)
deriving DecidableEq, Repr

/-- The brackets of some lexemes; `tag` is the name of the start tag that is being read. -/
def brackets (tag : Text) : List Lexeme → List Bracket
  | [] => []
  | l :: rest =>
    match l with
    | .tagOpenStart name => brackets name rest
    | .tagOpenEnd =>
      if isVoidName tag then brackets tag rest else .opening (.element tag) :: brackets tag rest
    | .tagClose name => .closing (.element name) :: brackets tag rest
    | .blockOpenStart _ => .opening .block :: brackets tag rest
    | .blockClose => .closing .block :: brackets tag rest
    | _ => brackets tag rest

/-! ### Dyck words -/

/-- Each bracket is closed by one of its own kind, and what is opened inside it is closed before. -/
inductive Dyck : List Bracket → Prop
  | nil : Dyck []
  | wrap (kind : ContainerKind) {inner rest : List Bracket} (hinner : Dyck inner) (hrest : Dyck rest) :
      Dyck (.opening kind :: (inner ++ .closing kind :: rest))

namespace Bracket

/-- The kinds of the open containers, innermost first, after one more bracket; none if it closes another
kind than the innermost. -/
def follow : (stack : List ContainerKind) → Bracket → Option (List ContainerKind)
  | stack, .opening kind => some (kind :: stack)
  | innermost :: outer, .closing kind => if innermost = kind then some outer else none
  | [], .closing _ => none

def followAll (stack : List ContainerKind) (word : List Bracket) : Option (List ContainerKind) :=
  word.foldlM follow stack

@[simp] theorem followAll_nil (stack : List ContainerKind) : followAll stack [] = some stack := rfl

@[simp] theorem followAll_singleton (stack : List ContainerKind) (b : Bracket) :
    followAll stack [b] = follow stack b := bind_pure (follow stack b)

theorem followAll_append (stack : List ContainerKind) (first others : List Bracket) :
    followAll stack (first ++ others) =
      (followAll stack first).bind fun opened => followAll opened others :=
  List.foldlM_append

theorem followAll_closing (kind : ContainerKind) (stack : List ContainerKind) (word : List Bracket) :
    followAll (kind :: stack) (.closing kind :: word) = followAll stack word := by
  have hclosed : follow (kind :: stack) (.closing kind) = some stack := if_pos rfl
  rw [followAll, List.foldlM_cons, hclosed]
  rfl

end Bracket

open Markup.Bracket (follow followAll)

namespace Dyck

/-- A Dyck word leaves every stack as it was. -/
theorem followAll_eq {word : List Bracket} (h : Dyck word) (stack : List ContainerKind) :
    followAll stack word = some stack := by
  induction h generalizing stack with
  | nil => rfl
  | @wrap kind inner rest _ _ ihinner ihrest =>
    calc followAll stack (.opening kind :: (inner ++ .closing kind :: rest))
        = followAll (kind :: stack) (inner ++ .closing kind :: rest) := rfl
      _ = followAll (kind :: stack) (.closing kind :: rest) := by
          rw [Bracket.followAll_append, ihinner, Option.bind_some]
      _ = followAll stack rest := Bracket.followAll_closing kind stack rest
      _ = some stack := ihrest stack

theorem append {first others : List Bracket} (hfirst : Dyck first) (hothers : Dyck others) :
    Dyck (first ++ others) := by
  induction hfirst with
  | nil => exact hothers
  | wrap kind hinner _ _ ihrest =>
    rw [List.cons_append, List.append_assoc]
    exact wrap kind hinner ihrest

/-- The word closes everything on the stack, and what it opens itself. -/
def Closes : (stack : List ContainerKind) → (word : List Bracket) → Prop
  | [], word => Dyck word
  | kind :: stack, word =>
    ∃ inner rest, word = inner ++ .closing kind :: rest ∧ Dyck inner ∧ Closes stack rest

theorem Closes.prepend {stack : List ContainerKind} {first word : List Bracket} (hfirst : Dyck first)
    (hword : Closes stack word) : Closes stack (first ++ word) := by
  cases stack with
  | nil => exact hfirst.append hword
  | cons kind stack =>
    obtain ⟨inner, rest, rfl, hinner, hrest⟩ := hword
    exact ⟨first ++ inner, rest, (List.append_assoc ..).symm, hfirst.append hinner, hrest⟩

theorem closes_of_followAll {word : List Bracket} {stack : List ContainerKind}
    (h : followAll stack word = some []) : Closes stack word := by
  induction word generalizing stack with
  | nil =>
    obtain rfl : stack = [] := Option.some.inj h
    exact nil
  | cons b word ih =>
    cases b with
    | opening kind =>
      obtain ⟨inner, rest, rfl, hinner, hrest⟩ := @ih (kind :: stack) h
      have hprepend := Closes.prepend (wrap kind hinner nil) hrest
      rwa [List.cons_append, List.append_assoc] at hprepend
    | closing kind =>
      cases stack with
      | nil => cases h
      | cons innermost stack =>
        by_cases hkind : innermost = kind
        · subst hkind
          rw [Bracket.followAll_closing] at h
          exact ⟨[], word, rfl, nil, ih h⟩
        · rw [followAll, List.foldlM_cons, follow, if_neg hkind] at h
          cases h

theorem iff_followAll {word : List Bracket} : Dyck word ↔ followAll [] word = some [] :=
  ⟨fun h => h.followAll_eq [], closes_of_followAll⟩

end Dyck

/-! ### The brackets of pieces -/

theorem brackets_append_of_skip {tag : Text} {first : List Lexeme}
    (hfirst : ∀ l ∈ first, ∀ rest, brackets tag (l :: rest) = brackets tag rest)
    (rest : List Lexeme) : brackets tag (first ++ rest) = brackets tag rest := by
  induction first with
  | nil => rfl
  | cons l first ih =>
    rw [List.cons_append, hfirst l List.mem_cons_self,
      ih fun k hk => hfirst k (List.mem_cons_of_mem l hk)]

theorem Attr.mem_lexemes {a : Attr} {l : Lexeme} (hl : l ∈ a.lexemes) :
    (∃ name, l = .attrName name) ∨ (∃ quote, l = .attrQuote quote) ∨ ∃ value, l = .attrValue value := by
  rw [lexemes] at hl
  grind

theorem Piece.eq_of_isTextual {t : Token} (ht : isTextual t = true) :
    (∃ value, t.lexeme = .text value) ∨ (∃ value, t.lexeme = .rawText value) ∨
      ∃ expression, t.lexeme = .interpolation expression := by
  rw [isTextual] at ht
  split at ht <;> simp_all

theorem brackets_map_unmarked (tag : Text) (lexemes : List Lexeme) :
    brackets tag (lexemes.map Lexeme.unmarked) = brackets tag lexemes := by
  induction lexemes generalizing tag with
  | nil => rfl
  | cons l lexemes ih => cases l <;> simp only [List.map_cons, Lexeme.unmarked, brackets, ih]

namespace Piece

def brackets : Piece → List Bracket
  | .startTag name _ ending _ =>
    if ending == .opening && !isVoidName name then [.opening (.element name)] else []
  | .endTag name _ => [.closing (.element name)]
  | .text .. => []
  | .comment .. => []
  | .blockOpen .. => [.opening .block]
  | .blockClose _ => [.closing .block]

/-- Whether a piece is an end tag that no element has. -/
def endsVoid : Piece → Bool
  | .endTag name _ => isVoidName name
  | _ => false

theorem brackets_lexemes {piece : Piece} (hpiece : piece.IsWhole) (tag : Text) (rest : List Lexeme) :
    ∃ later, Markup.brackets tag (piece.lexemes ++ rest) =
      piece.brackets ++ Markup.brackets later rest := by
  cases piece with
  | startTag name attrs ending span =>
    refine ⟨name, ?_⟩
    rw [lexemes, List.cons_append, List.append_assoc]
    change Markup.brackets name (attrs.flatMap Attr.lexemes ++ (ending.lexemes ++ rest)) = _
    rw [brackets_append_of_skip]
    · cases ending <;> cases hvoid : isVoidName name <;>
        simp [StartTagEnd.lexemes, Markup.brackets, brackets, hvoid]
    · intro l hl rest
      obtain ⟨a, -, ha⟩ := List.mem_flatMap.mp hl
      rcases Attr.mem_lexemes ha with ⟨_, rfl⟩ | ⟨_, rfl⟩ | ⟨_, rfl⟩ <;> rfl
  | endTag name span => exact ⟨tag, rfl⟩
  | text first more =>
    refine ⟨tag, brackets_append_of_skip ?_ rest⟩
    intro l hl rest
    obtain ⟨t, ht, rfl⟩ := List.mem_map.mp hl
    rcases eq_of_isTextual (hpiece t ht).1 with ⟨_, heq⟩ | ⟨_, heq⟩ | ⟨_, heq⟩ <;> rw [heq] <;> rfl
  | comment body span => exact ⟨tag, rfl⟩
  | blockOpen name parameters nameSpan span =>
    refine ⟨tag, ?_⟩
    rw [lexemes, List.cons_append, List.append_assoc]
    change Bracket.opening .block :: Markup.brackets tag (parameters.map Parameter.lexeme ++ _) = _
    rw [brackets_append_of_skip]
    · rfl
    · intro l hl rest
      obtain ⟨p, -, rfl⟩ := List.mem_map.mp hl
      rfl
  | blockClose span => exact ⟨tag, rfl⟩

/-- The brackets of a source are those of its pieces. -/
theorem brackets_flatMap_lexemes {pieces : List Piece} (hpieces : ∀ piece ∈ pieces, piece.IsWhole)
    (tag : Text) :
    Markup.brackets tag (pieces.flatMap lexemes ++ [.eof]) = pieces.flatMap brackets := by
  induction pieces generalizing tag with
  | nil => rfl
  | cons piece pieces ih =>
    obtain ⟨hpiece, hrest⟩ := List.forall_mem_cons.mp hpieces
    rw [List.flatMap_cons, List.append_assoc]
    obtain ⟨later, hlater⟩ := brackets_lexemes hpiece tag (pieces.flatMap lexemes ++ [.eof])
    rw [hlater, ih hrest, List.flatMap_cons]

theorem tagClose_mem_lexemes {piece : Piece} (hpiece : piece.IsWhole) {name : Text} :
    .tagClose name ∈ piece.lexemes ↔ ∃ span, piece = .endTag name span := by
  cases piece with
  | startTag tag attrs ending span =>
    have hattrs : ∀ a ∈ attrs, Lexeme.tagClose name ∉ a.lexemes := by
      intro a _ ha
      simpa using Attr.mem_lexemes ha
    cases ending <;> simpa [lexemes, StartTagEnd.lexemes] using hattrs
  | endTag tag span => simp [lexemes, eq_comm]
  | text first more =>
    simp only [lexemes, reduceCtorEq, exists_false, iff_false]
    intro hmem
    obtain ⟨t, ht, hlexeme⟩ := List.mem_map.mp hmem
    simpa [hlexeme] using eq_of_isTextual (hpiece t ht).1
  | comment body span => simp [lexemes]
  | blockOpen tag parameters nameSpan span => simp [lexemes, Parameter.lexeme]
  | blockClose span => simp [lexemes]

/-- No end tag of a source names a void element if none of its pieces ends one. -/
theorem Hold.tagClose_iff {pieces : List Piece} {lexemes : List Lexeme} (h : Hold pieces lexemes) :
    (∀ name, .tagClose name ∈ lexemes → isVoidName name = false) ↔ pieces.any endsVoid = false := by
  have hmem : ∀ name, Lexeme.tagClose name ∈ lexemes ↔ ∃ span, .endTag name span ∈ pieces := by
    intro name
    have hunmarked : Lexeme.tagClose name ∈ lexemes ↔
        Lexeme.tagClose name ∈ lexemes.map Lexeme.unmarked := by
      constructor
      · intro hl
        exact List.mem_map.mpr ⟨_, hl, rfl⟩
      · intro hl
        obtain ⟨l, hl, heq⟩ := List.mem_map.mp hl
        cases l <;> simp_all [Lexeme.unmarked]
    rw [hunmarked, h.lexemes, List.mem_append, List.mem_flatMap]
    constructor
    · rintro (⟨piece, hpiece, hl⟩ | hl)
      · obtain ⟨span, rfl⟩ := (tagClose_mem_lexemes (h.whole piece hpiece)).mp hl
        exact ⟨span, hpiece⟩
      · simp at hl
    · rintro ⟨span, hpiece⟩
      exact .inl ⟨_, hpiece, List.mem_singleton.mpr rfl⟩
  simp only [hmem, List.any_eq_false]
  constructor
  · intro hnames piece hpiece
    cases piece with
    | endTag name span => simp [endsVoid, hnames name ⟨span, hpiece⟩]
    | _ => simp [endsVoid]
  · rintro hpieces name ⟨span, hpiece⟩
    simpa [endsVoid] using hpieces _ hpiece

end Piece

/-! ### Nesting -/

@[simp] def Container.kind : Container → ContainerKind
  | .element name _ _ => .element name
  | .block .. => .block

namespace Nest

/-- The kinds of the open containers, innermost first, as long as there is no problem. -/
def opened? (t : Nest) : Option (List ContainerKind) :=
  if t.problems.isEmpty then some (t.frames.map fun f => f.container.kind) else none

theorem opened?_add (t : Nest) (n : Node) : (t.add n).opened? = t.opened? := by
  obtain ⟨frames, roots, problems⟩ := t
  cases frames <;> rfl

theorem opened?_push (t : Nest) (c : Container) :
    (t.push c).opened? = t.opened?.bind fun stack => follow stack (.opening c.kind) := by
  rw [opened?, opened?]
  cases hproblems : t.problems.isEmpty <;> simp [push, hproblems, follow]

theorem opened?_note (t : Nest) (p : Problem) (span : Span) : (t.note p span).opened? = none := rfl

/-- Only the end of the innermost container closes one without a problem. -/
theorem opened?_close (t : Nest) {p : Container → Bool} {kind : ContainerKind}
    (hp : ∀ c, p c = true ↔ c.kind = kind) (span : Span) (problem : Problem) :
    (t.close p span problem).opened? =
      t.opened?.bind fun stack => follow stack (.closing kind) := by
  obtain ⟨frames, roots, problems⟩ := t
  cases frames with
  | nil =>
    rw [close]
    dsimp only
    rw [opened?_note, opened?]
    split <;> rfl
  | cons f fs =>
    rw [close]
    dsimp only
    by_cases hf : p f.container = true
    · rw [if_pos hf, List.length_cons, closeTo]
      dsimp only
      rw [if_pos hf, opened?_add, opened?, opened?]
      dsimp only
      split
      · rw [Option.bind_some, List.map_cons, follow, if_pos ((hp f.container).mp hf)]
      · rfl
    · have hkind : f.container.kind ≠ kind := fun h => hf ((hp f.container).mpr h)
      have hnone : ((Nest.mk (f :: fs) roots problems).opened?.bind fun stack =>
          follow stack (.closing kind)) = none := by
        rw [opened?]
        dsimp only
        split
        · rw [Option.bind_some, List.map_cons, follow, if_neg hkind]
        · rfl
      rw [if_neg hf, hnone]
      split <;> rfl

theorem opened?_addText (t : Nest) (first : Token) (rest : List Token) :
    (t.addText first rest).opened? = t.opened? := by
  rw [addText]
  split
  · rfl
  · exact opened?_add t _

/-- The stack follows the brackets of a piece, unless the piece ends a void element. -/
theorem opened?_step (t : Nest) (piece : Piece) :
    (t.step piece).opened? = t.opened?.bind fun stack =>
      if piece.endsVoid then none else followAll stack piece.brackets := by
  cases piece with
  | startTag name attrs ending span =>
    rw [step, Piece.brackets]
    split
    · simpa [Piece.endsVoid] using opened?_push t (.element name attrs span)
    · simpa [Piece.endsVoid] using opened?_add t _
  | endTag name span =>
    rw [step, Piece.brackets, Piece.endsVoid]
    split
    · rw [opened?_note]
      cases t.opened? <;> rfl
    · have hname : ∀ c : Container, c.isElement name = true ↔ c.kind = .element name := by
        intro c
        cases c <;> simp [Container.isElement]
      simpa using opened?_close t hname span (.unexpectedEndTag name)
  | text first rest =>
    simpa [step, Piece.brackets, Piece.endsVoid] using opened?_addText t first rest
  | comment body span => simpa [step, Piece.brackets, Piece.endsVoid] using opened?_add t _
  | blockOpen name parameters nameSpan span =>
    simpa [step, Piece.brackets, Piece.endsVoid] using
      opened?_push t (.block name parameters nameSpan span)
  | blockClose span =>
    have hblock : ∀ c : Container, c.isBlock = true ↔ c.kind = .block := by
      intro c
      cases c <;> simp [Container.isBlock]
    simpa [step, Piece.brackets, Piece.endsVoid] using
      opened?_close t hblock span .unexpectedBlockEnd

theorem opened?_run (t : Nest) (pieces : List Piece) :
    (pieces.foldl step t).opened? = t.opened?.bind fun stack =>
      if pieces.any Piece.endsVoid then none else followAll stack (pieces.flatMap Piece.brackets) := by
  induction pieces generalizing t with
  | nil => simp
  | cons piece pieces ih =>
    rw [List.foldl_cons, ih, opened?_step, Option.bind_assoc]
    congr 1
    funext stack
    rw [List.any_cons, List.flatMap_cons, Bracket.followAll_append]
    cases piece.endsVoid with
    | true => rfl
    | false =>
      cases pieces.any Piece.endsVoid with
      | true => cases followAll stack piece.brackets <;> rfl
      | false => rfl

end Nest

/-- Nesting is without problems if the stack follows to the end and is empty there. -/
theorem Tree.diagnostics_ofNest_eq_nil {t : Nest} :
    (ofNest t).diagnostics = [] ↔ t.opened? = some [] := by
  obtain ⟨frames, roots, problems⟩ := t
  cases problems <;> simp [ofNest, Nest.opened?]

/-- A source that was read without problems is nested without problems exactly if no end tag names a void
element and its brackets are a Dyck word. -/
theorem Tree.ofTokens_diagnostics_iff (options : ScanOptions) (text : Text)
    (hread : (TokenStream.ofText options text).diagnostics = []) :
    let tokens := (TokenStream.ofText options text).tokens
    (ofTokens tokens).diagnostics = [] ↔
      (∀ name, .tagClose name ∈ tokens.map Token.lexeme → isVoidName name = false) ∧
        Dyck (brackets [] (tokens.map Token.lexeme)) := by
  intro tokens
  have hhold := Piece.hold_ofText hread
  have hbrackets : brackets [] (tokens.map Token.lexeme) =
      (Piece.ofTokens tokens).flatMap Piece.brackets := by
    rw [← brackets_map_unmarked, hhold.lexemes, Piece.brackets_flatMap_lexemes hhold.whole]
  have hempty : Nest.empty.opened? = some [] := rfl
  rw [hhold.tagClose_iff, hbrackets, Dyck.iff_followAll, ofTokens, diagnostics_ofNest_eq_nil,
    Nest.opened?_run, hempty, Option.bind_some]
  cases (Piece.ofTokens tokens).any Piece.endsVoid <;> simp

/-- Elements inside a block inside an element. -/
def nestedList : Text := "<ul>@for (x of xs) \x7b<li>\x7b\x7bx\x7d\x7d<br></li>\x7d</ul>"

/-- A block that ends behind the paragraph it begins in. -/
def crossingBlock : Text := "<p>@if (x) \x7b</p>\x7d"

theorem nestedList_dyck_crossingBlock_not_dyck :
    let listed := (TokenStream.ofText ⟨false⟩ nestedList).tokens
    let crossed := (TokenStream.ofText ⟨false⟩ crossingBlock).tokens
    ((TokenStream.ofText ⟨false⟩ nestedList).diagnostics = [] ∧
        (Tree.ofTokens listed).diagnostics = [] ∧ Dyck (brackets [] (listed.map Token.lexeme))) ∧
      (TokenStream.ofText ⟨false⟩ crossingBlock).diagnostics = [] ∧
        (Tree.ofTokens crossed).diagnostics ≠ [] ∧
        ¬ ((∀ name, .tagClose name ∈ crossed.map Token.lexeme → isVoidName name = false) ∧
          Dyck (brackets [] (crossed.map Token.lexeme))) := by
  intro listed crossed
  have hread : (TokenStream.ofText ⟨false⟩ nestedList).diagnostics = [] := by decide +kernel
  have hread' : (TokenStream.ofText ⟨false⟩ crossingBlock).diagnostics = [] := by decide +kernel
  have hlisted : (Tree.ofTokens listed).diagnostics = [] := by decide +kernel
  have hcrossed : (Tree.ofTokens crossed).diagnostics ≠ [] := by decide +kernel
  have hdyck := (Tree.ofTokens_diagnostics_iff ⟨false⟩ nestedList hread).mp hlisted
  have hnot := Tree.ofTokens_diagnostics_iff ⟨false⟩ crossingBlock hread'
  exact ⟨⟨hread, hlisted, hdyck.2⟩, hread', hcrossed, fun h => hcrossed (hnot.mpr h)⟩

end Stencil.Markup
