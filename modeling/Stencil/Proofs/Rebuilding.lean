import Stencil.Proofs.Places

/-!
# Rebuilding trees

A markup tree can be taken apart into the lexemes it is written with, and is rebuilt from them. This needs
that the tree is one a source can have: void elements close themselves, a text is not empty and not next to
another one, and its first line feed is not one that would be dropped. Places are put nowhere throughout.
-/

namespace Stencil.Markup

/-- A lexeme as a token that stands nowhere. -/
def Lexeme.token (l : Lexeme) : Token := ⟨l, .nowhere⟩

/-! ### Taking apart -/

/-- The mark that stands around a quoted value. -/
def quoteMark : Text := [0x22]

/-- The lexemes an attribute is written with. -/
def Attr.lexemes (a : Attr) : List Lexeme :=
  .attrName a.name ::
    if a.quoted then [.attrQuote quoteMark, .attrValue a.value, .attrQuote quoteMark]
    else if a.hasValue then [.attrValue a.value] else []

def Parameter.lexeme (p : Parameter) : Lexeme := .blockParameter p.expression

/-- The lexeme a start tag ends with. -/
def StartTagEnd.lexemes : StartTagEnd → List Lexeme
  | .opening => [.tagOpenEnd]
  | .selfClosing => [.tagOpenEndVoid]
  | .incomplete => []

def Piece.lexemes : Piece → List Lexeme
  | .startTag name attrs ending _ =>
    .tagOpenStart name :: (attrs.flatMap Attr.lexemes ++ ending.lexemes)
  | .endTag name _ => [.tagClose name]
  | .text first rest => (first :: rest).map Token.lexeme
  | .comment body _ => [.comment body]
  | .blockOpen name parameters _ _ =>
    .blockOpenStart name :: (parameters.map Parameter.lexeme ++ [.blockOpenEnd])
  | .blockClose _ => [.blockClose]

mutual

def Node.pieces : Node → List Piece
  | .element name attrs children selfClosing _ =>
    if selfClosing then [.startTag name attrs .selfClosing .nowhere]
    else .startTag name attrs .opening .nowhere :: (piecesIn children ++ [.endTag name .nowhere])
  | .text _ [] _ => []
  | .text _ (first :: rest) _ => [.text first rest]
  | .comment body _ => [.comment body .nowhere]
  | .block name parameters children _ =>
    .blockOpen name parameters .nowhere .nowhere :: (piecesIn children ++ [.blockClose .nowhere])

def piecesIn : List Node → List Piece
  | [] => []
  | n :: rest => n.pieces ++ piecesIn rest

end

/-- The lexemes some nodes are written with. -/
def lexemesIn (nodes : List Node) : List Lexeme := (piecesIn nodes).flatMap Piece.lexemes

/-! ### Trees a source can have -/

/-- An attribute that is written in one of the three forms, and stands nowhere. -/
def Attr.Regular (a : Attr) : Prop :=
  a = ⟨a.name, [], false, false, .nowhere, .nowhere, none⟩ ∨
    a = ⟨a.name, a.value, true, a.quoted, .nowhere, .nowhere, some .nowhere⟩

def startsWithText : List Node → Bool
  | .text .. :: _ => true
  | _ => false

mutual

/-- A node that a source can have, placed nowhere. -/
def Node.Regular : Node → Prop
  | .element name attrs children selfClosing spans =>
    (∀ a ∈ attrs, a.Regular) ∧ spans = ⟨.nowhere, .nowhere, some .nowhere⟩ ∧
      (isVoidName name = true → selfClosing = true) ∧ (selfClosing = true → children = []) ∧
      (Tag.ofName name).ignoresFirstLineFeed = false ∧ RegularIn children
  | .text value tokens span =>
    value ≠ [] ∧ (value = tokens.flatMap fun t => t.lexeme.content) ∧
      (∀ t ∈ tokens, Piece.isTextual t = true ∧ t.span = .nowhere) ∧ span = .nowhere
  | .comment _ span => span = .nowhere
  | .block _ parameters children spans =>
    (∀ p ∈ parameters, p.span = .nowhere) ∧
      spans = ⟨.nowhere, .nowhere, .nowhere, some .nowhere⟩ ∧ RegularIn children

/-- Nodes that a source can have one behind the other: no two texts are neighbours. -/
def RegularIn : List Node → Prop
  | [] => True
  | n :: rest =>
    n.Regular ∧ (startsWithText [n] = true → startsWithText rest = false) ∧ RegularIn rest

end

/-! ### Nesting -/

namespace Nest

/-- No line feed is dropped from a text that comes next. -/
def Keeps (t : Nest) : Prop := ∀ token, t.firstToken token = token

theorem keeps_add (t : Nest) (n : Node) : (t.add n).Keeps := by
  intro token
  obtain ⟨frames, roots, problems⟩ := t
  cases frames with
  | nil => unfold firstToken; split <;> simp_all [add]
  | cons f fs => unfold firstToken; split <;> simp_all [add, Frame.add]

theorem keeps_push_element (t : Nest) {name : Text} (attrs : List Attr) (span : Span)
    (hname : (Tag.ofName name).ignoresFirstLineFeed = false) :
    (t.push (.element name attrs span)).Keeps := by
  intro token
  unfold firstToken
  split
  · rename_i hframes
    obtain ⟨⟨rfl, _⟩, _⟩ : (name = _ ∧ _) ∧ _ := by simpa [push] using hframes
    rw [if_neg (by simp [hname])]
  · rfl

theorem keeps_push_block (t : Nest) (name : Text) (parameters : List Parameter)
    (nameSpan header : Span) : (t.push (.block name parameters nameSpan header)).Keeps := by
  intro token
  unfold firstToken
  split
  · rename_i hframes
    simp [push] at hframes
  · rfl

theorem foldl_add_push (t : Nest) (c : Container) (nodes : List Node) (children : List Node) :
    nodes.foldl add ⟨⟨c, children⟩ :: t.frames, t.roots, t.problems⟩ =
      ⟨⟨c, nodes.reverse ++ children⟩ :: t.frames, t.roots, t.problems⟩ := by
  induction nodes generalizing children with
  | nil => rfl
  | cons n rest ih =>
    rw [List.foldl_cons, List.reverse_cons, List.append_assoc, List.singleton_append]
    exact ih (n :: children)

/-- Closing the container that was opened last puts it where it was opened, with what was added. -/
theorem close_foldl_add_push (t : Nest) {c : Container} {p : Container → Bool} (hc : p c = true)
    (nodes : List Node) (span : Span) (problem : Problem) :
    (nodes.foldl add (t.push c)).close p span problem = t.add (c.toNode nodes (some span)) := by
  have hpush : t.push c = ⟨⟨c, []⟩ :: t.frames, t.roots, t.problems⟩ := rfl
  rw [hpush, foldl_add_push, List.append_nil, close]
  dsimp only
  rw [if_pos hc, List.length_cons, closeTo]
  dsimp only
  rw [if_pos hc, Frame.toNode, List.reverse_reverse]

theorem addText_of_keeps {t : Nest} (ht : t.Keeps) {value : Text} {first : Token}
    {rest : List Token} (hne : value ≠ [])
    (hvalue : value = (first :: rest).flatMap fun token => token.lexeme.content)
    (hplaces : ∀ token ∈ first :: rest, token.span = .nowhere) :
    t.addText first rest = t.add (.text value (first :: rest) .nowhere) := by
  have hlast : ((rest.getLast?.getD first).span) = .nowhere := by
    cases hrest : rest.getLast? with
    | none => exact hplaces first (by simp)
    | some last => exact hplaces last (by simp [List.mem_of_mem_getLast? hrest])
  rw [addText, ht first, ← hvalue, if_neg (by simp [hne]), hlast, hplaces first (by simp)]
  rfl

mutual

/-- The pieces of a node put it where reading has come to. -/
theorem run_pieces {t : Nest} (ht : t.Keeps) (n : Node) (hn : n.Regular) :
    n.pieces.foldl step t = t.add n := by
  match n with
  | .element name attrs children selfClosing spans =>
    obtain ⟨_, rfl, hvoid, hempty, hfeed, hchildren⟩ := hn
    cases selfClosing with
    | true =>
      rw [hempty rfl, Node.pieces, if_pos rfl]
      rfl
    | false =>
      have hname : isVoidName name = false := by
        cases hcase : isVoidName name with
        | false => rfl
        | true => cases hvoid hcase
      have hopen : t.step (.startTag name attrs .opening .nowhere) =
          t.push (.element name attrs .nowhere) := by
        rw [step, if_pos (by simp [hname])]
      -- While the children are read the element is the innermost container, and its end tag closes it.
      rw [Node.pieces, if_neg (by decide), List.foldl_cons, hopen, List.foldl_append,
        run_piecesIn (keeps_push_element t attrs .nowhere hfeed) children hchildren,
        List.foldl_cons, List.foldl_nil, step, if_neg (by simp [hname]),
        close_foldl_add_push t (by simp [Container.isElement])]
      rfl
  | .text value tokens span =>
    obtain ⟨hne, hvalue, htokens, rfl⟩ := hn
    cases tokens with
    | nil => exact absurd hvalue hne
    | cons first rest =>
      rw [Node.pieces]
      exact addText_of_keeps ht hne hvalue fun token htoken => (htokens token htoken).2
  | .comment body span =>
    obtain rfl := hn
    rfl
  | .block name parameters children spans =>
    obtain ⟨_, rfl, hchildren⟩ := hn
    have hopen : t.step (.blockOpen name parameters .nowhere .nowhere) =
        t.push (.block name parameters .nowhere .nowhere) := rfl
    rw [Node.pieces, List.foldl_cons, hopen, List.foldl_append,
      run_piecesIn (keeps_push_block t name parameters .nowhere .nowhere) children hchildren,
      List.foldl_cons, List.foldl_nil, step, close_foldl_add_push t (by rfl)]
    rfl

theorem run_piecesIn {t : Nest} (ht : t.Keeps) (nodes : List Node) (hnodes : RegularIn nodes) :
    (piecesIn nodes).foldl step t = nodes.foldl add t := by
  match nodes with
  | [] => rfl
  | n :: rest =>
    rw [piecesIn, List.foldl_append, run_pieces ht n hnodes.1,
      run_piecesIn (keeps_add t n) rest hnodes.2.2, List.foldl_cons]

end

theorem foldl_add_empty (nodes roots : List Node) :
    nodes.foldl add ⟨[], roots, []⟩ = ⟨[], nodes.reverse ++ roots, []⟩ := by
  induction nodes generalizing roots with
  | nil => rfl
  | cons n rest ih =>
    rw [List.foldl_cons, List.reverse_cons, List.append_assoc]
    exact ih (n :: roots)

end Nest

/-! ### Gathering -/

namespace Piece

/-- A piece that a source can have, placed nowhere. -/
def Regular : Piece → Prop
  | .startTag _ attrs ending span =>
    (∀ a ∈ attrs, a.Regular) ∧ ending ≠ .incomplete ∧ span = .nowhere
  | .endTag _ span => span = .nowhere
  | .text first rest => ∀ t ∈ first :: rest, isTextual t = true ∧ t.span = .nowhere
  | .comment _ span => span = .nowhere
  | .blockOpen _ parameters nameSpan span =>
    (∀ p ∈ parameters, p.span = .nowhere) ∧ nameSpan = .nowhere ∧ span = .nowhere
  | .blockClose span => span = .nowhere

def startsWithText : List Piece → Bool
  | .text .. :: _ => true
  | _ => false

/-- No two texts are neighbours. -/
def Separated : List Piece → Prop
  | [] => True
  | piece :: rest => (startsWithText [piece] = true → startsWithText rest = false) ∧ Separated rest

/-- What comes behind an attribute is no value and no quote that could belong to it. -/
theorem exists_attrs_head (attrs : List Attr) {ending : Lexeme}
    (hending : ending = .tagOpenEnd ∨ ending = .tagOpenEndVoid) (rest : List Token) :
    ∃ lexeme more,
      (attrs.flatMap Attr.lexemes).map Lexeme.token ++ ending.token :: rest =
        ⟨lexeme, .nowhere⟩ :: more ∧
      (∀ v, lexeme ≠ .attrValue v) ∧ ∀ q, lexeme ≠ .attrQuote q := by
  cases attrs with
  | nil =>
    refine ⟨ending, rest, rfl, ?_⟩
    rcases hending with rfl | rfl <;> exact ⟨nofun, nofun⟩
  | cons a attrs => exact ⟨.attrName a.name, _, rfl, nofun, nofun⟩

/-- Attributes are taken from their lexemes up to the end of the start tag. -/
theorem takeAttrs_lexemes {attrs : List Attr} (hattrs : ∀ a ∈ attrs, a.Regular) {ending : Lexeme}
    (hending : ending = .tagOpenEnd ∨ ending = .tagOpenEndVoid) (rest : List Token) :
    takeAttrs ((attrs.flatMap Attr.lexemes).map Lexeme.token ++ ending.token :: rest) =
      (attrs, ending.token :: rest) := by
  induction attrs with
  | nil => rcases hending with rfl | rfl <;> rfl
  | cons a attrs ih =>
    have htake := ih fun b hb => hattrs b (by simp [hb])
    obtain ⟨lexeme, more, hmore, hnovalue, hnoquote⟩ := exists_attrs_head attrs hending rest
    have ha := hattrs a (by simp)
    rw [List.flatMap_cons, List.map_append, List.append_assoc]
    rw [hmore] at htake ⊢
    obtain ⟨name, value, hasValue, quoted, span, nameSpan, valueSpan⟩ := a
    simp only [Attr.Regular, Attr.mk.injEq, true_and] at ha
    rcases ha with ⟨rfl, rfl, rfl, rfl, rfl, rfl⟩ | ⟨rfl, rfl, rfl, rfl⟩
    · change takeAttrs (⟨.attrName name, .nowhere⟩ :: ⟨lexeme, .nowhere⟩ :: more) = _
      rw [takeAttrs, htake] <;> simp [hnovalue, hnoquote]
    · cases quoted with
      | true =>
        change takeAttrs (⟨.attrName name, .nowhere⟩ :: ⟨.attrQuote quoteMark, .nowhere⟩ ::
          ⟨.attrValue value, .nowhere⟩ :: ⟨.attrQuote quoteMark, .nowhere⟩ ::
          ⟨lexeme, .nowhere⟩ :: more) = _
        rw [takeAttrs, htake]
        rfl
      | false =>
        change takeAttrs (⟨.attrName name, .nowhere⟩ :: ⟨.attrValue value, .nowhere⟩ ::
          ⟨lexeme, .nowhere⟩ :: more) = _
        rw [takeAttrs, htake]
        rfl

theorem takeParameters_lexemes {parameters : List Parameter}
    (hparameters : ∀ p ∈ parameters, p.span = .nowhere) (rest : List Token) :
    takeParameters ((parameters.map Parameter.lexeme).map Lexeme.token ++
      Lexeme.blockOpenEnd.token :: rest) = (parameters, Lexeme.blockOpenEnd.token :: rest) := by
  induction parameters with
  | nil => rfl
  | cons p parameters ih =>
    have htake := ih fun q hq => hparameters q (by simp [hq])
    have hspan := hparameters p (by simp)
    obtain ⟨expression, span⟩ := p
    dsimp only at hspan
    subst hspan
    change takeParameters (⟨.blockParameter expression, .nowhere⟩ ::
      ((parameters.map Parameter.lexeme).map Lexeme.token ++ Lexeme.blockOpenEnd.token :: rest)) = _
    rw [takeParameters, htake]

theorem takeStartTag_lexemes {attrs : List Attr} (hattrs : ∀ a ∈ attrs, a.Regular)
    {ending : StartTagEnd} (hending : ending ≠ .incomplete) (name : Text) (rest : List Token) :
    takeStartTag name .nowhere
        ((attrs.flatMap Attr.lexemes ++ ending.lexemes).map Lexeme.token ++ rest) =
      (.startTag name attrs ending .nowhere, rest) := by
  rw [List.map_append, List.append_assoc]
  cases ending with
  | opening =>
    have htake := takeAttrs_lexemes hattrs (.inl rfl) rest
    simp only [takeStartTag, StartTagEnd.lexemes, List.map_cons, List.map_nil, List.cons_append,
      List.nil_append, htake]
    rfl
  | selfClosing =>
    have htake := takeAttrs_lexemes hattrs (.inr rfl) rest
    simp only [takeStartTag, StartTagEnd.lexemes, List.map_cons, List.map_nil, List.cons_append,
      List.nil_append, htake]
    rfl
  | incomplete => exact absurd rfl hending

theorem takeBlockHeader_lexemes {parameters : List Parameter}
    (hparameters : ∀ p ∈ parameters, p.span = .nowhere) (name : Text) (rest : List Token) :
    takeBlockHeader name .nowhere
        ((parameters.map Parameter.lexeme ++ [Lexeme.blockOpenEnd]).map Lexeme.token ++ rest) =
      (.blockOpen name parameters .nowhere .nowhere, rest) := by
  rw [List.map_append, List.append_assoc]
  have htake := takeParameters_lexemes hparameters rest
  simp only [takeBlockHeader, List.map_cons, List.map_nil, List.cons_append, List.nil_append, htake]
  rfl

/-- The tokens of some pieces, with the end mark behind them. -/
def tokensOf (pieces : List Piece) : List Token :=
  (pieces.flatMap lexemes ++ [Lexeme.eof]).map Lexeme.token

theorem tokensOf_cons (piece : Piece) (rest : List Piece) :
    tokensOf (piece :: rest) = piece.lexemes.map Lexeme.token ++ tokensOf rest := by
  simp only [tokensOf, List.flatMap_cons, List.append_assoc, List.map_append]

/-- What follows a text is not part of it. -/
theorem head_not_isTextual {pieces : List Piece} (hpieces : startsWithText pieces = false) :
    ∀ t ∈ (tokensOf pieces).head?, isTextual t = false := by
  cases pieces with
  | nil => simp [tokensOf, isTextual, Lexeme.token]
  | cons piece rest =>
    rw [tokensOf_cons]
    cases piece with
    | text => cases hpieces
    | _ => simp [lexemes, isTextual, Lexeme.token]

theorem map_token_lexeme {tokens : List Token} (htokens : ∀ t ∈ tokens, t.span = .nowhere) :
    (tokens.map Token.lexeme).map Lexeme.token = tokens := by
  induction tokens with
  | nil => rfl
  | cons t tokens ih =>
    obtain ⟨lexeme, span⟩ := t
    have hspan : span = .nowhere := htokens ⟨lexeme, span⟩ (by simp)
    rw [List.map_cons, List.map_cons, ih fun u hu => htokens u (by simp [hu]), hspan]
    rfl

theorem gather_text {first : Token} {more rest : List Token}
    (htokens : ∀ t ∈ first :: more, isTextual t = true)
    (hrest : ∀ t ∈ rest.head?, isTextual t = false) (fuel : Nat) :
    gather (fuel + 1) (first :: (more ++ rest)) = .text first more :: gather fuel rest := by
  have hmore : ∀ t ∈ more, isTextual t = true := fun t ht => htokens t (by simp [ht])
  have htake : (more ++ rest).takeWhile isTextual = more := by
    rw [List.takeWhile_append_of_pos hmore]
    cases rest with
    | nil => simp
    | cons t rest => simp [hrest t rfl]
  have hdrop : (more ++ rest).dropWhile isTextual = rest := by
    rw [List.dropWhile_append_of_pos hmore]
    cases rest with
    | nil => rfl
    | cons t rest => simp [hrest t rfl]
  have hfirst := htokens first (by simp)
  obtain ⟨lexeme, span⟩ := first
  cases lexeme with
  | text value => simp only [gather, htake, hdrop]
  | rawText value => simp only [gather, htake, hdrop]
  | interpolation source => simp only [gather, htake, hdrop]
  | _ => cases hfirst

/-- A regular piece is gathered from its lexemes, whatever follows them. -/
theorem gather_piece {piece : Piece} (hpiece : piece.Regular) {rest : List Token}
    (hrest : startsWithText [piece] = true → ∀ t ∈ rest.head?, isTextual t = false) (fuel : Nat) :
    gather (fuel + 1) (piece.lexemes.map Lexeme.token ++ rest) = piece :: gather fuel rest := by
  cases piece with
  | startTag name attrs ending span =>
    obtain ⟨hattrs, hending, rfl⟩ := hpiece
    change gather (fuel + 1) (⟨.tagOpenStart name, .nowhere⟩ ::
      ((attrs.flatMap Attr.lexemes ++ ending.lexemes).map Lexeme.token ++ rest)) = _
    simp only [gather, takeStartTag_lexemes hattrs hending]
  | text first more =>
    have htoken : ((first :: more).map Token.lexeme).map Lexeme.token = first :: more :=
      map_token_lexeme fun t ht => (hpiece t ht).2
    rw [lexemes, htoken]
    exact gather_text (fun t ht => (hpiece t ht).1) (hrest rfl) fuel
  | blockOpen name parameters nameSpan span =>
    obtain ⟨hparameters, rfl, rfl⟩ := hpiece
    change gather (fuel + 1) (⟨.blockOpenStart name, .nowhere⟩ ::
      ((parameters.map Parameter.lexeme ++ [Lexeme.blockOpenEnd]).map Lexeme.token ++ rest)) = _
    simp only [gather, takeBlockHeader_lexemes hparameters]
  | endTag name span =>
    obtain rfl := hpiece
    rfl
  | comment body span =>
    obtain rfl := hpiece
    rfl
  | blockClose span =>
    obtain rfl := hpiece
    rfl

/-- Regular pieces are gathered from their tokens. -/
theorem gather_tokensOf {pieces : List Piece} (hregular : ∀ piece ∈ pieces, piece.Regular)
    (hseparated : Separated pieces) {fuel : Nat} (hfuel : pieces.length < fuel) :
    gather fuel (tokensOf pieces) = pieces := by
  induction pieces generalizing fuel with
  | nil =>
    obtain ⟨fuel, rfl⟩ : ∃ n, fuel = n + 1 := ⟨fuel - 1, by omega⟩
    rfl
  | cons piece rest ih =>
    rw [List.length_cons] at hfuel
    obtain ⟨fuel, rfl⟩ : ∃ n, fuel = n + 1 := ⟨fuel - 1, by omega⟩
    rw [tokensOf_cons, gather_piece (hregular piece (by simp))
      (fun htext => head_not_isTextual (hseparated.1 htext)),
      ih (fun p hp => hregular p (by simp [hp])) hseparated.2 (by omega)]

theorem length_lt_tokensOf (pieces : List Piece) : pieces.length < (tokensOf pieces).length := by
  induction pieces with
  | nil => decide
  | cons piece rest ih =>
    have hpiece : 0 < piece.lexemes.length := by cases piece <;> simp [lexemes]
    rw [tokensOf_cons, List.length_append, List.length_map, List.length_cons]
    omega

end Piece

/-! ### Rebuilding -/

mutual

theorem Node.regular_pieces (n : Node) (hn : n.Regular) : ∀ piece ∈ n.pieces, piece.Regular := by
  match n with
  | .element name attrs children selfClosing spans =>
    obtain ⟨hattrs, _, _, _, _, hchildren⟩ := hn
    intro piece hpiece
    rw [Node.pieces] at hpiece
    split at hpiece
    · obtain rfl := List.mem_singleton.mp hpiece
      exact ⟨hattrs, by decide, rfl⟩
    · rcases List.mem_cons.mp hpiece with rfl | hpiece
      · exact ⟨hattrs, by decide, rfl⟩
      · rcases List.mem_append.mp hpiece with hpiece | hpiece
        · exact regular_piecesIn children hchildren piece hpiece
        · obtain rfl := List.mem_singleton.mp hpiece
          exact rfl
  | .text value [] span => exact fun piece hpiece => by simp [Node.pieces] at hpiece
  | .text value (first :: rest) span =>
    intro piece hpiece
    rw [Node.pieces] at hpiece
    obtain rfl := List.mem_singleton.mp hpiece
    exact hn.2.2.1
  | .comment body span =>
    intro piece hpiece
    obtain rfl := List.mem_singleton.mp hpiece
    exact rfl
  | .block name parameters children spans =>
    obtain ⟨hparameters, _, hchildren⟩ := hn
    intro piece hpiece
    rw [Node.pieces] at hpiece
    rcases List.mem_cons.mp hpiece with rfl | hpiece
    · exact ⟨hparameters, rfl, rfl⟩
    · rcases List.mem_append.mp hpiece with hpiece | hpiece
      · exact regular_piecesIn children hchildren piece hpiece
      · obtain rfl := List.mem_singleton.mp hpiece
        exact rfl

theorem regular_piecesIn (nodes : List Node) (hnodes : RegularIn nodes) :
    ∀ piece ∈ piecesIn nodes, piece.Regular := by
  match nodes with
  | [] => exact fun piece hpiece => by simp [piecesIn] at hpiece
  | n :: rest =>
    intro piece hpiece
    rw [piecesIn] at hpiece
    rcases List.mem_append.mp hpiece with hpiece | hpiece
    · exact Node.regular_pieces n hnodes.1 piece hpiece
    · exact regular_piecesIn rest hnodes.2.2 piece hpiece

end

/-- Nodes that do not begin with a text have pieces that do not, whatever follows them. -/
theorem startsWithText_piecesIn {nodes : List Node} (hnodes : startsWithText nodes = false)
    {rest : List Piece} (hrest : Piece.startsWithText rest = false) :
    Piece.startsWithText (piecesIn nodes ++ rest) = false := by
  cases nodes with
  | nil => exact hrest
  | cons n nodes =>
    cases n with
    | text => cases hnodes
    | element name attrs children selfClosing spans => cases selfClosing <;> rfl
    | comment => rfl
    | block => rfl

mutual

/-- Texts stay apart when the pieces of a node are put in front of others. -/
theorem Node.separated_pieces (n : Node) (hn : n.Regular) {rest : List Piece}
    (hrest : Piece.Separated rest)
    (htext : startsWithText [n] = true → Piece.startsWithText rest = false) :
    Piece.Separated (n.pieces ++ rest) := by
  match n with
  | .element name attrs children selfClosing spans =>
    rw [Node.pieces]
    split
    · exact ⟨by simp [Piece.startsWithText], hrest⟩
    · rw [List.cons_append, List.append_assoc]
      refine ⟨by simp [Piece.startsWithText], ?_⟩
      exact separated_piecesIn children hn.2.2.2.2.2 ⟨by simp [Piece.startsWithText], hrest⟩ rfl
  | .text value [] span => exact hrest
  | .text value (first :: more) span => exact ⟨fun _ => htext rfl, hrest⟩
  | .comment body span => exact ⟨by simp [Piece.startsWithText], hrest⟩
  | .block name parameters children spans =>
    rw [Node.pieces, List.cons_append, List.append_assoc]
    refine ⟨by simp [Piece.startsWithText], ?_⟩
    exact separated_piecesIn children hn.2.2 ⟨by simp [Piece.startsWithText], hrest⟩ rfl

theorem separated_piecesIn (nodes : List Node) (hnodes : RegularIn nodes) {rest : List Piece}
    (hrest : Piece.Separated rest) (htext : Piece.startsWithText rest = false) :
    Piece.Separated (piecesIn nodes ++ rest) := by
  match nodes with
  | [] => exact hrest
  | n :: more =>
    rw [piecesIn, List.append_assoc]
    exact Node.separated_pieces n hnodes.1 (separated_piecesIn more hnodes.2.2 hrest htext)
      fun hn => startsWithText_piecesIn (hnodes.2.1 hn) htext

end

/-- A regular tree is rebuilt from its lexemes. -/
theorem Tree.ofTokens_lexemesIn {nodes : List Node} (hnodes : RegularIn nodes) :
    ofTokens ((lexemesIn nodes ++ [Lexeme.eof]).map Lexeme.token) = ⟨nodes, []⟩ := by
  have hseparated : Piece.Separated (piecesIn nodes) := by
    have happend := @separated_piecesIn nodes hnodes [] trivial rfl
    rwa [List.append_nil] at happend
  have hgather : Piece.ofTokens (Piece.tokensOf (piecesIn nodes)) = piecesIn nodes :=
    Piece.gather_tokensOf (regular_piecesIn nodes hnodes) hseparated (Piece.length_lt_tokensOf _)
  have hkeeps : Nest.empty.Keeps := by
    intro token
    unfold Nest.firstToken
    split <;> simp_all [Nest.empty]
  change ofTokens (Piece.tokensOf (piecesIn nodes)) = _
  rw [ofTokens, hgather, Nest.run_piecesIn hkeeps nodes hnodes, Nest.empty, Nest.foldl_add_empty,
    ofNest]
  simp [Nest.closeAll]

end Stencil.Markup
