import Stencil.Markup.Tree
import Stencil.Template.OfMarkup

/-!
# Places and expressions

What is read from a source keeps the place it was read from, and expressions are carried along as they
are written. How tokens are nested depends on neither. So a tree can be *recast*: put its parts to other
places and write its expressions in another way, and every step from tokens to a tree gives what it gave
before, recast too.

A template takes a little more from a tree, its *gist*: the expressions have to mean the same, and of a
text between two blocks it matters whether it is blank. Two sources with the same lexemes have the same
tree and the same template, up to where their parts stand.
-/

namespace Stencil

/-- The place that is put where no place is meant. -/
def Span.nowhere : Span := ⟨.origin, .origin⟩

def Diagnostic.moved (place : Span → Span) (d : Diagnostic) : Diagnostic := ⟨d.problem, place d.span⟩

def Diagnostic.bare (d : Diagnostic) : Diagnostic := ⟨d.problem, .nowhere⟩

namespace Markup

/-- A change of what was read that leaves its structure alone: parts are put to other places, and
expressions are written in another way. -/
structure Recast where
  place : Span → Span
  expression : Text → Text
  place_to (a b : Span) : place (a.to b) = (place a).to (place b)

section Recasting

variable (r : Recast)

/-! ### Tokens and pieces -/

def Lexeme.recast (expression : Text → Text) : Lexeme → Lexeme
  | .interpolation e => .interpolation (expression e)
  | .blockParameter e => .blockParameter (expression e)
  | l => l

/-- In a text only interpolations hold expressions. -/
def Lexeme.recastText (expression : Text → Text) : Lexeme → Lexeme
  | .interpolation e => .interpolation (expression e)
  | l => l

def Token.recast (t : Token) : Token := ⟨t.lexeme.recast r.expression, r.place t.span⟩

def Token.recastText (t : Token) : Token := ⟨t.lexeme.recastText r.expression, r.place t.span⟩

def Attr.recast (a : Attr) : Attr :=
  { a with
    span := r.place a.span
    nameSpan := r.place a.nameSpan
    valueSpan := a.valueSpan.map r.place }

def Parameter.recast (p : Parameter) : Parameter := ⟨r.expression p.expression, r.place p.span⟩

theorem exists_of_map_recast {tokens rest : List Token} {l : Lexeme} {s : Span}
    (h : tokens.map (Token.recast r) = ⟨l, s⟩ :: rest) :
    ∃ k s' more, tokens = ⟨k, s'⟩ :: more ∧ k.recast r.expression = l := by
  obtain ⟨⟨k, s'⟩, more, rfl, htoken, -⟩ := List.map_eq_cons_iff.mp h
  exact ⟨k, s', more, rfl, congrArg Token.lexeme htoken⟩

namespace Piece

def recast : Piece → Piece
  | .startTag name attrs ending span =>
    .startTag name (attrs.map (Attr.recast r)) ending (r.place span)
  | .endTag name span => .endTag name (r.place span)
  | .text first rest => .text (first.recastText r) (rest.map (Token.recastText r))
  | .comment body span => .comment body (r.place span)
  | .blockOpen name parameters nameSpan span =>
    .blockOpen name (parameters.map (Parameter.recast r)) (r.place nameSpan) (r.place span)
  | .blockClose span => .blockClose (r.place span)

/-- Which attributes are taken is decided by the kinds of the lexemes alone. -/
theorem takeAttrs_recast (tokens : List Token) :
    takeAttrs (tokens.map (Token.recast r)) =
      ((takeAttrs tokens).1.map (Attr.recast r), (takeAttrs tokens).2.map (Token.recast r)) := by
  fun_induction takeAttrs tokens with
  | case1 n s q qs v vs q' s' rest found ih =>
    simp only [List.map_cons, Token.recast, Lexeme.recast, takeAttrs, ih, Attr.recast, r.place_to,
      Option.map_some, found]
  | case2 n s q qs v vs rest hquote found ih =>
    simp only [List.map_cons, Token.recast, Lexeme.recast]
    rw [takeAttrs, ih]
    · simp only [Attr.recast, r.place_to, Option.map_some, found]
    -- What the earlier cases ask for is a matter of kinds, so it fails for the one as for the other.
    · intro _ _ _ h
      obtain ⟨k, _, _, rfl, hk⟩ := exists_of_map_recast r h
      cases k <;> cases hk
      exact hquote _ _ _ rfl
  | case3 n s q qs q' s' rest found ih =>
    simp only [List.map_cons, Token.recast, Lexeme.recast, takeAttrs, ih, Attr.recast, r.place_to,
      Option.map_none, found]
  | case4 n s q qs rest _ hvalue hquote found ih =>
    simp only [List.map_cons, Token.recast, Lexeme.recast]
    rw [takeAttrs, ih]
    · simp only [Attr.recast, Option.map_none, found]
    all_goals
      intros
      rename_i h
      obtain ⟨k, _, _, rfl, hk⟩ := exists_of_map_recast r h
      cases k <;> cases hk
      first
        | exact hvalue _ _ _ rfl
        | exact hquote _ _ _ rfl
  | case5 n s v vs rest found ih =>
    simp only [List.map_cons, Token.recast, Lexeme.recast, takeAttrs, ih, Attr.recast, r.place_to,
      Option.map_some, found]
  | case6 n s rest _ _ _ hquote hvalue found ih =>
    simp only [List.map_cons, Token.recast, Lexeme.recast]
    rw [takeAttrs, ih]
    · simp only [Attr.recast, Option.map_none, found]
    all_goals
      intros
      rename_i h
      obtain ⟨k, _, _, rfl, hk⟩ := exists_of_map_recast r h
      cases k <;> cases hk
      first
        | exact hquote _ _ _ rfl
        | exact hvalue _ _ _ rfl
  | case7 tokens _ _ _ _ _ hname =>
    rw [takeAttrs]
    · rfl
    all_goals
      intros
      rename_i h
      obtain ⟨k, _, _, rfl, hk⟩ := exists_of_map_recast r h
      cases k <;> cases hk
      exact hname _ _ _ rfl

theorem takeParameters_recast (tokens : List Token) :
    takeParameters (tokens.map (Token.recast r)) =
      ((takeParameters tokens).1.map (Parameter.recast r),
        (takeParameters tokens).2.map (Token.recast r)) := by
  fun_induction takeParameters tokens with
  | case1 e s rest found ih =>
    simp only [List.map_cons, Token.recast, Lexeme.recast, takeParameters, ih, Parameter.recast, found]
  | case2 tokens hparameter =>
    rw [takeParameters]
    · rfl
    · intro _ _ _ h
      obtain ⟨k, _, _, rfl, hk⟩ := exists_of_map_recast r h
      cases k <;> cases hk
      exact hparameter _ _ _ rfl

theorem takeStartTag_recast (name : Text) (span : Span) (tokens : List Token) :
    takeStartTag name (r.place span) (tokens.map (Token.recast r)) =
      ((takeStartTag name span tokens).1.recast r,
        (takeStartTag name span tokens).2.map (Token.recast r)) := by
  simp only [takeStartTag, takeAttrs_recast]
  cases (takeAttrs tokens).2 with
  | nil => rfl
  | cons t rest =>
    obtain ⟨lexeme, s⟩ := t
    cases lexeme <;> simp only [List.map_cons, Token.recast, Lexeme.recast, recast, r.place_to]

theorem takeBlockHeader_recast (name : Text) (span : Span) (tokens : List Token) :
    takeBlockHeader name (r.place span) (tokens.map (Token.recast r)) =
      ((takeBlockHeader name span tokens).1.recast r,
        (takeBlockHeader name span tokens).2.map (Token.recast r)) := by
  simp only [takeBlockHeader, takeParameters_recast]
  cases (takeParameters tokens).2 with
  | nil => rfl
  | cons t rest =>
    obtain ⟨lexeme, s⟩ := t
    cases lexeme <;> simp only [List.map_cons, Token.recast, Lexeme.recast, recast, r.place_to]

theorem isTextual_recast : isTextual ∘ Token.recast r = isTextual := by
  funext t
  obtain ⟨lexeme, s⟩ := t
  cases lexeme <;> rfl

theorem takeWhile_recast (tokens : List Token) :
    (tokens.map (Token.recast r)).takeWhile isTextual =
      (tokens.takeWhile isTextual).map (Token.recastText r) := by
  rw [List.takeWhile_map, isTextual_recast]
  apply List.map_congr_left
  rintro ⟨lexeme, s⟩ ht
  have htextual := List.all_eq_true.mp (List.all_takeWhile (p := isTextual)) _ ht
  cases lexeme <;> first | rfl | cases htextual

theorem gather_recast (fuel : Nat) (tokens : List Token) :
    gather fuel (tokens.map (Token.recast r)) = (gather fuel tokens).map (recast r) := by
  induction fuel generalizing tokens with
  | zero => rfl
  | succ fuel ih =>
    cases tokens with
    | nil => rfl
    | cons token rest =>
      obtain ⟨lexeme, span⟩ := token
      cases lexeme <;>
        simp only [List.map_cons, Token.recast, Lexeme.recast, gather, takeStartTag_recast,
          takeBlockHeader_recast, takeWhile_recast, List.dropWhile_map, isTextual_recast, ih,
          List.map_nil, recast, Token.recastText, Lexeme.recastText]

end Piece

/-! ### Trees -/

def ElementSpans.recast (s : ElementSpans) : ElementSpans :=
  ⟨r.place s.whole, r.place s.startTag, s.endTag.map r.place⟩

def BlockSpans.recast (s : BlockSpans) : BlockSpans :=
  ⟨r.place s.whole, r.place s.name, r.place s.header, s.close.map r.place⟩

/-- The text that tokens make up. -/
def contentOf (tokens : List Token) : Text := tokens.flatMap fun t => t.lexeme.content

mutual

/-- A node recast. The value of a text is made up from its tokens again. -/
def Node.recast : Node → Node
  | .element name attrs children selfClosing spans =>
    .element name (attrs.map (Attr.recast r)) (recastAll children) selfClosing (spans.recast r)
  | .text _ tokens span =>
    .text (contentOf (tokens.map (Token.recastText r))) (tokens.map (Token.recastText r))
      (r.place span)
  | .comment body span => .comment body (r.place span)
  | .block name parameters children spans =>
    .block name (parameters.map (Parameter.recast r)) (recastAll children) (spans.recast r)

def recastAll : List Node → List Node
  | [] => []
  | n :: rest => n.recast :: recastAll rest

end

theorem recastAll_eq_map (nodes : List Node) : recastAll r nodes = nodes.map (Node.recast r) := by
  induction nodes with
  | nil => rfl
  | cons n rest ih => rw [recastAll, ih, List.map_cons]

namespace Container

def recast : Container → Container
  | .element name attrs startTag => .element name (attrs.map (Attr.recast r)) (r.place startTag)
  | .block name parameters nameSpan header =>
    .block name (parameters.map (Parameter.recast r)) (r.place nameSpan) (r.place header)

theorem toNode_recast (c : Container) (children : List Node) (close : Option Span) :
    (c.toNode children close).recast r =
      (c.recast r).toNode (children.map (Node.recast r)) (close.map r.place) := by
  cases c <;> cases close <;> simp [toNode, recast, Node.recast, recastAll_eq_map, opening, r.place_to,
    ElementSpans.recast, BlockSpans.recast]

theorem isElement_recast (name : Text) (c : Container) :
    (c.recast r).isElement name = c.isElement name := by
  cases c <;> rfl

theorem isBlock_recast (c : Container) : (c.recast r).isBlock = c.isBlock := by
  cases c <;> rfl

end Container

namespace Frame

def recast (f : Frame) : Frame := ⟨f.container.recast r, f.children.map (Node.recast r)⟩

theorem toNode_recast (f : Frame) (close : Option Span) :
    (f.toNode close).recast r = (f.recast r).toNode (close.map r.place) := by
  rw [toNode, Container.toNode_recast, List.map_reverse]
  rfl

end Frame

namespace Nest

def recast (t : Nest) : Nest :=
  ⟨t.frames.map (Frame.recast r), t.roots.map (Node.recast r),
    t.problems.map (Diagnostic.moved r.place)⟩

theorem add_recast (t : Nest) (n : Node) : (t.add n).recast r = (t.recast r).add (n.recast r) := by
  obtain ⟨frames, roots, problems⟩ := t
  cases frames <;> rfl

theorem collapse_recast (frames : List Frame) (roots : List Node) :
    collapse (frames.map (Frame.recast r)) (roots.map (Node.recast r)) =
      ((collapse frames roots).1.map (Frame.recast r),
        (collapse frames roots).2.map (Node.recast r)) := by
  match frames with
  | [] => rfl
  | [f] => simp [collapse, Frame.toNode_recast]
  | f :: g :: fs => simp [collapse, Frame.toNode_recast, Frame.recast, Frame.add]

theorem closeTo_recast {p : Container → Bool} (hp : ∀ c : Container, p (c.recast r) = p c)
    (close : Span) (fuel : Nat) (t : Nest) :
    (closeTo p close fuel t).recast r = closeTo p (r.place close) fuel (t.recast r) := by
  induction fuel generalizing t with
  | zero => rfl
  | succ fuel ih =>
    obtain ⟨frames, roots, problems⟩ := t
    cases frames with
    | nil => rfl
    | cons f fs =>
      have hcollapse := collapse_recast r (f :: fs) roots
      rw [List.map_cons] at hcollapse
      simp only [closeTo, recast, List.map_cons, hcollapse]
      rw [show p (f.recast r).container = p f.container from hp f.container]
      split
      · rw [← recast, add_recast, Frame.toNode_recast]
        rfl
      · exact ih _

theorem any_recast {p : Container → Bool} (hp : ∀ c : Container, p (c.recast r) = p c)
    (frames : List Frame) :
    ((frames.map (Frame.recast r)).any fun f => p f.container) =
      frames.any fun f => p f.container := by
  rw [List.any_map]
  exact congrArg frames.any (funext fun f => hp f.container)

theorem close_recast {p : Container → Bool} (hp : ∀ c : Container, p (c.recast r) = p c) (t : Nest)
    (span : Span) (problem : Problem) :
    (t.close p span problem).recast r = (t.recast r).close p (r.place span) problem := by
  obtain ⟨frames, roots, problems⟩ := t
  cases frames with
  | nil => rfl
  | cons f fs =>
    have hany := any_recast r hp (f :: fs)
    rw [List.map_cons] at hany
    simp only [close, recast, List.map_cons, List.length_cons, List.length_map, hany]
    rw [show p (f.recast r).container = p f.container from hp f.container]
    split
    · exact closeTo_recast r hp span _ _
    · split
      · exact congrArg (fun t : Nest => t.note problem (r.place span)) (closeTo_recast r hp span _ _)
      · rfl

/-- A text that does not begin with a line feed is kept. -/
theorem firstToken_of_ne (t : Nest) {b : UInt8} (hb : b ≠ 0x0A) (value : Text) (span : Span) :
    t.firstToken ⟨.text (b :: value), span⟩ = ⟨.text (b :: value), span⟩ := by
  unfold firstToken
  split
  · rename_i heq _
    cases heq
    exact absurd rfl hb
  · rfl

theorem firstToken_recast (t : Nest) (token : Token) :
    (t.firstToken token).recastText r = (t.recast r).firstToken (token.recastText r) := by
  obtain ⟨lexeme, span⟩ := token
  cases lexeme with
  | text value =>
    cases value with
    | nil => rfl
    | cons b value =>
      by_cases hb : b = 0x0A
      · subst hb
        obtain ⟨frames, roots, problems⟩ := t
        match frames with
        | [] => rfl
        | ⟨.block .., children⟩ :: fs => cases children <;> rfl
        | ⟨.element .., _ :: _⟩ :: fs => rfl
        | ⟨.element name attrs s, []⟩ :: fs =>
          by_cases hfirst : (Tag.ofName name).ignoresFirstLineFeed = true <;>
            simp [firstToken, recast, Frame.recast, Container.recast, Token.recastText,
              Lexeme.recastText, hfirst]
      · rw [firstToken_of_ne t hb, Token.recastText, Lexeme.recastText]
        exact (firstToken_of_ne (t.recast r) hb _ _).symm
        all_goals simp
  | _ => rfl

theorem isEmpty_contentOf_recast (tokens : List Token) :
    (contentOf (tokens.map (Token.recastText r))).isEmpty = (contentOf tokens).isEmpty := by
  induction tokens with
  | nil => rfl
  | cons t rest ih =>
    obtain ⟨lexeme, span⟩ := t
    have hfirst : (lexeme.recastText r.expression).content.isEmpty = lexeme.content.isEmpty := by
      cases lexeme <;> rfl
    rw [Bool.eq_iff_iff, List.isEmpty_iff, List.isEmpty_iff] at hfirst ih ⊢
    change _ ++ contentOf _ = [] ↔ lexeme.content ++ contentOf rest = []
    rw [List.append_eq_nil_iff, List.append_eq_nil_iff, ih]
    exact and_congr_left fun _ => hfirst

theorem addText_recast (t : Nest) (first : Token) (rest : List Token) :
    (t.addText first rest).recast r =
      (t.recast r).addText (first.recastText r) (rest.map (Token.recastText r)) := by
  have hlast : ((rest.map (Token.recastText r)).getLast?.getD (first.recastText r)).span =
      r.place (rest.getLast?.getD first).span := by
    rw [List.getLast?_map]
    cases rest.getLast? <;> rfl
  have hempty := isEmpty_contentOf_recast r (t.firstToken first :: rest)
  simp only [contentOf] at hempty
  simp only [addText, ← firstToken_recast, ← List.map_cons, hempty, hlast]
  split
  · rfl
  · rw [add_recast, Node.recast, r.place_to]
    rfl

/-- Nesting one more piece is the same before and after recasting. -/
theorem step_recast (t : Nest) (piece : Piece) :
    (t.step piece).recast r = (t.recast r).step (piece.recast r) := by
  cases piece with
  | startTag name attrs ending span =>
    simp only [step, Piece.recast]
    split
    · rfl
    · rw [add_recast]
      rfl
  | endTag name span =>
    simp only [step, Piece.recast]
    split
    · rfl
    · exact close_recast r (Container.isElement_recast r name) t span _
  | text first rest => exact addText_recast r t first rest
  | comment body span => exact add_recast r t _
  | blockOpen name parameters nameSpan span => rfl
  | blockClose span => exact close_recast r (Container.isBlock_recast r) t span _

theorem run_recast (pieces : List Piece) (t : Nest) :
    (pieces.foldl step t).recast r = (pieces.map (Piece.recast r)).foldl step (t.recast r) := by
  induction pieces generalizing t with
  | nil => rfl
  | cons piece rest ih => rw [List.foldl_cons, ih, step_recast, List.map_cons, List.foldl_cons]

theorem closeAll_recast (frames : List Frame) (inner : Option Node) (roots : List Node) :
    (closeAll frames inner roots).map (Node.recast r) =
      closeAll (frames.map (Frame.recast r)) (inner.map (Node.recast r))
        (roots.map (Node.recast r)) := by
  induction frames generalizing inner with
  | nil => cases inner <;> rfl
  | cons f fs ih =>
    rw [closeAll, ih, List.map_cons, closeAll]
    cases inner <;> simp [Frame.toNode_recast, Frame.recast, Frame.add]

end Nest

namespace Tree

def recast (t : Tree) : Tree :=
  ⟨t.nodes.map (Node.recast r), t.diagnostics.map (Diagnostic.moved r.place)⟩

theorem ofNest_recast (t : Nest) : (ofNest t).recast r = ofNest (t.recast r) := by
  have hunclosed : ∀ f : Frame, (f.recast r).container.unclosed =
      f.container.unclosed.moved r.place := by
    rintro ⟨container, children⟩
    cases container <;> rfl
  simp only [ofNest, recast, Nest.recast, List.map_append, List.map_reverse, Nest.closeAll_recast,
    Option.map_none, List.map_map, Function.comp_def, hunclosed]

/-- Tokens recast give the tree recast. -/
theorem ofTokens_recast (tokens : List Token) :
    (ofTokens tokens).recast r = ofTokens (tokens.map (Token.recast r)) := by
  rw [ofTokens, ofTokens, ofNest_recast, Nest.run_recast, Piece.ofTokens, Piece.ofTokens,
    Piece.gather_recast, List.length_map]
  rfl

end Tree

end Recasting

/-! ### Leaving out places -/

def Token.bare (t : Token) : Token := ⟨t.lexeme, .nowhere⟩

def Attr.bare (a : Attr) : Attr :=
  { a with
    span := .nowhere
    nameSpan := .nowhere
    valueSpan := a.valueSpan.map fun _ => .nowhere }

def Parameter.bare (p : Parameter) : Parameter := ⟨p.expression, .nowhere⟩

def ElementSpans.bare (s : ElementSpans) : ElementSpans :=
  ⟨.nowhere, .nowhere, s.endTag.map fun _ => .nowhere⟩

def BlockSpans.bare (s : BlockSpans) : BlockSpans :=
  ⟨.nowhere, .nowhere, .nowhere, s.close.map fun _ => .nowhere⟩

mutual

/-- A node without its places. -/
def Node.bare : Node → Node
  | .element name attrs children selfClosing spans =>
    .element name (attrs.map Attr.bare) (bareAll children) selfClosing spans.bare
  | .text value tokens _ => .text value (tokens.map Token.bare) .nowhere
  | .comment body _ => .comment body .nowhere
  | .block name parameters children spans =>
    .block name (parameters.map Parameter.bare) (bareAll children) spans.bare

def bareAll : List Node → List Node
  | [] => []
  | n :: rest => n.bare :: bareAll rest

end

namespace Recast

/-- Nothing is changed. -/
def same : Recast := ⟨id, id, fun _ _ => rfl⟩

/-- Places are left out, expressions rewritten. -/
def bare (expression : Text → Text) : Recast := ⟨fun _ => .nowhere, expression, fun _ _ => rfl⟩

@[simp]
theorem same_place : same.place = id := rfl

@[simp]
theorem same_expression : same.expression = id := rfl

@[simp]
theorem bare_place (expression : Text → Text) : (bare expression).place = fun _ => .nowhere := rfl

@[simp]
theorem bare_expression (expression : Text → Text) : (bare expression).expression = expression := rfl

end Recast

@[simp]
theorem Lexeme.recast_id (l : Lexeme) : l.recast id = l := by
  cases l <;> rfl

@[simp]
theorem Lexeme.recastText_id (l : Lexeme) : l.recastText id = l := by
  cases l <;> rfl

theorem map_recast_same (tokens : List Token) : tokens.map (Token.recast .same) = tokens := by
  have hsame : Token.recast .same = id := by
    funext t
    simp [Token.recast]
  rw [hsame, List.map_id]

theorem map_recast_bare (tokens : List Token) :
    tokens.map (Token.recast (.bare id)) = tokens.map Token.bare := by
  apply List.map_congr_left
  intro t _
  simp [Token.recast, Token.bare]

mutual

/-- Where the value of a text is what its tokens make up, recasting only leaves out places. -/
theorem Node.bare_recast_same (n : Node) : (n.recast .same).bare = n.recast (.bare id) := by
  match n with
  | .element name attrs children selfClosing spans =>
    simp [Node.recast, Node.bare, bareAll_recast_same children, Function.comp_def, Attr.bare,
      Attr.recast, ElementSpans.bare, ElementSpans.recast]
  | .text value tokens span =>
    simp [Node.recast, Node.bare, contentOf, List.flatMap_map, Token.recastText, Function.comp_def,
      Token.bare]
  | .comment body span => rfl
  | .block name parameters children spans =>
    simp [Node.recast, Node.bare, bareAll_recast_same children, Function.comp_def, Parameter.bare,
      Parameter.recast, BlockSpans.bare, BlockSpans.recast]

theorem bareAll_recast_same (nodes : List Node) :
    bareAll (recastAll .same nodes) = recastAll (.bare id) nodes := by
  match nodes with
  | [] => rfl
  | n :: rest =>
    rw [recastAll, bareAll, recastAll, n.bare_recast_same, bareAll_recast_same rest]

end

namespace Tree

def bare (t : Tree) : Tree := ⟨t.nodes.map Node.bare, t.diagnostics.map Diagnostic.bare⟩

/-- The value of a text in a tree is what its tokens make up. -/
theorem nodes_ofTokens_same (tokens : List Token) :
    (ofTokens tokens).nodes.map (Node.recast .same) = (ofTokens tokens).nodes := by
  have hsame := ofTokens_recast .same tokens
  rw [map_recast_same] at hsame
  exact congrArg Tree.nodes hsame

/-- The tree of a token list depends on nothing but its lexemes, places aside. -/
theorem ofTokens_bare (tokens : List Token) :
    (ofTokens tokens).bare = ofTokens (tokens.map Token.bare) := by
  have hnodes : (ofTokens tokens).nodes.map Node.bare =
      (ofTokens tokens).nodes.map (Node.recast (.bare id)) := by
    rw [← nodes_ofTokens_same, List.map_map, nodes_ofTokens_same]
    exact List.map_congr_left fun n _ => n.bare_recast_same
  rw [← map_recast_bare, ← ofTokens_recast, bare, hnodes]
  rfl

end Tree

/-! ### What a template is made from -/

mutual

/-- A node recast, and of the value of a text only whether it is blank. -/
def Node.gist (r : Recast) : Node → Node
  | .element name attrs children selfClosing spans =>
    .element name (attrs.map (Attr.recast r)) (gistAll r children) selfClosing (spans.recast r)
  | .text value tokens span =>
    .text (if value.isBlank then [] else [0x7B]) (tokens.map (Token.recastText r)) (r.place span)
  | .comment _ span => .comment [] (r.place span)
  | .block name parameters children spans =>
    .block name (parameters.map (Parameter.recast r)) (gistAll r children) (spans.recast r)

def gistAll (r : Recast) : List Node → List Node
  | [] => []
  | n :: rest => n.gist r :: gistAll r rest

end

theorem gistAll_eq_map (r : Recast) (nodes : List Node) :
    gistAll r nodes = nodes.map (Node.gist r) := by
  induction nodes with
  | nil => rfl
  | cons n rest ih => rw [gistAll, ih, List.map_cons]

mutual

theorem Node.gist_bare (n : Node) : n.bare.gist (.bare id) = n.gist (.bare id) := by
  match n with
  | .element name attrs children selfClosing spans =>
    simp [Node.bare, Node.gist, gistAll_bareAll children, Function.comp_def, Attr.bare, Attr.recast,
      ElementSpans.bare, ElementSpans.recast]
  | .text value tokens span =>
    simp [Node.bare, Node.gist, Function.comp_def, Token.bare, Token.recastText]
  | .comment body span => rfl
  | .block name parameters children spans =>
    simp [Node.bare, Node.gist, gistAll_bareAll children, Function.comp_def, Parameter.bare,
      Parameter.recast, BlockSpans.bare, BlockSpans.recast]

theorem gistAll_bareAll (nodes : List Node) :
    gistAll (.bare id) (bareAll nodes) = gistAll (.bare id) nodes := by
  match nodes with
  | [] => rfl
  | n :: rest => rw [bareAll, gistAll, gistAll, n.gist_bare, gistAll_bareAll rest]

end

end Markup

/-! ### Templates -/

namespace Template

def Attr.unplaced (a : Attr) : Attr := { a with spans := ⟨none, none, none⟩ }

mutual

/-- A node without its places. -/
def Node.unplaced : Node → Node
  | .block children _ => .block (unplacedAll children) none
  | .element name attrs content selfClosing _ =>
    .element name (attrs.map Attr.unplaced) (unplacedAll content) selfClosing
      ⟨none, none, none, none⟩
  | .text value _ => .text value none
  | .expression path _ => .expression path none
  | .conditional test consequent alternate _ =>
    .conditional test (unplacedAll consequent) (unplacedAlternate alternate) ⟨none, none, none⟩
  | .iteration collection key value body _ =>
    .iteration collection key value (unplacedAll body) ⟨none, none⟩
  | .hole => .hole
  | .foreign kind typeName _ => .foreign kind typeName none

def unplacedAlternate : Option (List Node) → Option (List Node)
  | none => none
  | some nodes => some (unplacedAll nodes)

def unplacedAll : List Node → List Node
  | [] => []
  | node :: rest => node.unplaced :: unplacedAll rest

end

theorem unplacedAll_eq_map (nodes : List Node) : unplacedAll nodes = nodes.map Node.unplaced := by
  induction nodes with
  | nil => rfl
  | cons node rest ih => rw [unplacedAll, ih, List.map_cons]

theorem consMerged_unplaced (node : Node) (nodes : List Node) :
    (consMerged node nodes).map Node.unplaced =
      consMerged node.unplaced (nodes.map Node.unplaced) := by
  cases node with
  | text value span =>
    cases nodes with
    | nil => rfl
    | cons next rest => cases next <;> rfl
  | _ => cases nodes <;> rfl

theorem mergeTexts_unplaced (nodes : List Node) :
    (mergeTexts nodes).map Node.unplaced = mergeTexts (nodes.map Node.unplaced) := by
  induction nodes with
  | nil => rfl
  | cons node rest ih =>
    have hcons : mergeTexts (node :: rest) = consMerged node (mergeTexts rest) := rfl
    rw [hcons, consMerged_unplaced, ih]
    rfl

/-- What was made of an attribute, without places. -/
def unplacedResult : Except Diagnostic Attr → Except Problem Attr
  | .ok a => .ok a.unplaced
  | .error d => .error d.problem

section Recasting

variable {κ : Type} (view : Problem → κ) (r : Markup.Recast)

def viewAll (ds : List Diagnostic) : List κ := ds.map fun d => view d.problem

/-- A draft without its places, and with as much of its problems as the view shows. -/
def Draft.seen (d : Draft) : List Node × List κ :=
  (d.nodes.map Node.unplaced, viewAll view d.diagnostics)

theorem Draft.append_seen (a b : Draft) :
    (a ++ b).seen view =
      ((a.seen view).1 ++ (b.seen view).1, (a.seen view).2 ++ (b.seen view).2) := by
  change Draft.seen view ⟨a.nodes ++ b.nodes, a.diagnostics ++ b.diagnostics⟩ = _
  simp only [seen, viewAll, List.map_append]

/-- Results that agree but for what is shown of their errors. -/
theorem mapError_eq_cases {ε α : Type} {f : ε → κ} {x y : Except ε α}
    (h : x.mapError f = y.mapError f) :
    (∃ a, x = .ok a ∧ y = .ok a) ∨ ∃ e e', x = .error e ∧ y = .error e' ∧ f e = f e' := by
  cases x with
  | error e =>
    cases y with
    | error e' => exact .inr ⟨e, e', rfl, rfl, Except.error.inj h⟩
    | ok b => cases h
  | ok a =>
    cases y with
    | error e' => cases h
    | ok b => exact .inl ⟨a, rfl, congrArg Except.ok (Except.ok.inj h).symm⟩

/-- Expressions written in another way mean the same, and what is wrong with them looks the same. -/
structure Faithful (expression : Text → Text) : Prop where
  isBlank (e : Text) : (expression e).isBlank = e.isBlank
  interpolation (e : Text) :
    (Path.parse (expression e)).mapError (fun x => view (.interpolation x)) =
      (Path.parse e).mapError fun x => view (.interpolation x)
  test (e : Text) :
    (Path.parse (expression e)).mapError (fun x => view (.test x)) =
      (Path.parse e).mapError fun x => view (.test x)
  loop (e : Text) : (loopOfText (expression e)).mapError view = (loopOfText e).mapError view
  extraLoopParameter (e : Text) :
    view (.extraLoopParameter (expression e)) = view (.extraLoopParameter e)

theorem faithful_id : Faithful view id where
  isBlank _ := rfl
  interpolation _ := rfl
  test _ := rfl
  loop _ := rfl
  extraLoopParameter _ := rfl

theorem spreadOfMarkup_recast (a : Markup.Attr) :
    unplacedResult (spreadOfMarkup (a.recast r)) = unplacedResult (spreadOfMarkup a) := by
  obtain ⟨name, value, hasValue, quoted, span, nameSpan, valueSpan⟩ := a
  simp only [spreadOfMarkup, Markup.Attr.recast]
  cases hasValue with
  | true => rfl
  | false =>
    cases Path.parse (Attribute.spreadSource name) with
    | error e => rfl
    | ok path =>
      by_cases hblank : (Attribute.spreadSource name).isBlank = true <;>
        simp [hblank, unplacedResult, Attr.unplaced]

theorem attrOfMarkup_recast (a : Markup.Attr) :
    unplacedResult (attrOfMarkup (a.recast r)) = unplacedResult (attrOfMarkup a) := by
  have hname : (a.recast r).name = a.name := rfl
  have hvalue : (a.recast r).value = a.value := rfl
  have hneeds : needsPath (a.recast r) = needsPath a := rfl
  rw [attrOfMarkup, attrOfMarkup, hname, hvalue, hneeds]
  cases Attribute.isSpread a.name with
  | true => exact spreadOfMarkup_recast r a
  | false =>
    cases needsPath a with
    | true => cases Path.parse a.value <;> rfl
    | false => rfl

theorem attrsOfMarkup_recast (attrs : List Markup.Attr) :
    (attrsOfMarkup (attrs.map (Markup.Attr.recast r))).1.map Attr.unplaced =
        (attrsOfMarkup attrs).1.map Attr.unplaced ∧
      viewAll view (attrsOfMarkup (attrs.map (Markup.Attr.recast r))).2 =
        viewAll view (attrsOfMarkup attrs).2 := by
  induction attrs with
  | nil => exact ⟨rfl, rfl⟩
  | cons a rest ih =>
    have hresult := attrOfMarkup_recast r a
    rw [List.map_cons, attrsOfMarkup, attrsOfMarkup]
    cases hrecast : attrOfMarkup (a.recast r) <;> cases hplaced : attrOfMarkup a <;>
      simp_all [unplacedResult, viewAll]

variable {view r}

theorem tokenOfMarkup_recast (hr : Faithful view r.expression) (t : Markup.Token) :
    (tokenOfMarkup (t.recastText r)).seen view = (tokenOfMarkup t).seen view := by
  obtain ⟨lexeme, span⟩ := t
  cases lexeme with
  | interpolation source =>
    simp only [tokenOfMarkup, Markup.Token.recastText, Markup.Lexeme.recastText, expressionOfMarkup,
      hr.isBlank]
    split
    · rfl
    · rcases mapError_eq_cases (hr.interpolation source) with
        ⟨path, hrecast, hplain⟩ | ⟨e, e', hrecast, hplain, hview⟩
      · rw [hrecast, hplain]
        rfl
      · rw [hrecast, hplain]
        exact congrArg (fun problem => ([], [problem])) hview
  | _ =>
    simp only [tokenOfMarkup, Markup.Token.recastText, Markup.Lexeme.recastText]
    split <;> rfl

theorem tokensOfMarkup_recast (hr : Faithful view r.expression) (tokens : List Markup.Token) :
    (tokensOfMarkup (tokens.map (Markup.Token.recastText r))).seen view =
      (tokensOfMarkup tokens).seen view := by
  induction tokens with
  | nil => rfl
  | cons t rest ih =>
    rw [List.map_cons, tokensOfMarkup, tokensOfMarkup, Draft.append_seen, ih,
      tokenOfMarkup_recast hr, Draft.append_seen]

theorem testOfMarkup_recast (hr : Faithful view r.expression) (parameters : List Markup.Parameter)
    (header header' : Span) :
    (testOfMarkup (parameters.map (Markup.Parameter.recast r)) header').1 =
        (testOfMarkup parameters header).1 ∧
      viewAll view (testOfMarkup (parameters.map (Markup.Parameter.recast r)) header').2 =
        viewAll view (testOfMarkup parameters header).2 := by
  cases parameters with
  | nil => exact ⟨rfl, rfl⟩
  | cons p extra =>
    simp only [testOfMarkup, List.map_cons, Markup.Parameter.recast]
    rcases mapError_eq_cases (hr.test p.expression) with
      ⟨path, hrecast, hplain⟩ | ⟨e, e', hrecast, hplain, hview⟩
    · simp [hrecast, hplain, viewAll]
    · simp [hrecast, hplain, viewAll, hview]

theorem loopOfMarkup_recast (hr : Faithful view r.expression) (parameters : List Markup.Parameter)
    (header header' : Span) :
    (loopOfMarkup (parameters.map (Markup.Parameter.recast r)) header').1 =
        (loopOfMarkup parameters header).1 ∧
      viewAll view (loopOfMarkup (parameters.map (Markup.Parameter.recast r)) header').2 =
        viewAll view (loopOfMarkup parameters header).2 := by
  cases parameters with
  | nil => exact ⟨rfl, rfl⟩
  | cons p extra =>
    simp only [loopOfMarkup, List.map_cons, Markup.Parameter.recast]
    rcases mapError_eq_cases (hr.loop p.expression) with
      ⟨loop, hrecast, hplain⟩ | ⟨e, e', hrecast, hplain, hview⟩
    · simp [hrecast, hplain, viewAll, Markup.Parameter.recast, hr.extraLoopParameter]
    · simp [hrecast, hplain, viewAll, Markup.Parameter.recast, hr.extraLoopParameter, hview]

theorem isBetween_gist (n : Markup.Node) : isBetween (n.gist r) = isBetween n := by
  cases n with
  | text value tokens span =>
    rw [Markup.Node.gist, isBetween, isBetween]
    cases value.isBlank <;> rfl
  | _ => rfl

theorem connectedCount_gist (passed : Nat) (nodes : List Markup.Node) :
    connectedCount passed (nodes.map (Markup.Node.gist r)) = connectedCount passed nodes := by
  induction nodes generalizing passed with
  | nil => rfl
  | cons n rest ih =>
    have hcontinues : isContinuation (n.gist r) = isContinuation n := by
      cases n <;> rfl
    rw [List.map_cons, connectedCount, connectedCount, isBetween_gist, hcontinues, ih, ih]

theorem elseProblems_gist (first : Bool) (nodes : List Markup.Node) :
    viewAll view (elseProblems first (nodes.map (Markup.Node.gist r))) =
      viewAll view (elseProblems first nodes) := by
  induction nodes generalizing first with
  | nil => rfl
  | cons n rest ih =>
    simp only [viewAll] at ih ⊢
    cases n with
    | block name parameters children spans =>
      simp only [List.map_cons, Markup.Node.gist, elseProblems, ih, List.map_append,
        List.isEmpty_map]
      congr 1
      split
      · rfl
      · split <;> rfl
    | _ => simp only [List.map_cons, Markup.Node.gist, elseProblems, ih]

theorem elementOfMarkup_recast (name : Text) (attrs : List Markup.Attr) {content content' : Draft}
    (hcontent : content'.seen view = content.seen view) (selfClosing : Bool)
    (spans spans' : Markup.ElementSpans) :
    (elementOfMarkup name (attrs.map (Markup.Attr.recast r)) content' selfClosing spans').seen view =
      (elementOfMarkup name attrs content selfClosing spans).seen view := by
  obtain ⟨hattrs, hproblems⟩ := attrsOfMarkup_recast view r attrs
  obtain ⟨hnodes, hdiagnostics⟩ := Prod.mk.inj hcontent
  simp only [viewAll] at hproblems hdiagnostics
  simp only [elementOfMarkup, Draft.seen, viewAll, List.map_cons, List.map_nil, Node.unplaced,
    unplacedAll_eq_map, mergeTexts_unplaced, List.map_append, hattrs, hproblems, hnodes,
    hdiagnostics]

theorem iterationOfMarkup_seen {loop loop' : Option Loop × List Diagnostic} {body body' : Draft}
    (hloop : loop'.1 = loop.1 ∧ viewAll view loop'.2 = viewAll view loop.2)
    (hbody : body'.seen view = body.seen view) (span span' : Span) :
    (iterationOfMarkup loop' body' span').seen view = (iterationOfMarkup loop body span).seen view := by
  obtain ⟨hnodes, hdiagnostics⟩ := Prod.mk.inj hbody
  obtain ⟨hsame, hproblems⟩ := hloop
  simp only [iterationOfMarkup, hsame]
  simp only [viewAll] at hproblems hdiagnostics
  cases loop.1 with
  | none => simp only [Draft.seen, viewAll, List.map_nil, hproblems]
  | some l =>
    simp only [Draft.seen, viewAll, List.map_cons, List.map_nil, Node.unplaced, unplacedAll_eq_map,
      mergeTexts_unplaced, List.map_append, hnodes, hdiagnostics, hproblems]

theorem conditionalOfMarkup_seen {test test' : Option Path × List Diagnostic}
    {elses elses' : List Diagnostic} {consequent consequent' : Draft}
    {alternate alternate' : Option Alternate}
    (htest : test'.1 = test.1 ∧ viewAll view test'.2 = viewAll view test.2)
    (helses : viewAll view elses' = viewAll view elses)
    (hconsequent : consequent'.seen view = consequent.seen view)
    (halternate : (alternate'.map fun a => a.content.seen view) =
      alternate.map fun a => a.content.seen view) (span span' : Span) :
    (conditionalOfMarkup test' elses' consequent' alternate' span').seen view =
      (conditionalOfMarkup test elses consequent alternate span).seen view := by
  obtain ⟨hnodes, hdiagnostics⟩ := Prod.mk.inj hconsequent
  obtain ⟨hsame, hproblems⟩ := htest
  have hbranch : viewAll view ((alternate'.map fun a => a.content.diagnostics).getD []) =
        viewAll view ((alternate.map fun a => a.content.diagnostics).getD []) ∧
      unplacedAlternate (alternate'.map fun a => mergeTexts a.content.nodes) =
        unplacedAlternate (alternate.map fun a => mergeTexts a.content.nodes) := by
    cases alternate' with
    | none =>
      cases alternate with
      | none => exact ⟨rfl, rfl⟩
      | some a => cases halternate
    | some b =>
      cases alternate with
      | none => cases halternate
      | some a =>
        obtain ⟨hnodes, hdiagnostics⟩ := Prod.mk.inj (Option.some.inj halternate)
        simp only [Option.map_some, Option.getD_some, unplacedAlternate, unplacedAll_eq_map,
          mergeTexts_unplaced, hnodes, hdiagnostics, and_self]
  simp only [conditionalOfMarkup, hsame]
  simp only [viewAll] at hproblems hdiagnostics helses hbranch
  cases test.1 with
  | none =>
    simp only [Draft.seen, viewAll, List.map_append, List.map_nil, hbranch.1, hproblems, helses]
  | some path =>
    simp only [Draft.seen, viewAll, List.map_cons, List.map_nil, Node.unplaced, unplacedAll_eq_map,
      mergeTexts_unplaced, List.map_append, hbranch.1, hbranch.2, hnodes, hdiagnostics, hproblems,
      helses]

mutual

theorem nodesOfMarkup_gist (hr : Faithful view r.expression) (skip : Nat) (nodes : List Markup.Node) :
    (nodesOfMarkup skip (nodes.map (Markup.Node.gist r))).seen view =
      (nodesOfMarkup skip nodes).seen view := by
  match skip, nodes with
  | _, [] => rw [List.map_nil]
  | skip + 1, _ :: rest =>
    rw [List.map_cons, nodesOfMarkup, nodesOfMarkup]
    exact nodesOfMarkup_gist hr skip rest
  | 0, .element name attrs children selfClosing spans :: rest =>
    have hchildren := nodesOfMarkup_gist hr 0 children
    rw [List.map_cons, Markup.Node.gist, Markup.gistAll_eq_map, nodesOfMarkup, nodesOfMarkup,
      Draft.append_seen, Draft.append_seen, nodesOfMarkup_gist hr 0 rest,
      elementOfMarkup_recast name attrs hchildren selfClosing spans]
  | 0, .text value tokens span :: rest =>
    rw [List.map_cons, Markup.Node.gist, nodesOfMarkup, nodesOfMarkup, Draft.append_seen,
      Draft.append_seen, nodesOfMarkup_gist hr 0 rest, tokensOfMarkup_recast hr]
  | 0, .comment body span :: rest =>
    rw [List.map_cons, Markup.Node.gist, nodesOfMarkup, nodesOfMarkup]
    exact nodesOfMarkup_gist hr 0 rest
  | 0, .block name parameters children spans :: rest =>
    have hchildren := nodesOfMarkup_gist hr 0 children
    rw [List.map_cons, Markup.Node.gist, Markup.gistAll_eq_map, nodesOfMarkup, nodesOfMarkup]
    split
    · dsimp only
      rw [connectedCount_gist, ← List.map_take, Draft.append_seen, Draft.append_seen,
        nodesOfMarkup_gist hr (connectedCount 0 rest) rest,
        conditionalOfMarkup_seen (testOfMarkup_recast hr parameters spans.header _)
          (elseProblems_gist true _) hchildren (alternateOfMarkup_gist hr rest) spans.whole]
    · split
      · rw [Draft.append_seen, Draft.append_seen, nodesOfMarkup_gist hr 0 rest,
          iterationOfMarkup_seen (loopOfMarkup_recast hr parameters spans.header _) hchildren
            spans.whole]
      · rw [Draft.append_seen, Draft.append_seen, nodesOfMarkup_gist hr 0 rest]
        rfl

theorem alternateOfMarkup_gist (hr : Faithful view r.expression) (nodes : List Markup.Node) :
    ((alternateOfMarkup? (nodes.map (Markup.Node.gist r))).map fun a => a.content.seen view) =
      (alternateOfMarkup? nodes).map fun a => a.content.seen view := by
  match nodes with
  | [] => rfl
  | .comment body span :: rest =>
    rw [List.map_cons, Markup.Node.gist, alternateOfMarkup?, alternateOfMarkup?]
    exact alternateOfMarkup_gist hr rest
  | .text value tokens span :: rest =>
    have hblank := @isBetween_gist r (.text value tokens span)
    rw [Markup.Node.gist, isBetween, isBetween] at hblank
    rw [List.map_cons, Markup.Node.gist, alternateOfMarkup?, alternateOfMarkup?, hblank]
    split
    · exact alternateOfMarkup_gist hr rest
    · rfl
  | .block name parameters children spans :: rest =>
    rw [List.map_cons, Markup.Node.gist, Markup.gistAll_eq_map, alternateOfMarkup?,
      alternateOfMarkup?]
    split
    · exact congrArg some (nodesOfMarkup_gist hr 0 children)
    · rfl
  | .element .. :: _ =>
    rw [List.map_cons, Markup.Node.gist, alternateOfMarkup?, alternateOfMarkup?]

end

/-- The template of a markup tree depends on nothing but the gist of the tree. -/
theorem ofMarkup_gist (hr : Faithful view r.expression) (nodes : List Markup.Node) :
    (ofMarkup (nodes.map (Markup.Node.gist r))).root.unplaced = (ofMarkup nodes).root.unplaced ∧
      viewAll view (ofMarkup (nodes.map (Markup.Node.gist r))).diagnostics =
        viewAll view (ofMarkup nodes).diagnostics := by
  obtain ⟨hnodes, hdiagnostics⟩ := Prod.mk.inj (nodesOfMarkup_gist hr 0 nodes)
  refine ⟨?_, hdiagnostics⟩
  simp only [ofMarkup, Node.unplaced, unplacedAll_eq_map, mergeTexts_unplaced, hnodes]

end Recasting

/-- The template of a markup tree depends on nothing but the tree, places aside. -/
theorem ofMarkup_bare (nodes : List Markup.Node) :
    (ofMarkup (nodes.map Markup.Node.bare)).root.unplaced = (ofMarkup nodes).root.unplaced ∧
      (ofMarkup (nodes.map Markup.Node.bare)).diagnostics.map Diagnostic.bare =
        (ofMarkup nodes).diagnostics.map Diagnostic.bare := by
  have hfaithful := faithful_id fun p : Problem => (⟨p, .nowhere⟩ : Diagnostic)
  have hgist : (nodes.map Markup.Node.bare).map (Markup.Node.gist (.bare id)) =
      nodes.map (Markup.Node.gist (.bare id)) := by
    rw [List.map_map]
    exact List.map_congr_left fun n _ => n.gist_bare
  obtain ⟨hbare, hbares⟩ := ofMarkup_gist (r := .bare id) hfaithful (nodes.map Markup.Node.bare)
  obtain ⟨hplaced, hplaceds⟩ := ofMarkup_gist (r := .bare id) hfaithful nodes
  rw [hgist] at hbare hbares
  exact ⟨hbare.symm.trans hplaced, hbares.symm.trans hplaceds⟩

end Template

end Stencil
