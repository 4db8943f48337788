import Stencil.Proofs.Flattening
import Stencil.Proofs.Gathering
import Stencil.Proofs.Locations

/-!
# Markup nests where it stands

In a source that is nested without problems the tokens stand one behind the other, and nesting keeps that.
Siblings are in order. The content of a container stands between what opens it and what closes it, and the
attributes of an element and the parameters of a block stand within what opens it.

While pieces are nested the order is kept up to the offset that has been reached. The content of an open
container stands between the end of what opens it and that offset, and everything around it ends before the
container begins.
-/

namespace Stencil

/-- A stretch that does not end before it begins, in a source of this size. -/
structure Span.Fits (size : Nat) (s : Span) : Prop where
  ordered : s.start.offset ≤ s.stop.offset
  within : s.stop.offset ≤ size

/-- Stretches stand one behind the other between two offsets. -/
def InOrder (lo hi : Nat) : List Span → Prop
  | [] => lo ≤ hi
  | s :: rest => lo ≤ s.start.offset ∧ s.start.offset ≤ s.stop.offset ∧ InOrder s.stop.offset hi rest

namespace InOrder

variable {lo mid hi : Nat} {s : Span} {spans rest : List Span}

theorem le (h : InOrder lo hi spans) : lo ≤ hi := by
  induction spans generalizing lo with
  | nil => exact h
  | cons s rest ih =>
    have hrest := ih h.2.2
    have hs := h.1
    have hordered := h.2.1
    omega

theorem mono {lo' hi' : Nat} (h : InOrder lo hi spans) (hlo : lo' ≤ lo) (hhi : hi ≤ hi') :
    InOrder lo' hi' spans := by
  induction spans generalizing lo lo' with
  | nil => exact Nat.le_trans hlo (Nat.le_trans h hhi)
  | cons s rest ih => exact ⟨Nat.le_trans hlo h.1, h.2.1, ih h.2.2 (Nat.le_refl _)⟩

theorem append (h : InOrder lo mid spans) (hrest : InOrder mid hi rest) :
    InOrder lo hi (spans ++ rest) := by
  induction spans generalizing lo with
  | nil => exact hrest.mono h (Nat.le_refl _)
  | cons s spans ih => exact ⟨h.1, h.2.1, ih h.2.2⟩

theorem sublist (h : InOrder lo hi spans) (hrest : rest.Sublist spans) : InOrder lo hi rest := by
  induction hrest generalizing lo with
  | slnil => exact h
  | cons s _ ih => exact ih (h.2.2.mono (Nat.le_trans h.1 h.2.1) (Nat.le_refl _))
  | cons_cons s _ ih => exact ⟨h.1, h.2.1, ih h.2.2⟩

theorem fits (h : InOrder lo hi spans) (hs : s ∈ spans) : s.Fits hi := by
  induction spans generalizing lo with
  | nil => cases hs
  | cons t rest ih =>
    rcases List.mem_cons.mp hs with rfl | hs
    · exact ⟨h.2.1, h.2.2.le⟩
    · exact ih h.2.2 hs

theorem le_start (h : InOrder lo hi spans) (hs : s ∈ spans) : lo ≤ s.start.offset := by
  induction spans generalizing lo with
  | nil => cases hs
  | cons t rest ih =>
    rcases List.mem_cons.mp hs with rfl | hs
    · exact h.1
    · exact Nat.le_trans (Nat.le_trans h.1 h.2.1) (ih h.2.2 hs)

/-- From the first stretch to any of them. -/
theorem to_fits {t : Span} (h : InOrder lo hi (s :: rest)) (ht : t ∈ s :: rest) : (s.to t).Fits hi := by
  have hself : InOrder s.start.offset hi (s :: rest) := ⟨Nat.le_refl _, h.2.1, h.2.2⟩
  exact ⟨Nat.le_trans (hself.le_start ht) (h.fits ht).ordered, (h.fits ht).within⟩

/-- Two stretches made one. -/
theorem merge {t : Span} (h : InOrder lo hi (s :: t :: rest)) : InOrder lo hi (s.to t :: rest) :=
  ⟨h.1, (h.to_fits (by simp)).ordered, h.2.2.2.2⟩

theorem drop (h : InOrder lo hi spans) (n : Nat) : InOrder lo hi (spans.drop n) :=
  h.sublist (List.drop_sublist n spans)

theorem single (hlo : lo ≤ s.start.offset) (hs : s.Fits hi) : InOrder lo hi [s] :=
  ⟨hlo, hs.ordered, hs.within⟩

theorem split (h : InOrder lo hi (spans ++ rest)) :
    ∃ mid, InOrder lo mid spans ∧ InOrder mid hi rest := by
  induction spans generalizing lo with
  | nil => exact ⟨lo, Nat.le_refl _, h⟩
  | cons s spans ih =>
    obtain ⟨mid, hspans, hrest⟩ := ih h.2.2
    exact ⟨mid, ⟨h.1, h.2.1, hspans⟩, hrest⟩

/-- Two stretches and those between them made one. -/
theorem enclose (inner : List Span) {t : Span} (h : InOrder lo hi (s :: (inner ++ t :: rest))) :
    InOrder s.start.offset t.stop.offset (s :: (inner ++ [t])) ∧ InOrder lo hi (s.to t :: rest) := by
  obtain ⟨hlo, hordered, hbehind⟩ := h
  obtain ⟨mid, hinner, hmid, ht, hrest⟩ := hbehind.split
  have hparts : InOrder s.stop.offset t.stop.offset (inner ++ [t]) :=
    hinner.append ⟨hmid, ht, Nat.le_refl _⟩
  exact ⟨⟨Nat.le_refl _, hordered, hparts⟩, hlo, Nat.le_trans hordered hparts.le, hrest⟩

/-- What stands in order stands so from the start of the first to the end of the last. -/
theorem extent (h : InOrder lo hi (s :: rest)) :
    lo ≤ s.start.offset ∧
      InOrder s.start.offset (rest.getLast?.getD s).stop.offset (s :: rest) ∧
      (rest.getLast?.getD s).stop.offset ≤ hi := by
  induction rest generalizing lo s with
  | nil => exact ⟨h.1, ⟨Nat.le_refl _, h.2.1, Nat.le_refl _⟩, h.2.2⟩
  | cons t rest ih =>
    obtain ⟨hs, hordered, hrest⟩ := h
    obtain ⟨hbehind, hlast, hwithin⟩ := ih hrest
    rw [List.getLast?_cons, Option.getD_some]
    exact ⟨hs, ⟨Nat.le_refl _, hordered, hlast.mono hbehind (Nat.le_refl _)⟩, hwithin⟩

end InOrder

namespace Markup

variable {options : ScanOptions} {lo hi : Nat}

/-! ### Tokens -/

theorem Laid.inOrder {lost : Bool} {previous : Option Lexeme} {c d : Cursor} {tokens : List Token}
    (h : Laid options lost previous c tokens d) :
    InOrder c.position.offset d.position.offset (tokens.map Token.span) := by
  induction h with
  | nil previous c => exact Nat.le_refl c.position.offset
  | gap hread _ _ ih =>
    have hoffset := hread.offset
    exact ih.mono (by omega) (Nat.le_refl _)
  | @token previous c d e gs lexeme tokens hread _ _ ih =>
    have hoffset := hread.offset
    have hordered : c.position.offset ≤ d.position.offset := by omega
    exact ⟨Nat.le_refl _, hordered, ih⟩

/-- The mark that opens a tag takes a byte. -/
def Token.OpensTag (t : Token) : Prop :=
  ∀ name, t.lexeme = .tagOpenStart name → t.span.start.offset < t.span.stop.offset

theorem Laid.opensTag {lost : Bool} {previous : Option Lexeme} {c d : Cursor} {tokens : List Token}
    (h : Laid options lost previous c tokens d) : ∀ t ∈ tokens, t.OpensTag := by
  intro t ht name hlexeme
  obtain ⟨before, after, htokens⟩ := List.append_of_mem ht
  obtain ⟨gs, hs, e, f, -, hread, hspan, hspell⟩ := h.spells htokens
  rw [hlexeme] at hspell
  have hslice : Text.ofGlyphs hs = "<" ++ name := hspell
  have hoffset := hread.offset
  rw [hslice, List.length_append] at hoffset
  have hmark : ("<" : Text).length = 1 := by decide
  rw [hspan]
  change e.position.offset < f.position.offset
  omega

/-! ### Pieces -/

/-- An attribute begins with its name, behind which its value stands. -/
def Attr.Nests (a : Attr) : Prop :=
  InOrder a.span.start.offset a.span.stop.offset (a.nameSpan :: a.valueSpan.toList)

/-- The attributes of an element stand in its start tag, which takes a byte at least. -/
structure StartTagNests (startTag : Span) (attrs : List Attr) : Prop where
  nonempty : startTag.start.offset < startTag.stop.offset
  ordered : InOrder startTag.start.offset startTag.stop.offset (attrs.map Attr.span)
  parts : ∀ a ∈ attrs, a.Nests

/-- The name of a block and its parameters stand in its header. -/
def HeaderNests (header name : Span) (parameters : List Parameter) : Prop :=
  InOrder header.start.offset header.stop.offset (name :: parameters.map Parameter.span)

/-- Behind every name of a block its header goes on to its end. -/
def HeadersWhole (tokens : List Token) : Prop :=
  ∀ name after, .blockOpenStart name :: after <:+ tokens.map Token.lexeme →
    ∃ (parameters : List Text) (rest : List Lexeme),
      after = parameters.map .blockParameter ++ .blockOpenEnd :: rest

namespace Piece

theorem takeAttrs_nests {tokens : List Token} (h : InOrder lo hi (tokens.map Token.span)) :
    InOrder lo hi ((takeAttrs tokens).1.map Attr.span ++ (takeAttrs tokens).2.map Token.span) ∧
      ∀ a ∈ (takeAttrs tokens).1, a.Nests := by
  have hcons {lo : Nat} {a : Attr} {attrs : List Attr} {spans rest : List Span} (ha : a.Nests)
      (hspan : InOrder lo hi (a.span :: spans))
      (ih : ∀ {lo}, InOrder lo hi spans →
        InOrder lo hi (attrs.map Attr.span ++ rest) ∧ ∀ a ∈ attrs, a.Nests) :
      InOrder lo hi ((a :: attrs).map Attr.span ++ rest) ∧ ∀ b ∈ a :: attrs, b.Nests := by
    obtain ⟨hordered, hnested⟩ := ih hspan.2.2
    exact ⟨⟨hspan.1, hspan.2.1, hordered⟩, List.forall_mem_cons.mpr ⟨ha, hnested⟩⟩
  have hname {s : Span} {spans : List Span} {lo : Nat} (h : InOrder lo hi (s :: spans)) :
      InOrder s.start.offset s.stop.offset [s] :=
    ⟨Nat.le_refl _, h.2.1, Nat.le_refl _⟩
  fun_induction takeAttrs tokens generalizing lo with
  | case1 n s _ q v vs _ qs rest found =>
    rename_i ih
    obtain ⟨hparts, hwhole⟩ := h.enclose [q, vs]
    exact hcons (hparts.sublist (by simp)) hwhole ih
  | case2 n s _ q v vs rest _ found =>
    rename_i ih
    obtain ⟨hparts, hwhole⟩ := h.enclose [q]
    exact hcons (hparts.sublist (by simp)) hwhole ih
  | case3 n s _ q _ qs rest found =>
    rename_i ih
    obtain ⟨hparts, hwhole⟩ := h.enclose [q]
    exact hcons (hparts.sublist (by simp)) hwhole ih
  | case4 n s _ _ rest _ _ _ found =>
    rename_i ih
    exact hcons (hname h) (h.sublist ((List.sublist_cons_self _ _).cons_cons s)) ih
  | case5 n s v vs rest found =>
    rename_i ih
    obtain ⟨hparts, hwhole⟩ := h.enclose []
    exact hcons hparts hwhole ih
  | case6 n s rest _ _ _ _ _ found =>
    rename_i ih
    exact hcons (hname h) h ih
  | case7 => exact ⟨h, by simp⟩

theorem takeParameters_spans (tokens : List Token) :
    tokens.map Token.span =
      (takeParameters tokens).1.map Parameter.span ++ (takeParameters tokens).2.map Token.span := by
  fun_induction takeParameters tokens with
  | case1 e s rest found ih => exact congrArg (s :: ·) ih
  | case2 => rfl

def span : Piece → Span
  | .startTag _ _ _ span => span
  | .endTag _ span => span
  | .text first rest => first.span.to (rest.getLast?.getD first).span
  | .comment _ span => span
  | .blockOpen _ _ _ span => span
  | .blockClose span => span

/-- What a piece holds stands in it, unless it is cut short. -/
def Nests : Piece → Prop
  | .startTag _ attrs ending span => ending ≠ .incomplete → StartTagNests span attrs
  | .text first rest =>
    InOrder first.span.start.offset (rest.getLast?.getD first).span.stop.offset
      ((first :: rest).map Token.span)
  | .blockOpen _ parameters nameSpan span => HeaderNests span nameSpan parameters
  | _ => True

section Taking

variable {name : Text} {token : Token} {rest : List Token}
  (h : InOrder lo hi ((token :: rest).map Token.span))
include h

theorem takeStartTag_nests (hopens : token.span.start.offset < token.span.stop.offset) :
    (takeStartTag name token.span rest).1.Nests ∧
      InOrder lo hi ((takeStartTag name token.span rest).1.span ::
        (takeStartTag name token.span rest).2.map Token.span) := by
  obtain ⟨hordered, hparts⟩ := takeAttrs_nests h.2.2
  have htag : InOrder lo hi (token.span ::
      ((takeAttrs rest).1.map Attr.span ++ (takeAttrs rest).2.map Token.span)) :=
    ⟨h.1, h.2.1, hordered⟩
  have hended {s : Span} {more : List Span}
      (hs : InOrder lo hi (token.span :: ((takeAttrs rest).1.map Attr.span ++ s :: more))) :
      StartTagNests (token.span.to s) (takeAttrs rest).1 ∧ InOrder lo hi (token.span.to s :: more) := by
    obtain ⟨⟨-, -, hinner⟩, hwhole⟩ := hs.enclose _
    have hattrs : InOrder token.span.start.offset s.stop.offset ((takeAttrs rest).1.map Attr.span) :=
      (hinner.sublist (List.sublist_append_left _ _)).mono (Nat.le_of_lt hopens) (Nat.le_refl _)
    exact ⟨⟨Nat.lt_of_lt_of_le hopens hinner.le, hattrs, hparts⟩, hwhole⟩
  rw [takeStartTag]
  split
  · rename_i s more htokens
    rw [htokens] at htag
    exact ⟨fun _ => (hended htag).1, (hended htag).2⟩
  · rename_i s more htokens
    rw [htokens] at htag
    exact ⟨fun _ => (hended htag).1, (hended htag).2⟩
  · refine ⟨fun hending => absurd rfl hending, ?_⟩
    exact htag.sublist ((List.sublist_append_right _ _).cons_cons _)

theorem takeBlockHeader_nests {parameters : List Text} {behind : List Lexeme}
    (hheader : rest.map Token.lexeme = parameters.map .blockParameter ++ .blockOpenEnd :: behind) :
    (takeBlockHeader name token.span rest).1.Nests ∧
      InOrder lo hi ((takeBlockHeader name token.span rest).1.span ::
        (takeBlockHeader name token.span rest).2.map Token.span) := by
  obtain ⟨s, more, htaken, -⟩ := eq_cons_of_map_lexeme (takeParameters_written hheader).2
  rw [List.map_cons, takeParameters_spans rest, htaken] at h
  obtain ⟨hparts, hwhole⟩ := h.enclose _
  rw [takeBlockHeader, htaken]
  exact ⟨hparts.sublist ((List.sublist_append_left _ _).cons_cons _), hwhole⟩

theorem run_nests :
    (Piece.text token (rest.takeWhile isTextual)).Nests ∧
      InOrder lo hi ((Piece.text token (rest.takeWhile isTextual)).span ::
        (rest.dropWhile isTextual).map Token.span) := by
  rw [← List.takeWhile_append_dropWhile (p := isTextual) (l := rest), ← List.cons_append,
    List.map_append] at h
  obtain ⟨mid, hrun, hbehind⟩ := h.split
  obtain ⟨hstart, htokens, hstop⟩ := hrun.extent
  have hlast : ((List.map Token.span (rest.takeWhile isTextual)).getLast?.getD token.span) =
      ((rest.takeWhile isTextual).getLast?.getD token).span := by
    rw [List.getLast?_map]
    cases (rest.takeWhile isTextual).getLast? <;> rfl
  rw [hlast] at htokens hstop
  exact ⟨htokens, hstart, htokens.le, hbehind.mono hstop (Nat.le_refl _)⟩

end Taking

/-- The piece of a round stands in front of the tokens behind it. -/
theorem turn_nests {token : Token} {rest left : List Token} {piece : Piece}
    (h : InOrder lo hi ((token :: rest).map Token.span)) (hopens : token.OpensTag)
    (hheaders : HeadersWhole (token :: rest)) (hturn : turn token rest = (some piece, left)) :
    piece.Nests ∧ InOrder lo hi (piece.span :: left.map Token.span) := by
  obtain ⟨l, s⟩ := token
  cases l with
  | tagOpenStart name =>
    cases hturn
    exact takeStartTag_nests h (hopens name rfl)
  | blockOpenStart name =>
    cases hturn
    obtain ⟨parameters, behind, hheader⟩ := hheaders name _ List.suffix_rfl
    exact takeBlockHeader_nests h hheader
  | text | rawText | interpolation =>
    cases hturn
    exact run_nests h
  | tagClose | comment | blockClose =>
    cases hturn
    exact ⟨trivial, h⟩
  | _ => cases hturn

/-- Pieces stand in the order of the tokens they are gathered from. -/
theorem Gathers.nests {tokens : List Token} {pieces : List Piece} (h : Gathers tokens pieces)
    (hordered : InOrder lo hi (tokens.map Token.span)) (hopens : ∀ t ∈ tokens, t.OpensTag)
    (hheaders : HeadersWhole tokens) :
    InOrder lo hi (pieces.map span) ∧ ∀ piece ∈ pieces, piece.Nests := by
  induction h generalizing lo with
  | eof => exact ⟨hordered.le, by simp⟩
  | @round token rest left piece pieces hturn _ ih =>
    obtain ⟨htoken, hrest⟩ := List.forall_mem_cons.mp hopens
    obtain ⟨hpiece, hstart, hstop, hleft⟩ := turn_nests hordered htoken hheaders hturn
    have hsuffix : left <:+ rest := by
      have hturned := turn_isSuffix token rest
      rwa [hturn] at hturned
    have hbehind : left <:+ token :: rest := hsuffix.trans (List.suffix_cons _ _)
    obtain ⟨hpieces, hnested⟩ := ih hleft (fun t ht => hrest t (hsuffix.mem ht))
      (fun name after hafter => hheaders name after (hafter.trans (hbehind.map _)))
    exact ⟨⟨hstart, hstop, hpieces⟩, List.forall_mem_cons.mpr ⟨hpiece, hnested⟩⟩

end Piece

/-! ### Nodes -/

mutual

/-- A node and all the nodes in it, in the order of their beginnings. -/
def Node.all : Node → List Node
  | .element name attrs children selfClosing spans =>
    .element name attrs children selfClosing spans :: allIn children
  | .text value tokens span => [.text value tokens span]
  | .comment body span => [.comment body span]
  | .block name parameters children spans => .block name parameters children spans :: allIn children

def allIn : List Node → List Node
  | [] => []
  | node :: rest => node.all ++ allIn rest

end

theorem allIn_append (nodes others : List Node) : allIn (nodes ++ others) = allIn nodes ++ allIn others := by
  induction nodes with
  | nil => rfl
  | cons node rest ih => rw [List.cons_append, allIn, allIn, ih, List.append_assoc]

/-- What closes a container stands behind what opens it, and its content between the two. -/
structure Encloses (opening close : Span) (children : List Node) : Prop where
  content : InOrder opening.stop.offset close.start.offset (children.map Node.span)
  close : close.start.offset ≤ close.stop.offset

/-- What a node holds stands in it. An element that takes no content has none, and ends with its start tag. -/
def Node.Nests : Node → Prop
  | .element name attrs children selfClosing spans =>
    StartTagNests spans.startTag attrs ∧
      ∃ endTag, spans.endTag = some endTag ∧ spans.whole = spans.startTag.to endTag ∧
        if selfClosing || isVoidName name then children = [] ∧ endTag = spans.startTag
        else Encloses spans.startTag endTag children
  | .text _ tokens span => InOrder span.start.offset span.stop.offset (tokens.map Token.span)
  | .comment _ span => span.start.offset ≤ span.stop.offset
  | .block _ parameters children spans =>
    HeaderNests spans.header spans.name parameters ∧
      ∃ brace, spans.close = some brace ∧ spans.whole = spans.header.to brace ∧
        Encloses spans.header brace children

theorem Encloses.le {opening close : Span} {children : List Node} (h : Encloses opening close children) :
    opening.stop.offset ≤ close.stop.offset :=
  Nat.le_trans h.content.le h.close

theorem Node.Nests.ordered {node : Node} (h : node.Nests) :
    node.span.start.offset ≤ node.span.stop.offset := by
  cases node with
  | element name attrs children selfClosing spans =>
    obtain ⟨htag, endTag, -, hwhole, hcontent⟩ := h
    have hstart := htag.nonempty
    rw [Node.span, hwhole]
    change spans.startTag.start.offset ≤ endTag.stop.offset
    split at hcontent
    · rw [hcontent.2]
      exact Nat.le_of_lt hstart
    · exact Nat.le_trans (Nat.le_of_lt hstart) hcontent.le
  | text value tokens span => exact InOrder.le h
  | comment body span => exact h
  | block name parameters children spans =>
    obtain ⟨hheader, brace, -, hwhole, hcontent⟩ := h
    rw [Node.span, hwhole]
    exact Nat.le_trans hheader.le hcontent.le

/-- Siblings stand one behind the other between two offsets, and what they hold in them. -/
structure Forest (lo hi : Nat) (nodes : List Node) : Prop where
  ordered : InOrder lo hi (nodes.map Node.span)
  nested : ∀ node ∈ allIn nodes, node.Nests

namespace Forest

theorem empty (h : lo ≤ hi) : Forest lo hi [] := ⟨h, by simp [allIn]⟩

theorem mono {hi' : Nat} {nodes : List Node} (h : Forest lo hi nodes) (hhi : hi ≤ hi') :
    Forest lo hi' nodes :=
  ⟨h.ordered.mono (Nat.le_refl _) hhi, h.nested⟩

theorem snoc {mid : Nat} {nodes : List Node} (h : Forest lo mid nodes) {node : Node}
    (hnode : ∀ n ∈ node.all, n.Nests) (hspan : InOrder mid hi [node.span]) :
    Forest lo hi (nodes ++ [node]) where
  ordered := by
    rw [List.map_append]
    exact h.ordered.append hspan
  nested := by
    rw [allIn_append, allIn, allIn, List.append_nil]
    exact List.forall_mem_append.mpr ⟨h.nested, hnode⟩

end Forest

/-! ### Nesting -/

/-- A container that was opened, and may have content. -/
def Container.Nests : Container → Prop
  | .element name attrs startTag => StartTagNests startTag attrs ∧ isVoidName name = false
  | .block _ parameters nameSpan header => HeaderNests header nameSpan parameters

theorem Container.Nests.ordered {c : Container} (hc : c.Nests) :
    c.opening.start.offset ≤ c.opening.stop.offset := by
  cases c with
  | element name attrs startTag => exact Nat.le_of_lt hc.1.nonempty
  | block name parameters nameSpan header => exact hc.le

theorem Container.Nests.toNode {c : Container} (hc : c.Nests) {children : List Node} {close : Span}
    (hchildren : Forest c.opening.stop.offset close.start.offset children)
    (hclose : close.start.offset ≤ close.stop.offset) :
    ∀ node ∈ (c.toNode children (some close)).all, node.Nests := by
  cases c with
  | element name attrs startTag =>
    refine List.forall_mem_cons.mpr ⟨⟨hc.1, close, rfl, rfl, ?_⟩, hchildren.nested⟩
    rw [Bool.false_or, hc.2]
    exact ⟨hchildren.ordered, hclose⟩
  | block name parameters nameSpan header =>
    exact List.forall_mem_cons.mpr
      ⟨⟨hc, close, rfl, rfl, hchildren.ordered, hclose⟩, hchildren.nested⟩

theorem Container.span_toNode (c : Container) (children : List Node) (close : Span) :
    (c.toNode children (some close)).span = c.opening.to close := by
  cases c <;> rfl

namespace Nest

/-- What is open, innermost first, and the nodes around it, up to the offset that has been reached. -/
def FramesNest (roots : List Node) : List Frame → (reached : Nat) → Prop
  | [], reached => Forest 0 reached roots.reverse
  | f :: fs, reached =>
    f.container.Nests ∧ Forest f.container.opening.stop.offset reached f.children.reverse ∧
      FramesNest roots fs f.container.opening.start.offset

def Nests (reached : Nat) (t : Nest) : Prop := FramesNest t.roots t.frames reached

variable {reached next : Nat} {t : Nest}

theorem Nests.mono (ht : t.Nests reached) (hle : reached ≤ next) : t.Nests next := by
  obtain ⟨frames, roots, problems⟩ := t
  cases frames with
  | nil => exact Forest.mono ht hle
  | cons f fs => exact ⟨ht.1, ht.2.1.mono hle, ht.2.2⟩

theorem Nests.add (ht : t.Nests reached) {node : Node} (hnode : ∀ n ∈ node.all, n.Nests)
    (hspan : InOrder reached next [node.span]) : (t.add node).Nests next := by
  obtain ⟨frames, roots, problems⟩ := t
  cases frames with
  | nil =>
    change Forest 0 next (node :: roots).reverse
    rw [List.reverse_cons]
    exact Forest.snoc ht hnode hspan
  | cons f fs =>
    refine ⟨ht.1, ?_, ht.2.2⟩
    change Forest _ next (node :: f.children).reverse
    rw [List.reverse_cons]
    exact ht.2.1.snoc hnode hspan

theorem Nests.push (ht : t.Nests reached) {c : Container} (hc : c.Nests)
    (hspan : InOrder reached next [c.opening]) : (t.push c).Nests next :=
  ⟨hc, .empty hspan.2.2, ht.mono hspan.1⟩

/-- The innermost container is closed. -/
theorem Nests.close (ht : t.Nests reached) {f : Frame} {fs : List Frame} (hframes : t.frames = f :: fs)
    {close : Span} (hspan : InOrder reached next [close]) :
    (Nest.add { t with frames := fs } (f.toNode (some close))).Nests next := by
  obtain ⟨frames, roots, problems⟩ := t
  obtain rfl : frames = f :: fs := hframes
  obtain ⟨hcontainer, hchildren, hframes⟩ := ht
  obtain ⟨hstart, hordered, hstop⟩ := hspan
  have houter : Nests f.container.opening.start.offset ⟨fs, roots, problems⟩ := hframes
  refine houter.add (hcontainer.toNode (hchildren.mono hstart) hordered) ?_
  change InOrder _ _ [(f.container.toNode f.children.reverse (some close)).span]
  rw [Container.span_toNode]
  have hcontent := hchildren.ordered.le
  have hopening := hcontainer.ordered
  exact ⟨Nat.le_refl _,
    Nat.le_trans hopening (Nat.le_trans hcontent (Nat.le_trans hstart hordered)), hstop⟩

theorem span_firstToken (t : Nest) (token : Token) : (t.firstToken token).span = token.span := by
  rw [firstToken]
  split
  · split <;> rfl
  · rfl

/-- One more piece keeps the order. -/
theorem Nests.step (ht : t.Nests reached) {piece : Piece} (hpiece : piece.Nests) (hwhole : piece.IsWhole)
    (hspan : InOrder reached next [piece.span]) (hclean : (t.step piece).opened? ≠ none) :
    (t.step piece).Nests next := by
  cases piece with
  | startTag name attrs ending span =>
    have htag : StartTagNests span attrs := hpiece hwhole
    rw [Nest.step]
    split
    · rename_i hopens
      have hname : isVoidName name = false := by simp_all
      exact ht.push ⟨htag, hname⟩ hspan
    · rename_i hopens
      have hempty : (ending == .selfClosing || isVoidName name) = true := by
        cases ending with
        | opening => simpa using hopens
        | selfClosing => rfl
        | incomplete => exact absurd rfl hwhole
      refine ht.add (List.forall_mem_singleton.mpr ⟨htag, span, rfl, rfl, ?_⟩) hspan
      rw [if_pos hempty]
      exact ⟨rfl, rfl⟩
  | endTag name span =>
    rw [Nest.step] at hclean ⊢
    split
    · rename_i hvoid
      rw [if_pos hvoid] at hclean
      exact absurd rfl hclean
    · rename_i hvoid
      rw [if_neg hvoid] at hclean
      obtain ⟨f, fs, hframes, -, hclosed⟩ := close_of_opened? hclean
      rw [hclosed]
      exact ht.close hframes hspan
  | text first rest =>
    rw [Nest.step, addText]
    split
    · exact ht.mono (Nat.le_trans hspan.1 (Nat.le_trans hspan.2.1 hspan.2.2))
    · refine ht.add (List.forall_mem_singleton.mpr ?_) hspan
      change InOrder _ _ ((t.firstToken first).span :: rest.map Token.span)
      rw [span_firstToken]
      exact hpiece
  | comment body span => exact ht.add (List.forall_mem_singleton.mpr hspan.2.1) hspan
  | blockOpen name parameters nameSpan span => exact ht.push hpiece hspan
  | blockClose span =>
    obtain ⟨f, fs, hframes, -, hclosed⟩ := close_of_opened? hclean
    rw [Nest.step, hclosed]
    exact ht.close hframes hspan

theorem Nests.run {pieces : List Piece} (ht : t.Nests reached)
    (hordered : InOrder reached hi (pieces.map Piece.span)) (hnested : ∀ piece ∈ pieces, piece.Nests)
    (hwhole : ∀ piece ∈ pieces, piece.IsWhole) (hclean : (pieces.foldl Nest.step t).opened? ≠ none) :
    (pieces.foldl Nest.step t).Nests hi := by
  induction pieces generalizing t reached with
  | nil => exact ht.mono hordered
  | cons piece rest ih =>
    obtain ⟨hpiece, hpieces⟩ := List.forall_mem_cons.mp hnested
    obtain ⟨hfirst, hothers⟩ := List.forall_mem_cons.mp hwhole
    have hstep : (t.step piece).opened? ≠ none := opened?_ne_none_of_run hclean
    refine ih (ht.step hpiece hfirst ?_ hstep) hordered.2.2 hpieces hothers hclean
    exact ⟨hordered.1, hordered.2.1, Nat.le_refl _⟩

theorem Nests.forest (ht : t.Nests reached) (hopened : t.opened? = some []) :
    Forest 0 reached (Tree.ofNest t).nodes := by
  obtain ⟨frames, roots, problems⟩ := t
  rw [opened?] at hopened
  split at hopened
  · obtain rfl : frames = [] := by simpa using hopened
    exact ht
  · cases hopened

end Nest

theorem TokenStream.ofText_inOrder (options : ScanOptions) (text : Text) :
    InOrder 0 text.length ((TokenStream.ofText options text).tokens.map Token.span) ∧
      ∀ t ∈ (TokenStream.ofText options text).tokens, t.OpensTag := by
  obtain ⟨d, hd, hlaid⟩ := @TokenStream.readFrom_laid options text text.glyphs.length (.ofText text)
    List.suffix_rfl (Nat.le_refl _) none
  have hend : d.position.offset = text.length := by
    obtain ⟨gs, hgs⟩ := hlaid.reads
    have hall : text.glyphs = gs := by
      have hrest := hgs.rest
      rw [hd, List.append_nil] at hrest
      exact hrest
    rw [hgs.offset, ← hall, Text.ofGlyphs_glyphs]
    exact Nat.zero_add _
  have htokens := hlaid.inOrder
  rw [hend] at htokens
  exact ⟨htokens, hlaid.opensTag⟩

/-- The nodes of a source that is nested without problems stand one behind the other, and what they hold in
them. -/
theorem Tree.ofText_forest {text : Text} (hproblems : (Tree.ofText options text).diagnostics = []) :
    Forest 0 text.length (Tree.ofText options text).nodes := by
  obtain ⟨hread, hnested⟩ := List.append_eq_nil_iff.mp hproblems
  have hopened := diagnostics_ofNest_eq_nil.mp hnested
  have hsentence := TokenStream.readFrom_sentence options text.glyphs.length (.ofText text)
  obtain ⟨hordered, hopens⟩ := TokenStream.ofText_inOrder options text
  have hgathers : Piece.Gathers (TokenStream.ofText options text).tokens
      (Piece.ofTokens (TokenStream.ofText options text).tokens) :=
    Piece.gathers_gather hsentence.onward (Nat.le_refl _)
  obtain ⟨hpieces, hnests⟩ := hgathers.nests hordered hopens
    fun name after => hsentence.behind_blockOpenStart
  have hempty : Nest.empty.Nests 0 := Forest.empty (Nat.le_refl 0)
  exact (hempty.run hpieces hnests (Piece.hold_ofText hread).whole (by rw [hopened]; simp)).forest hopened

/-- In a source that is nested without problems the top level nodes are in order, every node ends no sooner
than it begins, and what a node holds stands in it. -/
theorem spans_nest (options : ScanOptions) (text : Text)
    (hproblems : (Tree.ofText options text).diagnostics = []) :
    let nodes := (Tree.ofText options text).nodes
    InOrder 0 text.length (nodes.map Node.span) ∧
      ∀ node ∈ allIn nodes, node.span.start.offset ≤ node.span.stop.offset ∧ node.Nests := by
  have hforest := Tree.ofText_forest hproblems
  exact ⟨hforest.ordered, fun node hnode => ⟨(hforest.nested node hnode).ordered, hforest.nested node hnode⟩⟩

/-- Attributes with and without quotes, elements that take no content, and a block with two parameters. -/
def stackedMarkup : Text := "<ul a=1 b='2'>x<br><li/>@if (p; q) \x7by<!--c-->\x7d</ul>z"

theorem stackedMarkup_nests :
    let nodes := (Tree.ofText ⟨false⟩ stackedMarkup).nodes
    (Tree.ofText ⟨false⟩ stackedMarkup).diagnostics = [] ∧ (allIn nodes).length = 8 ∧
      InOrder 0 stackedMarkup.length (nodes.map Node.span) ∧
      ∀ node ∈ allIn nodes, node.span.start.offset ≤ node.span.stop.offset ∧ node.Nests := by
  have hproblems : (Tree.ofText ⟨false⟩ stackedMarkup).diagnostics = [] := by decide +kernel
  exact ⟨hproblems, by decide +kernel, spans_nest ⟨false⟩ stackedMarkup hproblems⟩

end Markup

end Stencil
