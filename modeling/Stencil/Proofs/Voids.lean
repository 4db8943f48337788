import Stencil.Markup.Blanks
import Stencil.Markup.Tree

/-!
# Void elements have no content

In a markup tree an element that is void by its name, or that closes itself, has no children. Nesting
sees to it by never opening such an element, and no later step gives it any: a frame is closed only into
the element it was opened for, and removing blanks only ever drops nodes.

The fact does not depend on the source being free of problems.
-/

namespace Stencil.Markup

mutual

/-- Every void or self-closing element in a node is without children. -/
def Node.VoidsEmpty : Node → Prop
  | .element name _ children selfClosing _ =>
    ((selfClosing || isVoidName name) = true → children = []) ∧ VoidsEmptyIn children
  | .text .. => True
  | .comment .. => True
  | .block _ _ children _ => VoidsEmptyIn children

/-- Every void or self-closing element in some nodes is without children. -/
def VoidsEmptyIn : List Node → Prop
  | [] => True
  | node :: rest => node.VoidsEmpty ∧ VoidsEmptyIn rest

end

theorem voidsEmptyIn_iff {nodes : List Node} :
    VoidsEmptyIn nodes ↔ ∀ node ∈ nodes, node.VoidsEmpty := by
  induction nodes with
  | nil => simp [VoidsEmptyIn]
  | cons node rest ih => simp [VoidsEmptyIn, ih]

/-! ### What nesting keeps

Nodes come into a tree as pieces without content or by closing a container over its content. So a
property of nodes holds throughout the tree if the pieces have it and closing keeps it, where closing may
rely on something that is known of the containers that were opened. -/

section Keeping

variable {holds : Container → Prop} {good : Node → Prop}

/-- Closing a container over good nodes gives a good node. -/
def Closes (holds : Container → Prop) (good : Node → Prop) : Prop :=
  ∀ c, holds c → ∀ children, (∀ node ∈ children, good node) → ∀ close, good (c.toNode children close)

/-- The container or the node that a piece brings into a tree is as it should be. -/
def Piece.Fits (holds : Container → Prop) (good : Node → Prop) : Piece → Prop
  | .startTag name attrs ending span =>
    if ending == .opening && !isVoidName name then holds (.element name attrs span)
    else good (.element name attrs [] (ending == .selfClosing) ⟨span, span, some span⟩)
  | .text first rest =>
    ∀ (t : Nest) (span : Span), good (.text ((t.firstToken first :: rest).flatMap fun token =>
      token.lexeme.content) (t.firstToken first :: rest) span)
  | .comment body span => good (.comment body span)
  | .blockOpen name parameters nameSpan span => holds (.block name parameters nameSpan span)
  | .endTag .. => True
  | .blockClose .. => True

/-- An open container as it should be, with good nodes in it. -/
structure Frame.Good (holds : Container → Prop) (good : Node → Prop) (f : Frame) : Prop where
  container : holds f.container
  children : ∀ node ∈ f.children, good node

namespace Frame.Good

theorem add {f : Frame} (hf : f.Good holds good) {node : Node} (hnode : good node) :
    (f.add node).Good holds good := by
  refine ⟨hf.container, ?_⟩
  intro other hother
  rcases List.mem_cons.mp hother with rfl | hother
  · exact hnode
  · exact hf.children other hother

theorem toNode (hclose : Closes holds good) {f : Frame} (hf : f.Good holds good)
    (close : Option Span) : good (f.toNode close) := by
  apply hclose _ hf.container
  intro node hnode
  exact hf.children node (List.mem_reverse.mp hnode)

end Frame.Good

namespace Nest

/-- What nesting keeps: open containers are as they should be, and all nodes so far are good. -/
structure Good (holds : Container → Prop) (good : Node → Prop) (t : Nest) : Prop where
  frames : ∀ f ∈ t.frames, f.Good holds good
  roots : ∀ node ∈ t.roots, good node

theorem Good.empty : Nest.empty.Good holds good := ⟨by simp [Nest.empty], by simp [Nest.empty]⟩

theorem Good.note {t : Nest} (ht : t.Good holds good) (p : Problem) (span : Span) :
    (t.note p span).Good holds good :=
  ⟨ht.frames, ht.roots⟩

theorem Good.push {t : Nest} (ht : t.Good holds good) {c : Container} (hc : holds c) :
    (t.push c).Good holds good := by
  refine ⟨?_, ht.roots⟩
  intro f hf
  rcases List.mem_cons.mp hf with rfl | hf
  · exact ⟨hc, by simp⟩
  · exact ht.frames f hf

theorem Good.add {t : Nest} (ht : t.Good holds good) {node : Node} (hnode : good node) :
    (t.add node).Good holds good := by
  obtain ⟨frames, roots, problems⟩ := t
  cases frames with
  | nil =>
    refine ⟨by simp [Nest.add], ?_⟩
    intro other hother
    rcases List.mem_cons.mp hother with rfl | hother
    · exact hnode
    · exact ht.roots other hother
  | cons f fs =>
    refine ⟨?_, ht.roots⟩
    intro g hg
    rcases List.mem_cons.mp hg with rfl | hg
    · exact (ht.frames f (by simp)).add hnode
    · exact ht.frames g (by simp [hg])

theorem Good.addText {t : Nest} (ht : t.Good holds good) {first : Token} {rest : List Token}
    (hfits : (Piece.text first rest).Fits holds good) : (t.addText first rest).Good holds good := by
  rw [Nest.addText]
  split
  · exact ht
  · exact ht.add (hfits t _)

variable (hclose : Closes holds good)
include hclose

theorem collapse_good {frames : List Frame} {roots : List Node}
    (hframes : ∀ f ∈ frames, f.Good holds good) (hroots : ∀ node ∈ roots, good node) :
    (∀ f ∈ (collapse frames roots).1, f.Good holds good) ∧
      ∀ node ∈ (collapse frames roots).2, good node := by
  match frames with
  | [] => exact ⟨hframes, hroots⟩
  | [f] =>
    refine ⟨by simp [collapse], ?_⟩
    intro node hnode
    rcases List.mem_cons.mp hnode with rfl | hnode
    · exact (hframes f (by simp)).toNode hclose none
    · exact hroots node hnode
  | f :: g :: fs =>
    refine ⟨?_, hroots⟩
    intro h hh
    rcases List.mem_cons.mp hh with rfl | hh
    · exact (hframes g (by simp)).add ((hframes f (by simp)).toNode hclose none)
    · exact hframes h (by simp [hh])

theorem Good.closeTo {p : Container → Bool} {close : Span} (fuel : Nat) {t : Nest}
    (ht : t.Good holds good) : (t.closeTo p close fuel).Good holds good := by
  induction fuel generalizing t with
  | zero => exact ht
  | succ fuel ih =>
    rw [Nest.closeTo]
    cases hframes : t.frames with
    | nil => exact ht
    | cons f fs =>
      have hf : f.Good holds good := ht.frames f (by simp [hframes])
      have hfs : ∀ g ∈ fs, g.Good holds good := fun g hg => ht.frames g (by simp [hframes, hg])
      cases hp : p f.container with
      | true =>
        have houter : Good holds good { t with frames := fs } := ⟨hfs, ht.roots⟩
        simpa [hp] using houter.add (hf.toNode hclose (some close))
      | false =>
        -- A container that is not the one to close is closed on the way, inside the next one.
        have hcollapsed := collapse_good hclose (hframes ▸ ht.frames) ht.roots
        simpa [hp] using ih ⟨hcollapsed.1, hcollapsed.2⟩

theorem Good.close {t : Nest} (ht : t.Good holds good) (p : Container → Bool) (span : Span)
    (problem : Problem) : (t.close p span problem).Good holds good := by
  rw [Nest.close]
  split
  · exact ht.note problem span
  · split
    · exact ht.closeTo hclose _
    · split
      · exact (ht.closeTo hclose _).note problem span
      · exact ht.note problem span

/-- One more piece keeps the nesting good. -/
theorem Good.step {t : Nest} (ht : t.Good holds good) {piece : Piece}
    (hfits : piece.Fits holds good) : (t.step piece).Good holds good := by
  cases piece with
  | startTag name attrs ending span =>
    rw [Nest.step]
    rw [Piece.Fits] at hfits
    split
    · rename_i hopens
      rw [if_pos hopens] at hfits
      exact ht.push hfits
    · rename_i hopens
      rw [if_neg hopens] at hfits
      exact ht.add hfits
  | endTag name span =>
    rw [Nest.step]
    split
    · exact ht.note _ span
    · exact ht.close hclose _ span _
  | text first rest => exact ht.addText hfits
  | comment body span => exact ht.add hfits
  | blockOpen name parameters nameSpan span => exact ht.push hfits
  | blockClose span => exact ht.close hclose _ span _

theorem Good.run {t : Nest} (ht : t.Good holds good) {pieces : List Piece}
    (hfits : ∀ piece ∈ pieces, piece.Fits holds good) : (pieces.foldl Nest.step t).Good holds good := by
  induction pieces generalizing t with
  | nil => exact ht
  | cons piece rest ih =>
    exact ih (ht.step hclose (hfits piece (by simp))) fun other hother => hfits other (by simp [hother])

theorem closeAll_good {frames : List Frame} (hframes : ∀ f ∈ frames, f.Good holds good)
    {inner : Option Node} (hinner : ∀ node ∈ inner, good node) {roots : List Node}
    (hroots : ∀ node ∈ roots, good node) : ∀ node ∈ closeAll frames inner roots, good node := by
  induction frames generalizing inner with
  | nil =>
    intro node hnode
    rcases List.mem_append.mp hnode with hnode | hnode
    · exact hinner node (Option.mem_toList.mp hnode)
    · exact hroots node hnode
  | cons f fs ih =>
    rw [closeAll]
    apply ih (fun g hg => hframes g (by simp [hg]))
    intro node hnode
    have hf : f.Good holds good := hframes f (by simp)
    cases inner with
    | none =>
      obtain rfl := Option.some.inj hnode
      exact hf.toNode hclose none
    | some child =>
      obtain rfl := Option.some.inj hnode
      exact (hf.add (hinner child rfl)).toNode hclose none

end Nest

/-- What the pieces have and closing keeps, the nodes of the tree have. -/
theorem Tree.ofTokens_good (hclose : Closes holds good) {tokens : List Token}
    (hfits : ∀ piece ∈ Piece.ofTokens tokens, piece.Fits holds good) :
    ∀ node ∈ (Tree.ofTokens tokens).nodes, good node := by
  have hgood := Nest.Good.empty.run hclose hfits
  intro node hnode
  exact Nest.closeAll_good hclose hgood.frames (by simp) hgood.roots node (List.mem_reverse.mp hnode)

end Keeping

/-! ### What removing blanks keeps

Removing blanks drops nodes and collapses texts, and does so in the children of a node before the node is put
together again. So a property of nodes holds throughout what is left if collapsing a text keeps it, and so
does putting a node together. -/

/-- A property that the children of a node share, and that the node keeps if its children do. -/
structure Outlasts (good : Node → Prop) : Prop where
  element : ∀ {name attrs children selfClosing spans}, good (.element name attrs children selfClosing spans) →
    (∀ node ∈ children, good node) ∧ ((∀ node ∈ removeBlanks children, good node) →
      good (.element name attrs (removeBlanks children) selfClosing spans))
  text : ∀ {value tokens span}, good (.text value tokens span) →
    good (.text (collapseBlanks value) (tokens.map Token.collapseBlanks) span)
  block : ∀ {name parameters children spans}, good (.block name parameters children spans) →
    (∀ node ∈ children, good node) ∧ ((∀ node ∈ removeBlanks children, good node) →
      good (.block name parameters (removeBlanks children) spans))

namespace Outlasts

variable {good : Node → Prop}

mutual

theorem node (h : Outlasts good) {n kept : Node} (hn : good n) (hkept : n.removeBlanks = some kept) :
    good kept := by
  match n with
  | .element name attrs children selfClosing spans =>
    simp only [Node.removeBlanks, Option.some.injEq] at hkept
    subst hkept
    obtain ⟨hchildren, helement⟩ := h.element hn
    split
    · exact hn
    · exact helement (h.nodes hchildren)
  | .text value tokens span =>
    rw [Node.removeBlanks] at hkept
    split at hkept
    · cases hkept
    · cases hkept
      exact h.text hn
  | .comment body span =>
    simp only [Node.removeBlanks, Option.some.injEq] at hkept
    subst hkept
    exact hn
  | .block name parameters children spans =>
    simp only [Node.removeBlanks, Option.some.injEq] at hkept
    subst hkept
    obtain ⟨hchildren, hblock⟩ := h.block hn
    exact hblock (h.nodes hchildren)

theorem nodes (h : Outlasts good) {ns : List Node} (hns : ∀ n ∈ ns, good n) :
    ∀ n ∈ removeBlanks ns, good n := by
  match ns with
  | [] =>
    rw [removeBlanks]
    exact hns
  | n :: rest =>
    obtain ⟨hn, hrest⟩ := List.forall_mem_cons.mp hns
    rw [removeBlanks]
    refine List.forall_mem_append.mpr ⟨fun kept hkept => ?_, h.nodes hrest⟩
    exact h.node hn (Option.mem_toList.mp hkept)

end

end Outlasts

/-! ### Nesting void elements -/

/-- A container that may have content. -/
def Container.Holds : Container → Prop
  | .element name _ _ => isVoidName name = false
  | .block .. => True

theorem closes_voidsEmpty : Closes Container.Holds Node.VoidsEmpty := by
  intro c hholds children hchildren close
  cases c with
  | element name attrs startTag =>
    have hname : isVoidName name = false := hholds
    refine ⟨?_, voidsEmptyIn_iff.mpr hchildren⟩
    intro hvoid
    rw [hname] at hvoid
    exact absurd hvoid (by decide)
  | block name parameters nameSpan header => exact voidsEmptyIn_iff.mpr hchildren

theorem Piece.fits_voidsEmpty (piece : Piece) : piece.Fits Container.Holds Node.VoidsEmpty := by
  cases piece with
  | startTag name attrs ending span =>
    rw [Piece.Fits]
    split
    · rename_i hopens
      have hname : isVoidName name = false := by simp_all
      exact hname
    · exact ⟨fun _ => rfl, trivial⟩
  | text first rest => exact fun _ _ => trivial
  | endTag | comment | blockOpen | blockClose => trivial

/-- In the tree of a source, void and self-closing elements have no children. -/
theorem Tree.ofText_voidsEmpty (options : ScanOptions) (t : Text) :
    VoidsEmptyIn (Tree.ofText options t).nodes := by
  apply voidsEmptyIn_iff.mpr
  exact Tree.ofTokens_good closes_voidsEmpty fun piece _ => piece.fits_voidsEmpty

/-! ### Removing blanks -/

theorem outlasts_voidsEmpty : Outlasts Node.VoidsEmpty where
  element hnode := by
    refine ⟨voidsEmptyIn_iff.mp hnode.2, fun hkept => ⟨fun hvoid => ?_, voidsEmptyIn_iff.mpr hkept⟩⟩
    rw [hnode.1 hvoid, removeBlanks]
  text _ := trivial
  block hnode := ⟨voidsEmptyIn_iff.mp hnode, voidsEmptyIn_iff.mpr⟩

theorem removeBlanks_voidsEmpty {nodes : List Node} (hnodes : VoidsEmptyIn nodes) :
    VoidsEmptyIn (removeBlanks nodes) :=
  voidsEmptyIn_iff.mpr (outlasts_voidsEmpty.nodes (voidsEmptyIn_iff.mp hnodes))

end Stencil.Markup
