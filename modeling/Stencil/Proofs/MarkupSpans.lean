import Stencil.Proofs.InertBlanks
import Stencil.Proofs.NestedSpans

/-!
# Where markup stands

What the later passes need to know of where nodes stand: everything fits into the source, siblings are in
order, so are the tokens within a text, and what closes a container stands behind what opens it. An element
that takes no content has its start tag for its end tag. Unlike nesting as a whole this outlasts the removal
of blanks.
-/

namespace Stencil.Markup

variable {options : ScanOptions} {size lo hi : Nat}

/-! ### Nodes -/

structure Attr.Fits (size : Nat) (a : Attr) : Prop where
  whole : a.span.Fits size
  name : a.nameSpan.Fits size
  value : ∀ v ∈ a.valueSpan, v.Fits size

theorem StartTagNests.attrs_fit {startTag : Span} {attrs : List Attr} (h : StartTagNests startTag attrs)
    (hstop : startTag.stop.offset ≤ size) : ∀ a ∈ attrs, a.Fits size := by
  intro a ha
  have hparts : InOrder a.span.start.offset a.span.stop.offset (a.nameSpan :: a.valueSpan.toList) :=
    h.parts a ha
  have hwhole : a.span.Fits size :=
    ⟨hparts.le, Nat.le_trans (h.ordered.fits (List.mem_map_of_mem ha)).within hstop⟩
  have hwithin : InOrder a.span.start.offset size (a.nameSpan :: a.valueSpan.toList) :=
    hparts.mono (Nat.le_refl _) hwhole.within
  exact ⟨hwhole, hwithin.fits List.mem_cons_self,
    fun v hv => hwithin.fits (List.mem_cons_of_mem _ (Option.mem_toList.mpr hv))⟩

/-- Where the tags of an element stand. One that takes no content is its start tag, and ends with it. -/
structure ElementSpans.Placed (size : Nat) (isEmpty : Bool) (spans : ElementSpans) : Prop where
  startTag : spans.startTag.Fits size
  closed : isEmpty = false →
    ∃ e, spans.endTag = some e ∧ e.Fits size ∧ spans.startTag.stop.offset ≤ e.start.offset
  empty : isEmpty = true → spans.endTag = some spans.startTag ∧ spans.whole = spans.startTag ∧
    spans.startTag.start.offset < spans.startTag.stop.offset

mutual

/-- What a node holds is placed within a source of this size. -/
def Node.Placed (size : Nat) : Node → Prop
  | .element name attrs children selfClosing spans =>
    (∀ a ∈ attrs, a.Fits size) ∧ spans.Placed size (selfClosing || isVoidName name) ∧
      InOrder 0 size (children.map Node.span) ∧ PlacedIn size children
  | .text _ tokens span => InOrder span.start.offset span.stop.offset (tokens.map Token.span)
  | .comment .. => True
  | .block _ _ children _ => InOrder 0 size (children.map Node.span) ∧ PlacedIn size children

def PlacedIn (size : Nat) : List Node → Prop
  | [] => True
  | node :: rest => node.Placed size ∧ PlacedIn size rest

end

theorem placedIn_iff {nodes : List Node} : PlacedIn size nodes ↔ ∀ node ∈ nodes, node.Placed size := by
  induction nodes with
  | nil => simp [PlacedIn]
  | cons node rest ih => simp [PlacedIn, ih]

/-- Siblings are placed, and stand one behind the other between two offsets. -/
structure Siblings (size lo hi : Nat) (nodes : List Node) : Prop where
  ordered : InOrder lo hi (nodes.map Node.span)
  placed : PlacedIn size nodes

mutual

theorem Node.placed_of_nests : (node : Node) → (∀ n ∈ node.all, n.Nests) → node.span.stop.offset ≤ size →
    node.Placed size
  | .element name attrs children selfClosing spans, h, hsize => by
    obtain ⟨⟨htag, endTag, hend, hwhole, hcontent⟩, hchildren⟩ := List.forall_mem_cons.mp h
    have hstop : endTag.stop.offset ≤ size := by
      have hspan : spans.whole.stop.offset ≤ size := hsize
      rwa [hwhole] at hspan
    by_cases hempty : (selfClosing || isVoidName name) = true
    · rw [if_pos hempty] at hcontent
      obtain ⟨rfl, rfl⟩ := hcontent
      have htagFits : spans.startTag.Fits size := ⟨Nat.le_of_lt htag.nonempty, hstop⟩
      refine ⟨htag.attrs_fit hstop, ⟨htagFits, ?_, fun _ => ⟨hend, hwhole, htag.nonempty⟩⟩,
        Nat.zero_le _, trivial⟩
      intro hfalse
      rw [hempty] at hfalse
      cases hfalse
    · rw [if_neg hempty] at hcontent
      have hbehind : spans.startTag.stop.offset ≤ endTag.start.offset := hcontent.content.le
      have hwithin : endTag.start.offset ≤ size := Nat.le_trans hcontent.close hstop
      have htagStop : spans.startTag.stop.offset ≤ size := Nat.le_trans hbehind hwithin
      have hordered : InOrder 0 size (children.map Node.span) :=
        hcontent.content.mono (Nat.zero_le _) hwithin
      refine ⟨htag.attrs_fit htagStop, ⟨⟨Nat.le_of_lt htag.nonempty, htagStop⟩,
        fun _ => ⟨endTag, hend, ⟨hcontent.close, hstop⟩, hbehind⟩, fun htrue => absurd htrue hempty⟩,
        hordered, placedIn_of_nests children 0 hchildren hordered⟩
  | .text value tokens span, h, _ => h (.text value tokens span) List.mem_cons_self
  | .comment body span, _, _ => trivial
  | .block name parameters children spans, h, hsize => by
    obtain ⟨⟨-, brace, -, hwhole, hcontent⟩, hchildren⟩ := List.forall_mem_cons.mp h
    have hstop : brace.stop.offset ≤ size := by
      have hspan : spans.whole.stop.offset ≤ size := hsize
      rwa [hwhole] at hspan
    have hordered : InOrder 0 size (children.map Node.span) :=
      hcontent.content.mono (Nat.zero_le _) (Nat.le_trans hcontent.close hstop)
    exact ⟨hordered, placedIn_of_nests children 0 hchildren hordered⟩

theorem placedIn_of_nests : (nodes : List Node) → (start : Nat) → (∀ n ∈ allIn nodes, n.Nests) →
    InOrder start size (nodes.map Node.span) → PlacedIn size nodes
  | [], _, _, _ => trivial
  | node :: rest, _, h, hordered => by
    obtain ⟨hnode, hrest⟩ := List.forall_mem_append.mp h
    exact ⟨node.placed_of_nests hnode hordered.2.2.le, placedIn_of_nests rest _ hrest hordered.2.2⟩

end

/-- The nodes of a source that is nested without problems stand one behind the other. -/
theorem Tree.ofText_placed {text : Text} (hproblems : (Tree.ofText options text).diagnostics = []) :
    Siblings text.length 0 text.length (Tree.ofText options text).nodes := by
  have hforest := Tree.ofText_forest hproblems
  exact ⟨hforest.ordered, placedIn_of_nests _ 0 hforest.nested hforest.ordered⟩

/-! ### Removing blanks -/

theorem Token.span_collapseBlanks (t : Token) : t.collapseBlanks.span = t.span := by
  rw [Token.collapseBlanks]
  split <;> rfl

theorem Node.span_removeBlanks {node kept : Node} (hkept : node.removeBlanks = some kept) :
    kept.span = node.span := by
  cases node with
  | text value tokens span =>
    rw [Node.removeBlanks] at hkept
    split at hkept
    · cases hkept
    · cases hkept
      rfl
  | _ =>
    simp only [Node.removeBlanks, Option.some.injEq] at hkept
    subst hkept
    rfl

theorem map_span_removeBlanks (nodes : List Node) :
    ((removeBlanks nodes).map Node.span).Sublist (nodes.map Node.span) := by
  induction nodes with
  | nil => exact List.Sublist.slnil
  | cons node rest ih =>
    rw [Markup.removeBlanks]
    cases hkept : node.removeBlanks with
    | none => exact ih.cons _
    | some kept =>
      rw [Option.toList_some, List.singleton_append, List.map_cons, List.map_cons,
        Node.span_removeBlanks hkept]
      exact ih.cons_cons _

theorem outlasts_placed : Outlasts (Node.Placed size) where
  element hnode := by
    obtain ⟨hattrs, hspans, hordered, hchildren⟩ := hnode
    refine ⟨placedIn_iff.mp hchildren, fun hkept => ⟨hattrs, hspans, ?_, placedIn_iff.mpr hkept⟩⟩
    exact hordered.sublist (map_span_removeBlanks _)
  text {value tokens span} hnode := by
    have htokens : (tokens.map Token.collapseBlanks).map Token.span = tokens.map Token.span := by
      rw [List.map_map]
      exact List.map_congr_left fun t _ => t.span_collapseBlanks
    rw [Node.Placed, htokens]
    exact hnode
  block hnode := by
    refine ⟨placedIn_iff.mp hnode.2, fun hkept => ⟨?_, placedIn_iff.mpr hkept⟩⟩
    exact hnode.1.sublist (map_span_removeBlanks _)

theorem Siblings.removeBlanks {nodes : List Node} (h : Siblings size lo hi nodes) :
    Siblings size lo hi (removeBlanks nodes) :=
  ⟨h.ordered.sublist (map_span_removeBlanks nodes),
    placedIn_iff.mpr (outlasts_placed.nodes (placedIn_iff.mp h.placed))⟩

end Stencil.Markup
