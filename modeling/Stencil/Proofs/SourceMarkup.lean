import Stencil.Proofs.Names

/-!
# Markup that comes from a source

Not every markup tree is that of a source. In one that is, blocks have the names of control flow, an
attribute without a value has the empty one, and the text of an interpolation is part of the text around it,
so that a text with an interpolation in it is never blank. Reading problems do not matter for this, and
removing blanks keeps it.
-/

namespace Stencil.Markup

mutual

/-- What is known of a node that was read from a source. -/
def Node.FromSource : Node → Prop
  | .element _ attrs children _ _ =>
    (∀ a ∈ attrs, a.hasValue = false → a.value = []) ∧ FromSourceIn children
  | .text value tokens _ => ∀ t ∈ tokens, ∀ e, t.lexeme = .interpolation e → (0x7B : UInt8) ∈ value
  | .comment .. => True
  | .block name _ children _ => IsBlockName name ∧ FromSourceIn children

/-- What is known of nodes that were read from a source. -/
def FromSourceIn : List Node → Prop
  | [] => True
  | node :: rest => node.FromSource ∧ FromSourceIn rest

end

theorem fromSourceIn_iff {nodes : List Node} : FromSourceIn nodes ↔ ∀ node ∈ nodes, node.FromSource := by
  induction nodes with
  | nil => simp [FromSourceIn]
  | cons node rest ih => simp [FromSourceIn, ih]

/-! ### Reading -/

def Container.FromSource : Container → Prop
  | .element _ attrs _ => ∀ a ∈ attrs, a.hasValue = false → a.value = []
  | .block name _ _ _ => IsBlockName name

theorem closes_fromSource : Closes Container.FromSource Node.FromSource := by
  intro c hc children hchildren close
  cases c with
  | element name attrs startTag => exact ⟨hc, fromSourceIn_iff.mpr hchildren⟩
  | block name parameters nameSpan header => exact ⟨hc, fromSourceIn_iff.mpr hchildren⟩

theorem Piece.takeAttrs_valueless (tokens : List Token) :
    ∀ a ∈ (takeAttrs tokens).1, a.hasValue = false → a.value = [] := by
  fun_induction takeAttrs tokens with
  | case1 _ _ _ _ _ _ _ _ _ found ih
  | case2 _ _ _ _ _ _ _ _ found ih
  | case3 _ _ _ _ _ _ _ found ih
  | case4 _ _ _ _ _ _ _ _ found ih
  | case5 _ _ _ _ _ found ih => exact List.forall_mem_cons.mpr ⟨by rintro ⟨⟩, ih⟩
  | case6 _ _ _ _ _ _ _ _ found ih => exact List.forall_mem_cons.mpr ⟨fun _ => rfl, ih⟩
  | case7 => simp

theorem brace_mem_content {tokens : List Token} {t : Token} (ht : t ∈ tokens) {e : Text}
    (he : t.lexeme = .interpolation e) :
    (0x7B : UInt8) ∈ tokens.flatMap fun token => token.lexeme.content := by
  refine List.mem_flatMap.mpr ⟨t, ht, ?_⟩
  rw [he]
  exact List.mem_cons_self

theorem Tree.ofText_fromSource (options : ScanOptions) (t : Text) :
    FromSourceIn (Tree.ofText options t).nodes := by
  apply fromSourceIn_iff.mpr
  refine Tree.ofTokens_good closes_fromSource fun piece hpiece => ?_
  have hfrom := Piece.isFrom_of_mem_gather piece hpiece
  cases piece with
  | startTag name attrs ending span =>
    obtain ⟨-, others, -, rfl⟩ := hfrom
    rw [Piece.Fits]
    split
    · exact Piece.takeAttrs_valueless others
    · exact ⟨Piece.takeAttrs_valueless others, trivial⟩
  | text first rest => exact fun nest span token htoken e he => brace_mem_content htoken he
  | blockOpen name parameters nameSpan span =>
    obtain ⟨token, htoken, hlexeme⟩ := hfrom
    have hname := TokenStream.readFrom_named _ List.suffix_rfl token htoken
    rwa [hlexeme] at hname
  | endTag | comment | blockClose => trivial

/-! ### Removing blanks -/

theorem brace_mem_collapseBlanks {t : Text} (ht : (0x7B : UInt8) ∈ t) :
    (0x7B : UInt8) ∈ collapseBlanks t := by
  have hglyph : Glyph.ascii 0x7B ∈ collapseBlanksAfter .none t.glyphs :=
    mem_collapseBlanksAfter (Text.ascii_mem_glyphs (by decide) ht) (by decide) .none
  exact List.mem_flatMap.mpr ⟨_, hglyph, List.mem_singleton.mpr rfl⟩

theorem outlasts_fromSource : Outlasts Node.FromSource where
  element hnode := ⟨fromSourceIn_iff.mp hnode.2, fun hkept => ⟨hnode.1, fromSourceIn_iff.mpr hkept⟩⟩
  text hnode := by
    refine List.forall_mem_map.mpr fun t ht e he => ?_
    have hsame : t.lexeme = .interpolation e := by
      rw [Token.collapseBlanks] at he
      split at he
      · cases he
      · exact he
    exact brace_mem_collapseBlanks (hnode t ht e hsame)
  block hnode := ⟨fromSourceIn_iff.mp hnode.2, fun hkept => ⟨hnode.1, fromSourceIn_iff.mpr hkept⟩⟩

theorem removeBlanks_fromSource {nodes : List Node} (hnodes : FromSourceIn nodes) :
    FromSourceIn (removeBlanks nodes) :=
  fromSourceIn_iff.mpr (outlasts_fromSource.nodes (fromSourceIn_iff.mp hnodes))

/-- A blank text has no interpolation in it. -/
theorem not_interpolation_of_isBlank {value : Text} {tokens : List Token} {span : Span}
    (hnode : (Node.text value tokens span).FromSource) (hblank : value.isBlank = true) :
    ∀ t ∈ tokens, ∀ e, t.lexeme ≠ .interpolation e := by
  intro t ht e he
  have hbrace := Text.isBlank_iff.mp hblank _ (Text.ascii_mem_glyphs (by decide) (hnode t ht e he))
  exact absurd hbrace (by decide)

end Stencil.Markup
