import Stencil.Proofs.Rebuilding
import Stencil.Proofs.Words

/-!
# Templates as markup

The markup a template stands for, placed nowhere: what is read when the template is written out. Texts and
expressions that are neighbours are one text of the markup, and an alternate is a block of its own behind
the block it belongs to. The markup of a template that can be written is regular, and turning it back into
a template gives the template that was written.
-/

namespace Stencil.Template

open Markup (Lexeme RegularIn lexemesIn)

def markupAttr (a : Attr) : Markup.Attr :=
  match a.form with
  | .boolean | .other _ => ⟨a.name, [], false, false, .nowhere, .nowhere, none⟩
  | .literal => ⟨a.name, a.value, true, true, .nowhere, .nowhere, some .nowhere⟩
  | .path => ⟨a.name, a.value, true, false, .nowhere, .nowhere, some .nowhere⟩

/-- One more lexeme in front of the text that some nodes begin with, or as a text of its own. -/
def consLexeme (l : Lexeme) : List Markup.Node → List Markup.Node
  | .text value tokens span :: rest => .text (l.content ++ value) (l.token :: tokens) span :: rest
  | nodes => .text l.content [l.token] .nowhere :: nodes

/-- A block that stands nowhere. -/
def markupBlock (name : Text) (parameters : List Text) (children : List Markup.Node) : Markup.Node :=
  .block name (parameters.map fun e => ⟨e, .nowhere⟩) children
    ⟨.nowhere, .nowhere, .nowhere, some .nowhere⟩

mutual

/-- The markup of a node, in front of other nodes. -/
def markup : Node → List Markup.Node → List Markup.Node
  | .element name attrs content selfClosing _, rest =>
    .element name (attrs.map markupAttr) (markupAll content) selfClosing
      ⟨.nowhere, .nowhere, some .nowhere⟩ :: rest
  | .text value _, rest => consLexeme (.text value) rest
  | .expression path _, rest => consLexeme (.interpolation path.toText) rest
  | .conditional test consequent alternate _, rest =>
    markupBlock "if" [test.toText] (markupAll consequent) :: markupAlternate alternate rest
  | .iteration collection key value body _, rest =>
    markupBlock "for" [printLoop collection key value] (markupAll body) :: rest
  | .block .., rest | .hole, rest | .foreign .., rest => rest

/-- The markup of an alternate, in front of other nodes. -/
def markupAlternate : Option (List Node) → List Markup.Node → List Markup.Node
  | none, rest => rest
  | some nodes, rest => markupBlock "else" [] (markupAll nodes) :: rest

def markupAll : List Node → List Markup.Node
  | [] => []
  | node :: rest => markup node (markupAll rest)

end

/-! ### The markup is regular -/

/-- The three forms of an attribute that can be written. Its name and a path are words. -/
theorem isPrintableAttr_cases {a : Attr} (ha : isPrintableAttr a = true) :
    IsWord a.name ∧ (a.form = .boolean ∧ a.value = [] ∨ a.form = .literal ∨
      a.form = .path ∧ IsWord a.value) := by
  rw [isPrintableAttr] at ha
  split at ha
  · rename_i hspread
    simp only [Bool.and_eq_true, beq_iff_eq, List.isEmpty_iff] at ha
    exact ⟨isWord_of_isSpread hspread ha.2, .inl ha.1⟩
  · rw [Bool.and_eq_true] at ha
    refine ⟨isWord_of_isAttrName ha.1, ?_⟩
    cases hform : a.form with
    | boolean => simp only [hform, List.isEmpty_iff] at ha; exact .inl ⟨rfl, ha.2⟩
    | literal => exact .inr (.inl rfl)
    | path =>
      simp only [hform] at ha
      obtain ⟨p, hp, hvalue⟩ := exists_path_of_isPathText ha.2
      exact .inr (.inr ⟨rfl, hvalue ▸ isWord_toText hp⟩)
    | other code => simp [hform] at ha

theorem markupAttr_regular (a : Attr) : (markupAttr a).Regular := by
  rw [markupAttr]
  split
  · exact .inl rfl
  · exact .inl rfl
  · exact .inr rfl
  · exact .inr rfl

theorem isPrintableTag_spec {name : Text} (hname : isPrintableTag name = true) :
    isTagName name = true ∧ (Markup.Tag.ofName name).content = .parsable ∧
      (Markup.Tag.ofName name).ignoresFirstLineFeed = false := by
  simp only [isPrintableTag, Bool.and_eq_true, Bool.or_eq_true, beq_iff_eq] at hname
  rcases hname.2 with htag | htag <;> rw [htag] <;> exact ⟨hname.1, rfl, rfl⟩

theorem consLexeme_regular {l : Lexeme} (hcontent : l.content ≠ [])
    (htextual : Markup.Piece.isTextual l.token = true) {nodes : List Markup.Node}
    (hnodes : RegularIn nodes) : RegularIn (consLexeme l nodes) := by
  have hfresh : Markup.startsWithText nodes = false →
      RegularIn (.text l.content [l.token] .nowhere :: nodes) := by
    intro hstart
    refine ⟨⟨hcontent, by simp [Lexeme.token], ?_, rfl⟩, fun _ => hstart, hnodes⟩
    intro t ht
    obtain rfl := List.mem_singleton.mp ht
    exact ⟨htextual, rfl⟩
  cases nodes with
  | nil => exact hfresh rfl
  | cons n rest =>
    cases n with
    | text value tokens span =>
      obtain ⟨⟨_, hvalue, htokens, hspan⟩, hnext, hrest⟩ := hnodes
      refine ⟨⟨by simp [hcontent], by simp [hvalue, Lexeme.token], ?_, hspan⟩, hnext, hrest⟩
      intro t ht
      rcases List.mem_cons.mp ht with rfl | ht
      · exact ⟨htextual, rfl⟩
      · exact htokens t ht
    | element => exact hfresh rfl
    | comment => exact hfresh rfl
    | block => exact hfresh rfl

theorem RegularIn.cons_markupBlock {name : Text} (parameters : List Text)
    {children rest : List Markup.Node} (hchildren : RegularIn children) (hrest : RegularIn rest) :
    RegularIn (markupBlock name parameters children :: rest) := by
  refine ⟨⟨?_, rfl, hchildren⟩, nofun, hrest⟩
  intro p hp
  obtain ⟨e, _, rfl⟩ := List.mem_map.mp hp
  rfl

mutual

theorem markup_regular (node : Node) (hnode : isPrintable node = true) {rest : List Markup.Node}
    (hrest : RegularIn rest) : RegularIn (markup node rest) := by
  match node with
  | .element name attrs content selfClosing spans =>
    simp only [isPrintable, Bool.and_eq_true, Bool.or_eq_true, Bool.not_eq_true'] at hnode
    obtain ⟨⟨⟨⟨htag, _⟩, hvoid⟩, hempty⟩, hcontent⟩ := hnode
    refine ⟨⟨?_, rfl, ?_, ?_, (isPrintableTag_spec htag).2.2, markupAll_regular content hcontent⟩,
      nofun, hrest⟩
    · intro a ha
      obtain ⟨b, _, rfl⟩ := List.mem_map.mp ha
      exact markupAttr_regular b
    · intro hname
      exact hvoid.resolve_left (by simp [hname])
    · rintro rfl
      rw [List.isEmpty_iff.mp (hempty.resolve_left (by decide))]
      rfl
  | .text value span =>
    rw [isPrintable] at hnode
    exact consLexeme_regular (by simpa [Lexeme.content, Lexeme.parts] using hnode) rfl hrest
  | .expression path span =>
    have hcontent : (Lexeme.interpolation path.toText).content ≠ [] :=
      List.cons_ne_nil (0x7B : UInt8) _
    exact consLexeme_regular hcontent rfl hrest
  | .conditional test consequent alternate spans =>
    simp only [isPrintable, Bool.and_eq_true] at hnode
    exact RegularIn.cons_markupBlock _ (markupAll_regular consequent hnode.1.2)
      (markupAlternate_regular alternate hnode.2 hrest)
  | .iteration collection key value body spans =>
    simp only [isPrintable, Bool.and_eq_true] at hnode
    exact RegularIn.cons_markupBlock _ (markupAll_regular body hnode.2) hrest
  | .block .. => cases hnode
  | .hole => cases hnode
  | .foreign .. => cases hnode

theorem markupAlternate_regular (alternate : Option (List Node))
    (halternate : isPrintableAlternate alternate = true) {rest : List Markup.Node}
    (hrest : RegularIn rest) : RegularIn (markupAlternate alternate rest) := by
  match alternate with
  | none => exact hrest
  | some nodes => exact RegularIn.cons_markupBlock _ (markupAll_regular nodes halternate) hrest

theorem markupAll_regular (nodes : List Node) (hnodes : arePrintable nodes = true) :
    RegularIn (markupAll nodes) := by
  match nodes with
  | [] => trivial
  | node :: rest =>
    simp only [arePrintable, Bool.and_eq_true] at hnodes
    exact markup_regular node hnodes.1.1 (markupAll_regular rest hnodes.2)

end

/-! ### The lexemes of the markup -/

theorem lexemesIn_cons (n : Markup.Node) (rest : List Markup.Node) :
    lexemesIn (n :: rest) = n.pieces.flatMap Markup.Piece.lexemes ++ lexemesIn rest := by
  rw [lexemesIn, Markup.piecesIn, List.flatMap_append]
  rfl

theorem lexemesIn_consLexeme (l : Lexeme) (nodes : List Markup.Node) :
    lexemesIn (consLexeme l nodes) = l :: lexemesIn nodes := by
  have hfresh : lexemesIn (.text l.content [l.token] .nowhere :: nodes) = l :: lexemesIn nodes := rfl
  match nodes with
  | [] => exact hfresh
  | .element .. :: _ => exact hfresh
  | .comment .. :: _ => exact hfresh
  | .block .. :: _ => exact hfresh
  | .text value [] span :: rest => rfl
  | .text value (first :: tokens) span :: rest => rfl

theorem lexemesIn_markupBlock (name : Text) (parameters : List Text)
    (children rest : List Markup.Node) :
    lexemesIn (markupBlock name parameters children :: rest) =
      .blockOpenStart name :: (parameters.map Lexeme.blockParameter ++ .blockOpenEnd ::
        (lexemesIn children ++ .blockClose :: lexemesIn rest)) := by
  rw [lexemesIn_cons, markupBlock, Markup.Node.pieces]
  simp [Markup.Piece.lexemes, Markup.Parameter.lexeme, lexemesIn, Function.comp_def]

theorem lexemesIn_selfClosing (name : Text) (attrs : List Markup.Attr)
    (children rest : List Markup.Node) (spans : Markup.ElementSpans) :
    lexemesIn (.element name attrs children true spans :: rest) =
      .tagOpenStart name :: (attrs.flatMap Markup.Attr.lexemes ++ .tagOpenEndVoid ::
        lexemesIn rest) := by
  rw [lexemesIn_cons, Markup.Node.pieces]
  simp [Markup.Piece.lexemes, Markup.StartTagEnd.lexemes]

theorem lexemesIn_container (name : Text) (attrs : List Markup.Attr)
    (children rest : List Markup.Node) (spans : Markup.ElementSpans) :
    lexemesIn (.element name attrs children false spans :: rest) =
      .tagOpenStart name :: (attrs.flatMap Markup.Attr.lexemes ++ .tagOpenEnd ::
        (lexemesIn children ++ .tagClose name :: lexemesIn rest)) := by
  rw [lexemesIn_cons, Markup.Node.pieces]
  simp [Markup.Piece.lexemes, Markup.StartTagEnd.lexemes, lexemesIn]

/-! ### Back to templates -/

theorem Draft.append_assoc (a b c : Draft) : a ++ b ++ c = a ++ (b ++ c) := by
  change Draft.mk (a.nodes ++ b.nodes ++ c.nodes) (a.diagnostics ++ b.diagnostics ++ c.diagnostics) =
    Draft.mk (a.nodes ++ (b.nodes ++ c.nodes)) (a.diagnostics ++ (b.diagnostics ++ c.diagnostics))
  rw [List.append_assoc, List.append_assoc]

theorem nodesOfMarkup_consLexeme (l : Lexeme) (nodes : List Markup.Node) :
    nodesOfMarkup 0 (consLexeme l nodes) = tokenOfMarkup l.token ++ nodesOfMarkup 0 nodes := by
  have hfresh : nodesOfMarkup 0 (.text l.content [l.token] .nowhere :: nodes) =
      tokenOfMarkup l.token ++ nodesOfMarkup 0 nodes := by
    rw [nodesOfMarkup, tokensOfMarkup, tokensOfMarkup, Draft.append_assoc]
    rfl
  cases nodes with
  | nil => exact hfresh
  | cons node rest =>
    cases node with
    | text value tokens span =>
      rw [consLexeme, nodesOfMarkup, tokensOfMarkup, Draft.append_assoc, nodesOfMarkup]
    | element | comment | block => exact hfresh

/-- What comes first, texts and comments aside, does not continue an `if` block. -/
def Unconnected : List Markup.Node → Prop
  | [] => True
  | .element .. :: _ => True
  | .text .. :: rest => Unconnected rest
  | .comment .. :: rest => Unconnected rest
  | .block name _ _ _ :: _ => isConnected name = false

theorem connectedCount_eq_zero {nodes : List Markup.Node} (hnodes : Unconnected nodes)
    (passed : Nat) : connectedCount passed nodes = 0 := by
  induction nodes generalizing passed with
  | nil => rfl
  | cons n rest ih =>
    rw [connectedCount]
    cases n with
    | element => rfl
    | comment => exact ih hnodes _
    | text =>
      split
      · exact ih hnodes _
      · rfl
    | block name parameters children spans =>
      have hname : isConnected name = false := hnodes
      rw [if_neg (by simp [isBetween]), if_neg (by simp [isContinuation, hname])]

theorem alternateOfMarkup?_eq_none {nodes : List Markup.Node} (hnodes : Unconnected nodes) :
    alternateOfMarkup? nodes = none := by
  induction nodes with
  | nil => rw [alternateOfMarkup?]
  | cons n rest ih =>
    cases n with
    | element => rw [alternateOfMarkup?]
    | comment =>
      rw [alternateOfMarkup?]
      exact ih hnodes
    | text =>
      rw [alternateOfMarkup?]
      split
      · exact ih hnodes
      · rfl
    | block name parameters children spans =>
      have hname : isConnected name = false := hnodes
      rw [alternateOfMarkup?, if_neg (by simp [hname])]

theorem unconnected_markup (node : Node) {rest : List Markup.Node} (hrest : Unconnected rest) :
    Unconnected (markup node rest) := by
  have hlexeme : ∀ l, Unconnected (consLexeme l rest) := by
    intro l
    match rest with
    | [] => exact hrest
    | .text .. :: _ => exact hrest
    | .element .. :: _ => exact hrest
    | .comment .. :: _ => exact hrest
    | .block .. :: _ => exact hrest
  cases node with
  | element => trivial
  | text value span => exact hlexeme (.text value)
  | expression path span => exact hlexeme (.interpolation path.toText)
  | conditional =>
    change isConnected "if" = false
    decide
  | iteration =>
    change isConnected "for" = false
    decide
  | block => exact hrest
  | hole => exact hrest
  | foreign => exact hrest

theorem unconnected_markupAll (nodes : List Node) : Unconnected (markupAll nodes) := by
  induction nodes with
  | nil => trivial
  | cons node rest ih => exact unconnected_markup node ih

/-- An alternate is found behind the block it belongs to, and nothing else is. -/
theorem connected_markupAlternate (alternate : Option (List Node)) {rest : List Markup.Node}
    (hrest : Unconnected rest) :
    nodesOfMarkup (connectedCount 0 (markupAlternate alternate rest))
        (markupAlternate alternate rest) = nodesOfMarkup 0 rest ∧
      elseProblems true ((markupAlternate alternate rest).take
        (connectedCount 0 (markupAlternate alternate rest))) = [] ∧
      (alternateOfMarkup? (markupAlternate alternate rest)).map Alternate.content =
        alternate.map fun nodes => nodesOfMarkup 0 (markupAll nodes) := by
  cases alternate with
  | none =>
    rw [markupAlternate, connectedCount_eq_zero hrest, alternateOfMarkup?_eq_none hrest]
    exact ⟨rfl, rfl, rfl⟩
  | some nodes =>
    have hcount : connectedCount 0 (markupAlternate (some nodes) rest) = 1 := by
      rw [markupAlternate, markupBlock, connectedCount, if_neg (by simp [isBetween]),
        if_pos (by simp [isContinuation]; decide), connectedCount_eq_zero hrest]
    rw [hcount, markupAlternate, markupBlock, nodesOfMarkup, alternateOfMarkup?,
      if_pos (by decide)]
    exact ⟨rfl, rfl, rfl⟩

theorem consMerged_eq_cons {node : Node} {nodes : List Node}
    (hnodes : startsWithText [node] = true → startsWithText nodes = false) :
    consMerged node nodes = node :: nodes := by
  cases node with
  | text value span =>
    cases nodes with
    | nil => rfl
    | cons next rest =>
      cases next with
      | text => cases hnodes rfl
      | _ => rfl
  | _ => rfl

theorem startsWithText_unplaced (nodes : List Node) :
    startsWithText (nodes.map Node.unplaced) = startsWithText nodes := by
  cases nodes with
  | nil => rfl
  | cons node rest => cases node <;> rfl

/-- There is nothing to join in a template that can be written. -/
theorem mergeTexts_printable {nodes : List Node} (hnodes : arePrintable nodes = true) :
    mergeTexts (nodes.map Node.unplaced) = nodes.map Node.unplaced := by
  induction nodes with
  | nil => rfl
  | cons node rest ih =>
    simp only [arePrintable, Bool.and_eq_true, Bool.not_eq_true'] at hnodes
    have hmerge : mergeTexts ((node :: rest).map Node.unplaced) =
        consMerged node.unplaced (mergeTexts (rest.map Node.unplaced)) := rfl
    rw [hmerge, ih hnodes.2, consMerged_eq_cons, List.map_cons]
    intro htext
    have hnode : startsWithText [node] = true := by
      rwa [← startsWithText_unplaced [node]]
    have hseparate := hnodes.1.2
    rw [hnode, Bool.true_and] at hseparate
    rwa [startsWithText_unplaced]

/-- A draft that is, places aside, made of the given nodes without problems. -/
def Draft.Is (d : Draft) (nodes : List Node) : Prop :=
  d.nodes.map Node.unplaced = nodes.map Node.unplaced ∧ d.diagnostics = []

theorem Draft.Is.append {a b : Draft} {first others : List Node} (ha : a.Is first)
    (hb : b.Is others) : (a ++ b).Is (first ++ others) := by
  change (a.nodes ++ b.nodes).map Node.unplaced = _ ∧ a.diagnostics ++ b.diagnostics = []
  rw [List.map_append, ha.1, hb.1, ha.2, hb.2, List.map_append]
  exact ⟨rfl, rfl⟩

theorem Draft.Is.mergeTexts {d : Draft} {nodes : List Node} (hd : d.Is nodes)
    (hnodes : arePrintable nodes = true) :
    unplacedAll (mergeTexts d.nodes) = unplacedAll nodes := by
  rw [unplacedAll_eq_map, unplacedAll_eq_map, mergeTexts_unplaced, hd.1, mergeTexts_printable hnodes]

theorem spreadOfMarkup_markupAttr {name : Text} {spans : AttrSpans}
    (hpath : isPathText (Attribute.spreadSource name) = true) :
    ∃ b, spreadOfMarkup (markupAttr ⟨name, .boolean, [], spans⟩) = .ok b ∧
      b.unplaced = Attr.unplaced ⟨name, .boolean, [], spans⟩ := by
  obtain ⟨p, hp, hsource⟩ := exists_path_of_isPathText hpath
  have hblank : (Attribute.spreadSource name).isBlank = false := by
    rw [← hsource]
    exact (isWord_toText hp).not_isBlank
  have hparse : Path.parse (Attribute.spreadSource name) = .ok p := by
    rw [← hsource]
    exact parse_toText hp
  simp only [spreadOfMarkup, markupAttr, hparse, hblank]
  exact ⟨_, rfl, rfl⟩

/-- An attribute that can be written is read back. -/
theorem attrOfMarkup_markupAttr {a : Attr} (ha : isPrintableAttr a = true) :
    ∃ b, attrOfMarkup (markupAttr a) = .ok b ∧ b.unplaced = a.unplaced := by
  obtain ⟨name, form, value, spans⟩ := a
  have hname : (markupAttr ⟨name, form, value, spans⟩).name = name := by cases form <;> rfl
  rw [attrOfMarkup, hname]
  rw [isPrintableAttr] at ha
  split
  · rename_i hspread
    rw [if_pos hspread] at ha
    simp only [Bool.and_eq_true, beq_iff_eq, List.isEmpty_iff] at ha
    obtain ⟨⟨rfl, rfl⟩, hpath⟩ := ha
    exact spreadOfMarkup_markupAttr hpath
  · rename_i hspread
    rw [if_neg hspread, Bool.and_eq_true] at ha
    cases form with
    | boolean =>
      obtain rfl : value = [] := List.isEmpty_iff.mp ha.2
      exact ⟨_, rfl, rfl⟩
    | literal =>
      have hneeds : needsPath (markupAttr ⟨name, .literal, value, spans⟩) =
          (Attribute.isEvent name && !value.isBlank) := rfl
      cases hcase : (Attribute.isEvent name && !value.isBlank) with
      | false =>
        simp only [hneeds, hcase]
        exact ⟨_, rfl, rfl⟩
      | true =>
        have hevent : Attribute.isEvent name = true := (Bool.and_eq_true_iff.mp hcase).1
        have hblank : value.isBlank = false := by simpa using (Bool.and_eq_true_iff.mp hcase).2
        have hok : (Path.parse value).isOk = true := by simpa [hevent, hblank] using ha.2
        cases hparse : Path.parse value with
        | error e => simp [hparse, Except.isOk, Except.toBool] at hok
        | ok p =>
          have hvalue : (markupAttr ⟨name, .literal, value, spans⟩).value = value := rfl
          rw [hneeds, hcase, if_pos rfl, hvalue, hparse]
          exact ⟨_, rfl, rfl⟩
    | path =>
      obtain ⟨p, hp, rfl⟩ := exists_path_of_isPathText ha.2
      have hneeds : needsPath (markupAttr ⟨name, .path, p.toText, spans⟩) = true := rfl
      have hvalue : (markupAttr ⟨name, .path, p.toText, spans⟩).value = p.toText := rfl
      rw [hneeds, if_pos rfl, hvalue, parse_toText hp]
      exact ⟨_, rfl, rfl⟩
    | other code => exact absurd ha.2 (by simp)

theorem attrsOfMarkup_markupAttr {attrs : List Attr}
    (hattrs : ∀ a ∈ attrs, isPrintableAttr a = true) :
    (attrsOfMarkup (attrs.map markupAttr)).1.map Attr.unplaced = attrs.map Attr.unplaced ∧
      (attrsOfMarkup (attrs.map markupAttr)).2 = [] := by
  induction attrs with
  | nil => exact ⟨rfl, rfl⟩
  | cons a rest ih =>
    obtain ⟨b, hb, hplaces⟩ := attrOfMarkup_markupAttr (hattrs a (by simp))
    obtain ⟨hrest, hproblems⟩ := ih fun c hc => hattrs c (by simp [hc])
    simp only [List.map_cons, attrsOfMarkup, hb, hrest, hproblems, hplaces, and_self]

theorem tokenOfMarkup_text {value : Text} (hvalue : value ≠ []) (span : Option Span) :
    (tokenOfMarkup (Lexeme.text value).token).Is [.text value span] := by
  have hcontent : (Lexeme.text value).content = value := by simp [Lexeme.content, Lexeme.parts]
  have htoken : tokenOfMarkup (Lexeme.text value).token =
      .ofNode (.text (Lexeme.text value).content (some .nowhere)) := by
    change (if (Lexeme.text value).content.isEmpty then _ else _) = _
    rw [if_neg (by simp [hcontent, hvalue])]
    rfl
  rw [htoken, hcontent]
  exact ⟨rfl, rfl⟩

theorem tokenOfMarkup_interpolation {path : Path} (hpath : isPlainPath path = true)
    (span : Option Span) :
    (tokenOfMarkup (Lexeme.interpolation path.toText).token).Is [.expression path span] := by
  have htoken : tokenOfMarkup (Lexeme.interpolation path.toText).token =
      .ofNode (.expression path (some .nowhere)) := by
    change expressionOfMarkup path.toText .nowhere = _
    rw [expressionOfMarkup, if_neg (by simp [(isWord_toText hpath).not_isBlank]),
      parse_toText hpath]
  rw [htoken]
  exact ⟨rfl, rfl⟩

theorem elementOfMarkup_is {name : Text} {attrs : List Attr} {content : List Node} {draft : Draft}
    {selfClosing : Bool} (spans : ElementSpans) (hattrs : ∀ a ∈ attrs, isPrintableAttr a = true)
    (hvoid : Markup.isVoidName name = true → selfClosing = true)
    (hcontent : arePrintable content = true) (hdraft : draft.Is content)
    (places : Markup.ElementSpans) :
    (elementOfMarkup name (attrs.map markupAttr) draft selfClosing places).Is
      [.element name attrs content selfClosing spans] := by
  obtain ⟨hread, hproblems⟩ := attrsOfMarkup_markupAttr hattrs
  have hclosing : (selfClosing || Markup.isVoidName name) = selfClosing := by
    cases selfClosing with
    | true => rfl
    | false =>
      cases hname : Markup.isVoidName name with
      | false => rfl
      | true => cases hvoid hname
  refine ⟨?_, ?_⟩
  · simp only [elementOfMarkup, List.map_cons, List.map_nil, Node.unplaced, hread, hclosing,
      hdraft.mergeTexts hcontent]
  · simp only [elementOfMarkup, hproblems, hdraft.2, List.append_nil]

theorem iterationOfMarkup_is {collection : Path} {key value : Text} {body : List Node}
    {draft : Draft} (spans : IterationSpans) (hcollection : isPlainPath collection = true)
    (hkey : isVariableName key = true) (hvalue : isVariableName value = true) (hne : key ≠ value)
    (hbody : arePrintable body = true) (hdraft : draft.Is body) :
    (iterationOfMarkup (loopOfMarkup [⟨printLoop collection key value, .nowhere⟩] .nowhere) draft
      .nowhere).Is [.iteration collection key value body spans] := by
  have hloop : loopOfMarkup [⟨printLoop collection key value, .nowhere⟩] .nowhere =
      (some ⟨collection, key, value⟩, []) := by
    rw [loopOfMarkup, loopOfText_printLoop hcollection hkey hvalue hne]
    rfl
  have hname : ∀ default name, isVariableName name = true → nameOr default name = name := by
    intro default name h
    rw [nameOr, if_neg (by simp [(isWord_of_isVariableName h).ne_nil])]
  rw [hloop]
  refine ⟨?_, ?_⟩
  · simp only [iterationOfMarkup, List.map_cons, List.map_nil, Node.unplaced, hname _ _ hkey,
      hname _ _ hvalue, hdraft.mergeTexts hbody]
  · simp only [iterationOfMarkup, hdraft.2, List.append_nil]

theorem conditionalOfMarkup_is {test : Path} {consequent : List Node}
    {alternate : Option (List Node)} {draft : Draft} {read : Option Alternate}
    (spans : ConditionalSpans) (htest : isPlainPath test = true)
    (hconsequent : arePrintable consequent = true)
    (halternate : isPrintableAlternate alternate = true) (hdraft : draft.Is consequent)
    (hread : ∀ nodes ∈ alternate, ∃ a, read = some a ∧ a.content.Is nodes)
    (hnone : alternate = none → read = none) :
    (conditionalOfMarkup (testOfMarkup [⟨test.toText, .nowhere⟩] .nowhere) [] draft read .nowhere).Is
      [.conditional test consequent alternate spans] := by
  have hpath : testOfMarkup [⟨test.toText, .nowhere⟩] .nowhere = (some test, []) := by
    rw [testOfMarkup, parse_toText htest]
    rfl
  rw [hpath]
  cases alternate with
  | none =>
    rw [hnone rfl]
    refine ⟨?_, ?_⟩
    · simp only [conditionalOfMarkup, List.map_cons, List.map_nil, Node.unplaced,
        hdraft.mergeTexts hconsequent, Option.map_none, unplacedAlternate]
    · simp only [conditionalOfMarkup, hdraft.2, Option.map_none, Option.getD_none, List.append_nil]
  | some nodes =>
    obtain ⟨a, rfl, ha⟩ := hread nodes rfl
    refine ⟨?_, ?_⟩
    · simp only [conditionalOfMarkup, List.map_cons, List.map_nil, Node.unplaced,
        hdraft.mergeTexts hconsequent, Option.map_some, unplacedAlternate, ha.mergeTexts halternate]
    · simp only [conditionalOfMarkup, hdraft.2, ha.2, Option.map_some, Option.getD_some,
        List.append_nil]

mutual

/-- The markup of a node is turned back into the node, whatever follows it. -/
theorem nodesOfMarkup_markup (node : Node) (hnode : isPrintable node = true)
    {rest : List Markup.Node} (hrest : Unconnected rest) {others : List Node}
    (hothers : (nodesOfMarkup 0 rest).Is others) :
    (nodesOfMarkup 0 (markup node rest)).Is (node :: others) := by
  match node with
  | .element name attrs content selfClosing spans =>
    simp only [isPrintable, Bool.and_eq_true, Bool.or_eq_true, Bool.not_eq_true',
      List.all_eq_true] at hnode
    obtain ⟨⟨⟨⟨_, hattrs⟩, hvoid⟩, _⟩, hcontent⟩ := hnode
    rw [markup, nodesOfMarkup]
    exact (elementOfMarkup_is spans hattrs (fun hname => hvoid.resolve_left (by simp [hname]))
      hcontent (nodesOfMarkup_markupAll content hcontent) _).append hothers
  | .text value span =>
    rw [isPrintable] at hnode
    rw [markup, nodesOfMarkup_consLexeme]
    exact (tokenOfMarkup_text (by simpa using hnode) span).append hothers
  | .expression path span =>
    rw [isPrintable] at hnode
    rw [markup, nodesOfMarkup_consLexeme]
    exact (tokenOfMarkup_interpolation hnode span).append hothers
  | .conditional test consequent alternate spans =>
    simp only [isPrintable, Bool.and_eq_true] at hnode
    obtain ⟨⟨htest, hconsequent⟩, halternate⟩ := hnode
    obtain ⟨hskip, helses, hfound⟩ := connected_markupAlternate alternate hrest
    rw [markup, markupBlock, nodesOfMarkup, if_pos (by decide)]
    dsimp only
    -- The alternate is read together with its block, and passed over when reading goes on behind it.
    rw [hskip, helses]
    refine (conditionalOfMarkup_is spans htest hconsequent halternate
      (nodesOfMarkup_markupAll consequent hconsequent) ?_ ?_).append hothers
    · intro nodes hnodes
      obtain rfl := hnodes
      obtain ⟨a, ha, hcontent⟩ := Option.map_eq_some_iff.mp hfound
      exact ⟨a, ha, hcontent ▸ nodesOfMarkup_markupAlternate _ halternate nodes rfl⟩
    · rintro rfl
      exact Option.map_eq_none_iff.mp hfound
  | .iteration collection key value body spans =>
    simp only [isPrintable, Bool.and_eq_true, bne_iff_ne] at hnode
    obtain ⟨⟨⟨⟨hcollection, hkey⟩, hvalue⟩, hne⟩, hbody⟩ := hnode
    rw [markup, markupBlock, nodesOfMarkup, if_neg (by decide), if_pos (by decide)]
    exact (iterationOfMarkup_is spans hcollection hkey hvalue hne hbody
      (nodesOfMarkup_markupAll body hbody)).append hothers
  | .block .. => cases hnode
  | .hole => cases hnode
  | .foreign .. => cases hnode

theorem nodesOfMarkup_markupAlternate (alternate : Option (List Node))
    (halternate : isPrintableAlternate alternate = true) :
    ∀ nodes ∈ alternate, (nodesOfMarkup 0 (markupAll nodes)).Is nodes := by
  match alternate with
  | none => simp
  | some nodes =>
    intro others hothers
    obtain rfl : nodes = others := Option.some.inj hothers
    exact nodesOfMarkup_markupAll nodes halternate

theorem nodesOfMarkup_markupAll (nodes : List Node) (hnodes : arePrintable nodes = true) :
    (nodesOfMarkup 0 (markupAll nodes)).Is nodes := by
  match nodes with
  | [] =>
    rw [markupAll, nodesOfMarkup]
    exact ⟨rfl, rfl⟩
  | node :: rest =>
    simp only [arePrintable, Bool.and_eq_true] at hnodes
    exact nodesOfMarkup_markup node hnodes.1.1 (unconnected_markupAll rest)
      (nodesOfMarkup_markupAll rest hnodes.2)

end

/-- The markup of a template is turned back into the template. -/
theorem ofMarkup_markupAll {children : List Node} (hchildren : arePrintable children = true)
    (span : Option Span) :
    (ofMarkup (markupAll children)).root.unplaced = (Node.block children span).unplaced ∧
      (ofMarkup (markupAll children)).diagnostics = [] := by
  have hdraft := nodesOfMarkup_markupAll children hchildren
  refine ⟨?_, hdraft.2⟩
  simp only [ofMarkup, Node.unplaced, hdraft.mergeTexts hchildren]

end Stencil.Template
