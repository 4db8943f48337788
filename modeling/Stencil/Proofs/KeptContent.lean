import Mathlib.Data.List.Forall2
import Stencil.Proofs.Validity

/-!
# Templates keep the content of their markup

A walk through a tree in document order meets elements, tests, loops, interpolations and texts. For markup
the walk passes over comments, and over the blank texts between an `if` block and its `else` block.
`content_kept` says that the template of a source that is accepted has the walk of its markup: nothing is
lost, nothing comes twice, and each path and loop means what is written there. Marks for the ends of
elements and blocks are part of the walk, so that the nesting is the same too.

A text may come in several pieces on either side. Walks are therefore compared with adjacent texts joined,
and since what follows may begin with a text, two walks count as the same only if they are so whatever
follows them.
-/

namespace Stencil.Template

/-! ### Walks -/

/-- What a walk meets, where attributes, paths and loops are as the tree has them. -/
inductive Item (attr path loop : Type) where
  | element (name : Text) (attrs : List attr)
  | test (path : path)
  | loop (loop : loop)
  | expression (path : path)
  | text (value : Text)
  /-- The branch of a conditional that is not its first. -/
  | otherwise
  /-- The end of an element, of a branch or of the body of a loop. -/
  | leave

/-- An item of markup: attributes, paths and loops as they are written. -/
abbrev WrittenItem := Item Markup.Attr Text Text

/-- An item of a template. -/
abbrev MeantItem := Item Attr Path Loop

/-- A text in front of a walk, joined with the text that the walk begins with; an empty text is nothing. -/
def consText {attr path loop : Type} (value : Text) :
    List (Item attr path loop) → List (Item attr path loop)
  | .text next :: rest => .text (value ++ next) :: rest
  | items => if value.isEmpty then items else .text value :: items

def consItem {attr path loop : Type} :
    Item attr path loop → List (Item attr path loop) → List (Item attr path loop)
  | .text value, items => consText value items
  | item, items => item :: items

/-- A walk with its adjacent texts joined, and what follows it. -/
def joinedOnto {attr path loop : Type} (items tail : List (Item attr path loop)) :
    List (Item attr path loop) :=
  items.foldr consItem tail

/-- A walk with its adjacent texts joined. -/
def joined {attr path loop : Type} (items : List (Item attr path loop)) : List (Item attr path loop) :=
  joinedOnto items []

mutual

def Node.items : Node → List MeantItem
  | .block children _ => itemsIn children
  | .element name attrs content _ _ => .element name attrs :: itemsIn content ++ [.leave]
  | .text value _ => [.text value]
  | .expression path _ => [.expression path]
  | .conditional test consequent alternate _ =>
    .test test :: itemsIn consequent ++ .leave :: itemsInAlternate alternate
  | .iteration collection key value body _ => .loop ⟨collection, key, value⟩ :: itemsIn body ++ [.leave]
  | .hole => []
  | .foreign .. => []

def itemsInAlternate : Option (List Node) → List MeantItem
  | none => []
  | some nodes => .otherwise :: itemsIn nodes ++ [.leave]

/-- The walk through some nodes of a template. -/
def itemsIn : List Node → List MeantItem
  | [] => []
  | n :: rest => n.items ++ itemsIn rest

end

def writtenToken (t : Markup.Token) : WrittenItem :=
  match t.lexeme with
  | .interpolation e => .expression e
  | l => .text l.content

/-- A block is met by its parameters; an `else` block has none. -/
def writtenHeader (name : Text) (parameters : List Markup.Parameter) : List WrittenItem :=
  if name = Text.ofString "if" then parameters.map fun p => .test p.expression
  else if name = Text.ofString "for" then parameters.map fun p => .loop p.expression
  else [.otherwise]

theorem writtenHeader_else (parameters : List Markup.Parameter) :
    writtenHeader (Text.ofString "else") parameters = [.otherwise] := rfl

/-- The first sibling that is neither a comment nor blank is an `else` block. -/
def leadsToElse (nodes : List Markup.Node) : Bool :=
  (nodes.find? fun n => !isBetween n).any isContinuation

/-- A node between siblings is a comment or a blank text between an `if` block and its `else` block. -/
def isGap (before : List Markup.Node) (n : Markup.Node) (rest : List Markup.Node) : Bool :=
  followsIf before && isBetween n && leadsToElse rest

mutual

def writtenItems : Markup.Node → List WrittenItem
  | .element name attrs children _ _ => .element name attrs :: writtenItemsIn [] children ++ [.leave]
  | .text _ tokens _ => tokens.map writtenToken
  | .comment .. => []
  | .block name parameters children _ =>
    writtenHeader name parameters ++ writtenItemsIn [] children ++ [.leave]

/-- The walk through some siblings in markup; `before` are the siblings before them, nearest first. -/
def writtenItemsIn (before : List Markup.Node) : List Markup.Node → List WrittenItem
  | [] => []
  | n :: rest => (if isGap before n rest then [] else writtenItems n) ++ writtenItemsIn (n :: before) rest

end

/-! ### What is written and what is meant -/

/-- An attribute of a template has the name and the value that are written, and its form says how. -/
structure AttrMeans (a : Markup.Attr) (attr : Attr) : Prop where
  name : attr.name = a.name
  value : attr.value = a.value
  form : attr.form =
    if a.hasValue = false then .boolean else if a.quoted = true then .literal else .path

/-- A loop of a template is the one that is said, with the usual names where none are given. -/
def LoopMeans (t : Text) (l : Loop) : Prop :=
  ∃ said, LoopHeader.Says t said ∧
    l = ⟨said.collection, nameOr defaultKeyName said.key, nameOr defaultValueName said.value⟩

inductive Item.Means : WrittenItem → MeantItem → Prop
  | element {name : Text} {attrs : List Markup.Attr} {others : List Attr}
      (hattrs : List.Forall₂ AttrMeans attrs others) : Means (.element name attrs) (.element name others)
  | test {t : Text} {path : Path} (hpath : Path.parse t = .ok path) : Means (.test t) (.test path)
  | loop {t : Text} {l : Loop} (hloop : LoopMeans t l) : Means (.loop t) (.loop l)
  | expression {t : Text} {path : Path} (hpath : Path.parse t = .ok path) :
      Means (.expression t) (.expression path)
  | text {value : Text} : Means (.text value) (.text value)
  | otherwise : Means .otherwise .otherwise
  | leave : Means .leave .leave

/-- Two walks are the same up to how their texts are divided, whatever follows them. -/
def SameWalk (xs : List WrittenItem) (ys : List MeantItem) : Prop :=
  ∀ s t, List.Forall₂ Item.Means s t → List.Forall₂ Item.Means (joinedOnto xs s) (joinedOnto ys t)

theorem consText_means (value : Text) {s : List WrittenItem} {t : List MeantItem}
    (htail : List.Forall₂ Item.Means s t) :
    List.Forall₂ Item.Means (consText value s) (consText value t) := by
  have halone : List.Forall₂ Item.Means (if value.isEmpty then s else .text value :: s)
      (if value.isEmpty then t else .text value :: t) := by
    split
    · exact htail
    · exact .cons .text htail
  cases htail with
  | nil => exact halone
  | cons hitem hrest =>
    cases hitem with
    | text => exact .cons .text hrest
    | _ => exact halone

theorem consItem_means {x : WrittenItem} {y : MeantItem} (hxy : Item.Means x y) {s : List WrittenItem}
    {t : List MeantItem} (htail : List.Forall₂ Item.Means s t) :
    List.Forall₂ Item.Means (consItem x s) (consItem y t) := by
  cases hxy with
  | @text value => exact consText_means value htail
  | element hattrs => exact .cons (.element hattrs) htail
  | test hpath => exact .cons (.test hpath) htail
  | loop hloop => exact .cons (.loop hloop) htail
  | expression hpath => exact .cons (.expression hpath) htail
  | otherwise => exact .cons .otherwise htail
  | leave => exact .cons .leave htail

theorem consText_consText {attr path loop : Type} (first second : Text)
    (items : List (Item attr path loop)) :
    consText first (consText second items) = consText (first ++ second) items := by
  cases items with
  | nil => cases first <;> cases second <;> simp [consText]
  | cons item rest =>
    cases item with
    | text next => simp [consText]
    | _ => cases first <;> cases second <;> simp [consText]

theorem consText_nil {attr path loop : Type} (items : List (Item attr path loop)) :
    consText [] items = items := by
  cases items with
  | nil => rfl
  | cons item rest => cases item <;> rfl

namespace SameWalk

theorem nil : SameWalk [] [] := fun _ _ htail => htail

theorem append {xs xs' : List WrittenItem} {ys ys' : List MeantItem} (h : SameWalk xs ys)
    (h' : SameWalk xs' ys') : SameWalk (xs ++ xs') (ys ++ ys') := by
  intro s t htail
  simp only [joinedOnto, List.foldr_append]
  exact h _ _ (h' s t htail)

theorem cons {x : WrittenItem} {y : MeantItem} (hxy : Item.Means x y) {xs : List WrittenItem}
    {ys : List MeantItem} (h : SameWalk xs ys) : SameWalk (x :: xs) (y :: ys) :=
  fun s t htail => consItem_means hxy (h s t htail)

theorem single {x : WrittenItem} {y : MeantItem} (hxy : Item.Means x y) : SameWalk [x] [y] :=
  cons hxy nil

/-- What stands in an element or a block. -/
theorem enclosed {x : WrittenItem} {y : MeantItem} (hxy : Item.Means x y) {xs : List WrittenItem}
    {ys : List MeantItem} (h : SameWalk xs ys) : SameWalk (x :: xs ++ [.leave]) (y :: ys ++ [.leave]) :=
  (cons hxy h).append (single .leave)

end SameWalk

/-! ### Joining texts -/

theorem joinedOnto_itemsIn_mergeTexts (nodes : List Node) (tail : List MeantItem) :
    joinedOnto (itemsIn (mergeTexts nodes)) tail = joinedOnto (itemsIn nodes) tail := by
  have hcons (n : Node) (ns : List Node) :
      joinedOnto (itemsIn (consMerged n ns)) tail = joinedOnto (itemsIn (n :: ns)) tail := by
    fun_cases consMerged n ns with
    | case1 a s b t rest =>
      simp only [itemsIn, Node.items, joinedOnto, List.cons_append, List.nil_append, List.foldr_cons,
        consItem, consText_consText]
    | case2 => rfl
  induction nodes with
  | nil => rfl
  | cons n rest ih =>
    rw [mergeTexts, List.foldr_cons, ← mergeTexts, hcons]
    simp only [itemsIn, joinedOnto, List.foldr_append]
    exact congrArg (fun items => n.items.foldr consItem items) ih

mutual

/-- In no list of nodes within a node is there an empty text, or one text right after another. -/
def Node.TextsJoined : Node → Prop
  | .block children _ => TextsJoinedIn children
  | .element _ _ content _ _ => TextsJoinedIn content
  | .text value _ => value ≠ []
  | .expression .. => True
  | .conditional _ consequent alternate _ => TextsJoinedIn consequent ∧ TextsJoinedInAlternate alternate
  | .iteration _ _ _ body _ => TextsJoinedIn body
  | .hole => True
  | .foreign .. => True

def TextsJoinedInAlternate : Option (List Node) → Prop
  | none => True
  | some nodes => TextsJoinedIn nodes

def TextsJoinedIn : List Node → Prop
  | [] => True
  | n :: rest =>
    n.TextsJoined ∧ (startsWithText [n] = true → startsWithText rest = false) ∧ TextsJoinedIn rest

end

theorem textsJoinedIn_mergeTexts {nodes : List Node} (hnodes : ∀ n ∈ nodes, n.TextsJoined) :
    TextsJoinedIn (mergeTexts nodes) := by
  have hcons {n : Node} {ns : List Node} (hn : n.TextsJoined) (hns : TextsJoinedIn ns) :
      TextsJoinedIn (consMerged n ns) := by
    fun_cases consMerged n ns with
    | case1 a s b t rest =>
      have ha : a ≠ [] := hn
      refine ⟨?_, hns.2.1, hns.2.2⟩
      intro hjoined
      exact ha (List.append_eq_nil_iff.mp hjoined).1
    | case2 n ns hother =>
      refine ⟨hn, fun htext => ?_, hns⟩
      cases n with
      | text a s =>
        cases ns with
        | nil => rfl
        | cons m rest =>
          cases m with
          | text b t => exact (hother a s b t rest rfl rfl).elim
          | _ => rfl
      | _ => cases htext
  induction nodes with
  | nil => trivial
  | cons n rest ih =>
    obtain ⟨hn, hrest⟩ := List.forall_mem_cons.mp hnodes
    exact hcons hn (ih hrest)

/-! ### Drafts -/

/-- A draft has the given walk, and its nodes are without empty or adjacent texts. -/
structure Draft.Keeps (items : List WrittenItem) (d : Draft) : Prop where
  walk : SameWalk items (itemsIn d.nodes)
  joined : ∀ n ∈ d.nodes, n.TextsJoined

theorem itemsIn_append (nodes others : List Node) :
    itemsIn (nodes ++ others) = itemsIn nodes ++ itemsIn others := by
  induction nodes with
  | nil => rfl
  | cons n rest ih => rw [List.cons_append, itemsIn, itemsIn, ih, List.append_assoc]

namespace Draft.Keeps

variable {items others : List WrittenItem} {d e : Draft}

theorem empty : Keeps [] .empty := ⟨.nil, by simp [Draft.empty]⟩

theorem node {n : Node} {problems : List Diagnostic} (hwalk : SameWalk items n.items)
    (hjoined : n.TextsJoined) : Keeps items ⟨[n], problems⟩ := by
  refine ⟨?_, List.forall_mem_singleton.mpr hjoined⟩
  rw [itemsIn, itemsIn, List.append_nil]
  exact hwalk

theorem append (hd : d.Keeps items) (he : e.Keeps others) : (d ++ e).Keeps (items ++ others) := by
  constructor
  · have hnodes : itemsIn (d ++ e).nodes = itemsIn d.nodes ++ itemsIn e.nodes := itemsIn_append _ _
    rw [hnodes]
    exact hd.walk.append he.walk
  · exact List.forall_mem_append.mpr ⟨hd.joined, he.joined⟩

theorem merged (hd : d.Keeps items) : SameWalk items (itemsIn (mergeTexts d.nodes)) := by
  intro s t htail
  rw [joinedOnto_itemsIn_mergeTexts]
  exact hd.walk s t htail

end Draft.Keeps

theorem attrMeans_of_attrOfMarkup {a : Markup.Attr} (hvalueless : a.hasValue = false → a.value = [])
    {attr : Attr} (hread : attrOfMarkup a = .ok attr) : AttrMeans a attr := by
  cases hspread : Attribute.isSpread a.name with
  | false =>
    obtain ⟨hname, hform, hvalue, -⟩ := attrOfMarkup_eq_ok hspread hread
    refine ⟨hname, hvalue, ?_⟩
    rw [hform, formOf]
    cases a.hasValue <;> rfl
  | true =>
    rw [attrOfMarkup, if_pos hspread] at hread
    obtain ⟨hvalue, hblank, path, hpath⟩ := exists_spreadOfMarkup_iff.mp ⟨attr, hread⟩
    rw [spreadOfMarkup, hvalue, if_neg (by decide)] at hread
    simp only [hpath, hblank, Bool.false_eq_true, if_false, Except.ok.injEq] at hread
    subst hread
    exact ⟨rfl, (hvalueless hvalue).symm, (if_pos hvalue).symm⟩

theorem forall_attrMeans {attrs : List Markup.Attr}
    (hvalueless : ∀ a ∈ attrs, a.hasValue = false → a.value = [])
    (hproblems : (attrsOfMarkup attrs).2 = []) :
    List.Forall₂ AttrMeans attrs (attrsOfMarkup attrs).1 := by
  induction attrs with
  | nil => exact .nil
  | cons a rest ih =>
    obtain ⟨ha, hrest⟩ := List.forall_mem_cons.mp hvalueless
    rw [attrsOfMarkup] at hproblems ⊢
    cases hread : attrOfMarkup a with
    | error d => simp [hread] at hproblems
    | ok attr =>
      rw [hread] at hproblems
      exact .cons (attrMeans_of_attrOfMarkup ha hread) (ih hrest hproblems)

theorem keeps_text (value : Text) (span : Span) :
    (if value.isEmpty then .empty else .ofNode (.text value (some span)) : Draft).Keeps [.text value] := by
  cases value with
  | nil =>
    refine ⟨?_, by simp [Draft.empty]⟩
    intro s t htail
    rw [joinedOnto, List.foldr_cons, List.foldr_nil, consItem, consText_nil]
    exact htail
  | cons b rest => exact .node (.single .text) (List.cons_ne_nil b rest)

theorem tokenOfMarkup_keeps {t : Markup.Token} (hproblems : (tokenOfMarkup t).diagnostics = []) :
    (tokenOfMarkup t).Keeps [writtenToken t] := by
  have hgiven := tokenOfMarkup_eq_nil_iff.mp hproblems
  obtain ⟨lexeme, span⟩ := t
  cases lexeme with
  | interpolation e =>
    obtain ⟨hblank, path, hpath⟩ := hgiven e rfl
    have hdraft : tokenOfMarkup ⟨.interpolation e, span⟩ = .ofNode (.expression path (some span)) := by
      change expressionOfMarkup e span = _
      rw [expressionOfMarkup, if_neg (by simp [hblank])]
      simp only [hpath]
    rw [hdraft]
    exact .node (.single (.expression hpath)) trivial
  | _ => exact keeps_text _ span

theorem tokensOfMarkup_keeps {tokens : List Markup.Token}
    (hproblems : (tokensOfMarkup tokens).diagnostics = []) :
    (tokensOfMarkup tokens).Keeps (tokens.map writtenToken) := by
  induction tokens with
  | nil => exact .empty
  | cons t rest ih =>
    rw [tokensOfMarkup] at hproblems ⊢
    obtain ⟨ht, hrest⟩ := Draft.diagnostics_append_eq_nil_iff.mp hproblems
    exact (tokenOfMarkup_keeps ht).append (ih hrest)

theorem elementOfMarkup_keeps {name : Text} {attrs : List Markup.Attr} {content : Draft}
    {selfClosing : Bool} {spans : Markup.ElementSpans} {items : List WrittenItem}
    (hvalueless : ∀ a ∈ attrs, a.hasValue = false → a.value = [])
    (hproblems : (attrsOfMarkup attrs).2 = []) (hcontent : content.Keeps items) :
    (elementOfMarkup name attrs content selfClosing spans).Keeps (.element name attrs :: items ++ [.leave]) :=
  .node (.enclosed (.element (forall_attrMeans hvalueless hproblems)) hcontent.merged)
    (textsJoinedIn_mergeTexts hcontent.joined)

section Blocks

variable {p : Markup.Parameter} {header span : Span} {items others : List WrittenItem}

theorem conditionalOfMarkup_keeps (hpath : IsPath p.expression) {elses : List Diagnostic}
    {consequent : Draft} (hconsequent : consequent.Keeps items) (alternate : Option Alternate)
    (hwalk : SameWalk others (itemsInAlternate (alternate.map fun a => mergeTexts a.content.nodes)))
    (hjoined : TextsJoinedInAlternate (alternate.map fun a => mergeTexts a.content.nodes)) :
    (conditionalOfMarkup (testOfMarkup [p] header) elses consequent alternate span).Keeps
      (.test p.expression :: items ++ .leave :: others) := by
  obtain ⟨path, hpath⟩ := hpath
  simp only [conditionalOfMarkup, testOfMarkup, hpath]
  refine .node ?_ ⟨textsJoinedIn_mergeTexts hconsequent.joined, hjoined⟩
  exact (SameWalk.cons (.test hpath) hconsequent.merged).append (.cons .leave hwalk)

theorem iterationOfMarkup_keeps {loop : Loop} (hloop : LoopHeader.Says p.expression loop) {body : Draft}
    (hbody : body.Keeps items) :
    (iterationOfMarkup (loopOfMarkup [p] header) body span).Keeps
      (.loop p.expression :: items ++ [.leave]) := by
  simp only [iterationOfMarkup, loopOfMarkup, loopOfText_eq_ok.mpr hloop]
  exact .node (.enclosed (.loop ⟨loop, hloop, rfl⟩) hbody.merged) (textsJoinedIn_mergeTexts hbody.joined)

end Blocks

/-! ### Siblings -/

theorem leadsToElse_cons (n : Markup.Node) (rest : List Markup.Node) :
    leadsToElse (n :: rest) = if isBetween n then leadsToElse rest else isContinuation n := by
  rw [leadsToElse, leadsToElse]
  cases hn : isBetween n <;> simp [hn]

theorem leadsToElse_eq_false {nodes : List Markup.Node} (hcount : connectedCount 0 nodes = 0) :
    leadsToElse nodes = false := by
  induction nodes with
  | nil => rfl
  | cons n rest ih =>
    rw [leadsToElse_cons]
    cases hbetween : isBetween n with
    | true =>
      rw [connectedCount_between hbetween] at hcount
      by_cases hzero : connectedCount 0 rest = 0
      · exact ih hzero
      · rw [if_neg hzero] at hcount
        cases hcount
    | false =>
      cases hcontinues : isContinuation n with
      | false => rfl
      | true =>
        rw [connectedCount_continuation hcontinues] at hcount
        cases hcount

theorem leadsToElse_gap {gap : List Markup.Node} (hgap : ∀ n ∈ gap, isBetween n = true)
    (rest : List Markup.Node) : leadsToElse (gap ++ rest) = leadsToElse rest := by
  induction gap with
  | nil => rfl
  | cons n gap ih =>
    obtain ⟨hn, hgap⟩ := List.forall_mem_cons.mp hgap
    rw [List.cons_append, leadsToElse_cons, if_pos hn, ih hgap]

section Walk

variable {before : List Markup.Node} {n : Markup.Node} {rest : List Markup.Node}

theorem isGap_of_not_isBetween (hn : isBetween n = false) : isGap before n rest = false := by
  rw [isGap, hn, Bool.and_false, Bool.false_and]

/-- Siblings that do not begin with an `else` block of an `if` block before them are no gap. -/
theorem isGap_of_apart (hn : isIf n = false)
    (hapart : followsIf before = true → connectedCount 0 (n :: rest) = 0) :
    isGap before n rest = false := by
  cases hbetween : isBetween n with
  | false => exact isGap_of_not_isBetween hbetween
  | true =>
    cases hfollows : followsIf before with
    | false => rw [isGap, hfollows, Bool.false_and, Bool.false_and]
    | true =>
      have hcount : connectedCount 0 rest = 0 := by
        apply apart_cons hn hapart
        rw [followsIf_cons, if_pos hbetween, hfollows]
      rw [isGap, leadsToElse_eq_false hcount, Bool.and_false]

theorem writtenItemsIn_cons (hmet : isGap before n rest = false) :
    writtenItemsIn before (n :: rest) = writtenItems n ++ writtenItemsIn (n :: before) rest := by
  rw [writtenItemsIn, if_neg (by simp [hmet])]

/-- What stands between an `if` block and its `else` block is passed over. -/
theorem writtenItemsIn_gap {gap : List Markup.Node} (hgap : ∀ n ∈ gap, isBetween n = true)
    (hbefore : followsIf before = true) (hrest : leadsToElse rest = true) :
    ∃ between, writtenItemsIn before (gap ++ rest) = writtenItemsIn between rest := by
  induction gap generalizing before with
  | nil => exact ⟨before, rfl⟩
  | cons n gap ih =>
    obtain ⟨hn, hgap⟩ := List.forall_mem_cons.mp hgap
    have hpassed : isGap before n (gap ++ rest) = true := by
      rw [isGap, hbefore, hn, leadsToElse_gap hgap, hrest]
      rfl
    obtain ⟨between, hsame⟩ := @ih (n :: before) hgap (by rw [followsIf_cons, if_pos hn, hbefore])
    refine ⟨between, ?_⟩
    rw [List.cons_append, writtenItemsIn, if_pos hpassed, List.nil_append, hsame]

theorem writtenItemsIn_if_else {p : Markup.Parameter} {others : List Markup.Parameter}
    {children gap alternate later : List Markup.Node} {spans place : Markup.BlockSpans}
    (hgap : ∀ n ∈ gap, isBetween n = true) :
    ∃ between, writtenItemsIn before (.block (Text.ofString "if") [p] children spans ::
          (gap ++ .block (Text.ofString "else") others alternate place :: later)) =
        .test p.expression :: writtenItemsIn [] children ++
          .leave :: (.otherwise :: writtenItemsIn [] alternate ++ [.leave]) ++
          writtenItemsIn (.block (Text.ofString "else") others alternate place :: between) later := by
  have hif : followsIf (.block (Text.ofString "if") [p] children spans :: before) = true :=
    beq_iff_eq.mpr rfl
  have hleads : leadsToElse (.block (Text.ofString "else") others alternate place :: later) = true :=
    beq_iff_eq.mpr rfl
  obtain ⟨between, hwalk⟩ := writtenItemsIn_gap hgap hif hleads
  refine ⟨between, ?_⟩
  rw [writtenItemsIn_cons (isGap_of_not_isBetween rfl), hwalk, writtenItems,
    writtenItemsIn_cons (isGap_of_not_isBetween rfl), writtenItems, writtenHeader_else]
  simp [writtenHeader]

end Walk

/-- Siblings that are turned into a template without problems are kept. -/
theorem nodesOfMarkup_keeps {nodes : List Markup.Node} (hsource : Markup.FromSourceIn nodes)
    (before : List Markup.Node) (hapart : followsIf before = true → connectedCount 0 nodes = 0)
    (hproblems : (nodesOfMarkup 0 nodes).diagnostics = []) :
    (nodesOfMarkup 0 nodes).Keeps (writtenItemsIn before nodes) := by
  have htop (children : List Markup.Node) : followsIf [] = true → connectedCount 0 children = 0 := by
    rintro ⟨⟩
  revert hproblems
  revert before
  refine siblings_induction ?nil ?element ?text ?comment ?alone ?connected ?stray ?loop hsource
  case nil =>
    intro before _ _
    rw [nodesOfMarkup]
    exact .empty
  case element =>
    intro name attrs children selfClosing spans rest hvalueless hchildren hrest before hapart hproblems
    rw [nodesOfMarkup] at hproblems ⊢
    obtain ⟨helement, hbehind⟩ := Draft.diagnostics_append_eq_nil_iff.mp hproblems
    obtain ⟨hattrs, hcontent⟩ := List.append_eq_nil_iff.mp helement
    rw [writtenItemsIn_cons (isGap_of_apart rfl hapart), writtenItems]
    exact (elementOfMarkup_keeps hvalueless hattrs (hchildren [] (htop children) hcontent)).append
      (hrest _ (apart_cons rfl hapart) hbehind)
  case text =>
    intro value tokens span rest _ hrest before hapart hproblems
    rw [nodesOfMarkup] at hproblems ⊢
    obtain ⟨htokens, hbehind⟩ := Draft.diagnostics_append_eq_nil_iff.mp hproblems
    rw [writtenItemsIn_cons (isGap_of_apart rfl hapart), writtenItems]
    exact (tokensOfMarkup_keeps htokens).append (hrest _ (apart_cons rfl hapart) hbehind)
  case comment =>
    intro body span rest hrest before hapart hproblems
    rw [nodesOfMarkup] at hproblems ⊢
    rw [writtenItemsIn_cons (isGap_of_apart rfl hapart), writtenItems, List.nil_append]
    exact hrest _ (apart_cons rfl hapart) hproblems
  case alone =>
    intro parameters children spans rest hcount hnone hchildren hrest before _ hproblems
    rw [nodesOfMarkup_if_alone hcount hnone] at hproblems ⊢
    obtain ⟨hconditional, hbehind⟩ := Draft.diagnostics_append_eq_nil_iff.mp hproblems
    obtain ⟨⟨p, rfl, hpath⟩, hconsequent, -⟩ := conditionalOfMarkup_eq_nil_iff.mp hconditional
    rw [writtenItemsIn_cons (isGap_of_not_isBetween rfl), writtenItems]
    exact .append
      (conditionalOfMarkup_keeps hpath (hchildren [] (htop children) hconsequent) none .nil trivial)
      (hrest _ (fun _ => hcount) hbehind)
  case connected =>
    intro parameters children spans gap others alternate place later hgap _ hchildren halternate hlater
      before _ hproblems
    rw [nodesOfMarkup_if_else hgap (by decide)] at hproblems ⊢
    obtain ⟨hconditional, hbehind⟩ := Draft.diagnostics_append_eq_nil_iff.mp hproblems
    obtain ⟨⟨p, rfl, hpath⟩, hconsequent, helse, helses⟩ := conditionalOfMarkup_eq_nil_iff.mp hconditional
    have hcount := connectedCount_of_elseProblems (List.append_eq_nil_iff.mp helses).2
    rw [hcount] at hbehind ⊢
    obtain ⟨between, hitems⟩ := @writtenItemsIn_if_else before p others children gap alternate later spans
      place hgap
    have hinner := halternate [] (htop alternate) (helse _ rfl)
    rw [hitems]
    exact .append
      (conditionalOfMarkup_keeps hpath (hchildren [] (htop children) hconsequent) (some _)
        (.enclosed .otherwise hinner.merged) (textsJoinedIn_mergeTexts hinner.joined))
      (hlater _ (fun _ => hcount) hbehind)
  case stray =>
    intro parameters children spans rest before hapart hproblems
    rw [nodesOfMarkup, if_neg (by decide), if_neg (by decide)] at hproblems
    cases (Draft.diagnostics_append_eq_nil_iff.mp hproblems).1
  case loop =>
    intro parameters children spans rest hchildren hrest before hapart hproblems
    have hother : isIf (.block (Text.ofString "for") parameters children spans) = false :=
      beq_eq_false_iff_ne.mpr (by decide)
    rw [nodesOfMarkup, if_neg (by decide), if_pos (by decide)] at hproblems ⊢
    obtain ⟨hiteration, hbehind⟩ := Draft.diagnostics_append_eq_nil_iff.mp hproblems
    obtain ⟨⟨p, loop, rfl, hloop⟩, hbody⟩ := iterationOfMarkup_eq_nil_iff.mp hiteration
    rw [writtenItemsIn_cons (isGap_of_not_isBetween rfl), writtenItems]
    exact (iterationOfMarkup_keeps hloop (hchildren [] (htop children) hbody)).append
      (hrest _ (apart_cons hother hapart) hbehind)

/-! ### Sources -/

theorem parseMarkup_eq_ok {o : Options} {text : Text} {nodes : List Markup.Node}
    (hmarkup : parseMarkup o text = .ok nodes) :
    (Markup.Tree.ofText ⟨false⟩ text).diagnostics = [] ∧
      nodes = o.treat (Markup.Tree.ofText ⟨false⟩ text).nodes := by
  rw [parseMarkup] at hmarkup
  split at hmarkup
  · rename_i hnone
    cases hmarkup
    exact ⟨List.isEmpty_iff.mp hnone, rfl⟩
  · cases hmarkup

/-- What a source says and what its template says, one after the other. -/
theorem parse_means {o : Options} {text : Text} {root : Node} (hparse : parse o text = .ok root) :
    ∃ nodes, parseMarkup o text = .ok nodes ∧
      List.Forall₂ Item.Means (joined (writtenItemsIn [] nodes)) (joined root.items) := by
  obtain ⟨nodes, hmarkup, haccepted, rfl⟩ := parse_eq_ok hparse
  obtain ⟨-, rfl⟩ := parseMarkup_eq_ok hmarkup
  have hkept := nodesOfMarkup_keeps (fromSourceIn_treat ⟨false⟩ o text) [] (by rintro ⟨⟩) haccepted
  exact ⟨_, hmarkup, hkept.merged [] [] .nil⟩

theorem flatMap_consText {attr path loop β : Type} {f : Item attr path loop → List β}
    (hf : ∀ value, f (.text value) = []) (value : Text) (items : List (Item attr path loop)) :
    (consText value items).flatMap f = items.flatMap f := by
  have hother : (if value.isEmpty then items else .text value :: items).flatMap f = items.flatMap f := by
    split
    · rfl
    · rw [List.flatMap_cons, hf, List.nil_append]
  cases items with
  | nil => exact hother
  | cons item rest =>
    cases item with
    | text next => rw [consText, List.flatMap_cons, List.flatMap_cons, hf, hf]
    | _ => exact hother

/-- What is taken from a walk does not depend on how its texts are divided. -/
theorem flatMap_joined {attr path loop β : Type} {f : Item attr path loop → List β}
    (hf : ∀ value, f (.text value) = []) (items : List (Item attr path loop)) :
    (joined items).flatMap f = items.flatMap f := by
  induction items with
  | nil => rfl
  | cons item rest ih =>
    change (consItem item (joined rest)).flatMap f = _
    cases item with
    | text value => rw [consItem, flatMap_consText hf, ih, List.flatMap_cons, hf, List.nil_append]
    | _ => simp only [consItem, List.flatMap_cons, ih]

theorem filterMap_joined {attr path loop β : Type} {f : Item attr path loop → Option β}
    (hf : ∀ value, f (.text value) = none) (items : List (Item attr path loop)) :
    (joined items).filterMap f = items.filterMap f := by
  rw [List.filterMap_eq_flatMap_toList, List.filterMap_eq_flatMap_toList]
  apply flatMap_joined
  intro value
  rw [hf]
  rfl

/-- The template of a source that is accepted, with its blanks or without them, has the walk of its markup,
and nowhere an empty text or two texts in a row. -/
theorem content_kept (scan : Markup.ScanOptions) (o : Options) (text : Text)
    (haccepted : (ofMarkup (o.treat (Markup.Tree.ofText scan text).nodes)).diagnostics = []) :
    List.Forall₂ Item.Means (joined (writtenItemsIn [] (o.treat (Markup.Tree.ofText scan text).nodes)))
        (joined (ofMarkup (o.treat (Markup.Tree.ofText scan text).nodes)).root.items) ∧
      (ofMarkup (o.treat (Markup.Tree.ofText scan text).nodes)).root.TextsJoined := by
  have hkept := nodesOfMarkup_keeps (fromSourceIn_treat scan o text) [] (by rintro ⟨⟩) haccepted
  exact ⟨hkept.merged [] [] .nil, textsJoinedIn_mergeTexts hkept.joined⟩

/-- A source in which texts are cut by a comment and an interpolation, and blanks and a comment stand before
an `else` block. -/
def greetingSource : Text :=
  "<p title=x ...y>Dear <!--n-->\x7b\x7bname\x7d\x7d,</p>@if (a) \x7bb\x7d <!--c-->" ++
    " @else \x7b@for (v, k of d.e) \x7b<br>\x7d\x7d"

theorem greetingSource_content_kept :
    (ofMarkup (Options.treat ⟨[], true, []⟩ (Markup.Tree.ofText ⟨false⟩ greetingSource).nodes)).diagnostics =
        [] ∧
      List.Forall₂ Item.Means
        (joined (writtenItemsIn []
          (Options.treat ⟨[], true, []⟩ (Markup.Tree.ofText ⟨false⟩ greetingSource).nodes)))
        (joined (ofMarkup
          (Options.treat ⟨[], true, []⟩ (Markup.Tree.ofText ⟨false⟩ greetingSource).nodes)).root.items) ∧
      (ofMarkup (Options.treat ⟨[], true, []⟩
        (Markup.Tree.ofText ⟨false⟩ greetingSource).nodes)).root.TextsJoined := by
  have haccepted : (ofMarkup (Options.treat ⟨[], true, []⟩
      (Markup.Tree.ofText ⟨false⟩ greetingSource).nodes)).diagnostics = [] := by
    decide +kernel
  exact ⟨haccepted, content_kept ⟨false⟩ ⟨[], true, []⟩ greetingSource haccepted⟩

end Stencil.Template
