import Stencil.Proofs.Balance

/-!
# Document order

A document grows at its right edge: the open elements are the last node at the top level, the last of its
children, and so on, and a node is added behind the last child of the innermost. Whatever is added therefore
comes last in document order. So the nodes stand in the order in which they were made, however badly the
instructions are nested, and a search in document order finds the node that was made first.

A node is known by the way to it, an index at each level, and not by what it holds, which may still grow. The
way stays what it was when the node was made: nothing is put before a node later, and nothing is taken away.
-/

namespace Stencil

namespace Instruction

/-- Whether an instruction begins an element with this key. -/
def carries (key : Text) : Instruction → Bool
  | .open o | .void o => o.key == key
  | .close _ | .text _ => false

/-- The node that an instruction makes, with nothing in it yet. -/
def item? : Instruction → Option Html.Item
  | .open o | .void o => some (Html.Document.itemOf o)
  | .text value => some (.text value)
  | .close _ => none

end Instruction

namespace Html

namespace Item

def children : Item → List Item
  | .element _ _ _ _ children => children
  | .text _ => []

/-- The node without what is in it. -/
def bare : Item → Item := mapChildren fun _ => []

/-- The node at the end of a way that begins at this one. -/
def under? (i : Item) : List Nat → Option Item
  | [] => some i
  | n :: way => i.children[n]?.bind fun child => child.under? way

/-- The node at the end of a way that begins among some nodes. -/
def at? (items : List Item) : List Nat → Option Item
  | [] => none
  | n :: way => items[n]?.bind fun i => i.under? way

mutual

/-- The nodes below a node in document order, each with the way to it. -/
def nodesBelow : Item → List (List Nat × Item)
  | .element _ _ _ _ children => nodesFrom 0 children
  | .text _ => []

/-- Some nodes, whose indices are counted from `index`, and the nodes below them in document order, each
with the way to it. -/
def nodesFrom (index : Nat) : List Item → List (List Nat × Item)
  | [] => []
  | i :: rest =>
    ([index], i) :: ((nodesBelow i).map (Prod.map (index :: ·) id) ++ nodesFrom (index + 1) rest)

end

/-- The nodes in document order, each with the way to it and without what is in it. -/
def outline (items : List Item) : List (List Nat × Item) := (nodesFrom 0 items).map (Prod.map id bare)

theorem nodesBelow_eq (i : Item) : nodesBelow i = nodesFrom 0 i.children := by
  cases i with
  | element tag attrs key handlers children => rw [nodesBelow, Item.children]
  | text value => rw [nodesBelow, Item.children, nodesFrom]

theorem hasKey_bare (key : Text) (i : Item) : i.bare.hasKey key = i.hasKey key := by
  cases i <;> rfl

/-! ### Searching is searching in document order -/

mutual

theorem findBelow?_eq (key : Text) (i : Item) :
    findBelow? key i = (nodesBelow i).find? fun n => n.2.hasKey key := by
  match i with
  | .element tag attrs k handlers children =>
    rw [findBelow?, nodesBelow]
    exact findFrom?_eq key 0 children
  | .text value => rw [findBelow?, nodesBelow, List.find?_nil]

theorem findFrom?_eq (key : Text) (index : Nat) (items : List Item) :
    findFrom? key index items = (nodesFrom index items).find? fun n => n.2.hasKey key := by
  match items with
  | [] => rw [findFrom?, nodesFrom, List.find?_nil]
  | i :: rest =>
    rw [findFrom?, nodesFrom, List.find?_cons]
    cases hkey : i.hasKey key with
    | true => rfl
    | false =>
      have hbelow : ((nodesBelow i).map (Prod.map (index :: ·) id)).find? (fun n => n.2.hasKey key) =
          (findBelow? key i).map (Prod.map (index :: ·) id) := by
        rw [List.find?_map, findBelow?_eq key i]
        rfl
      rw [List.find?_append, hbelow, ← findFrom?_eq key (index + 1) rest]
      cases findBelow? key i <;> rfl

end

mutual

theorem under?_of_mem_nodesBelow {i : Item} {way : List Nat} {node : Item}
    (hmem : (way, node) ∈ nodesBelow i) : i.under? way = some node := by
  match i with
  | .element tag attrs key handlers children =>
    rw [nodesBelow] at hmem
    obtain ⟨n, rest, rfl, hat⟩ := at?_of_mem_nodesFrom hmem
    rw [Nat.zero_add]
    exact hat
  | .text value =>
    rw [nodesBelow] at hmem
    cases hmem

theorem at?_of_mem_nodesFrom {index : Nat} {items : List Item} {way : List Nat} {node : Item}
    (hmem : (way, node) ∈ nodesFrom index items) :
    ∃ n rest, way = (index + n) :: rest ∧ at? items (n :: rest) = some node := by
  match items with
  | [] =>
    rw [nodesFrom] at hmem
    cases hmem
  | i :: items =>
    rw [nodesFrom, List.mem_cons, List.mem_append, List.mem_map] at hmem
    rcases hmem with hfirst | ⟨⟨rest, found⟩, hbelow, heq⟩ | hlater
    · obtain ⟨rfl, rfl⟩ := Prod.mk.inj hfirst
      exact ⟨0, [], rfl, rfl⟩
    · obtain ⟨rfl, rfl⟩ := Prod.mk.inj heq
      exact ⟨0, rest, rfl, under?_of_mem_nodesBelow hbelow⟩
    · obtain ⟨n, rest, rfl, hat⟩ := at?_of_mem_nodesFrom hlater
      exact ⟨n + 1, rest, by rw [Nat.add_assoc, Nat.add_comm 1], hat⟩

end

theorem exists_at?_of_mem_outline {items : List Item} {way : List Nat} {made : Item}
    (hmem : (way, made) ∈ outline items) : ∃ node, at? items way = some node ∧ node.bare = made := by
  obtain ⟨⟨way, node⟩, hnode, heq⟩ := List.mem_map.mp hmem
  obtain ⟨rfl, rfl⟩ := Prod.mk.inj heq
  obtain ⟨n, rest, rfl, hat⟩ := at?_of_mem_nodesFrom hnode
  rw [Nat.zero_add]
  exact ⟨node, hat, rfl⟩

/-! ### The right edge -/

theorem nodesFrom_append (index : Nat) (first others : List Item) :
    nodesFrom index (first ++ others) = nodesFrom index first ++ nodesFrom (index + first.length) others := by
  induction first generalizing index with
  | nil => rw [nodesFrom, List.nil_append, List.nil_append, List.length_nil, Nat.add_zero]
  | cons i rest ih =>
    rw [List.cons_append, nodesFrom, ih, nodesFrom, List.length_cons, List.cons_append, List.append_assoc,
      Nat.add_assoc, Nat.add_comm 1]

theorem outline_concat (items : List Item) (i : Item) :
    outline (items ++ [i]) =
      outline items ++
        ([items.length], i.bare) :: (outline i.children).map (Prod.map (items.length :: ·) id) := by
  rw [outline, nodesFrom_append, Nat.zero_add, nodesFrom, nodesFrom, List.append_nil, List.map_append,
    nodesBelow_eq, List.map_cons, List.map_map, outline, outline, List.map_map]
  rfl

/-- The way to a node that is added `depth` levels down the right edge. There have to be that many elements
on the edge. -/
inductive Edge : (depth : Nat) → List Item → (way : List Nat) → Prop
  | top (items : List Item) : Edge 0 items [items.length]
  | down (before : List Item) (tag : Text) (attrs : List Attr) (key : Text)
      (handlers : List (Text × Value)) {depth : Nat} {inside : List Item} {way : List Nat}
      (hinside : Edge depth inside way) :
      Edge (depth + 1) (before ++ [.element tag attrs key handlers inside]) (before.length :: way)

namespace Edge

variable {depth : Nat} {items : List Item} {way : List Nat}

theorem appendAt_concat (i : Item) (before inside : List Item) (tag : Text) (attrs : List Attr) (key : Text)
    (handlers : List (Text × Value)) (depth : Nat) :
    i.appendAt (depth + 1) (before ++ [.element tag attrs key handlers inside]) =
      before ++ [.element tag attrs key handlers (i.appendAt depth inside)] :=
  mapLast_concat _ _ _

/-- What is added at the right edge comes last. -/
theorem outline_appendAt (h : Edge depth items way) {i : Item} (hempty : i.children = []) :
    outline (i.appendAt depth items) = outline items ++ [(way, i.bare)] := by
  induction h with
  | top items =>
    rw [appendAt, outline_concat, hempty]
    rfl
  | down before tag attrs key handlers _ ih =>
    rw [appendAt_concat, outline_concat, outline_concat, children, ih, children, List.map_append,
      List.append_assoc]
    rfl

theorem at?_eq_none (h : Edge depth items way) : at? items way = none := by
  induction h with
  | top items => rw [at?, List.getElem?_eq_none (Nat.le_refl _), Option.bind_none]
  | @down before tag attrs key handlers depth inside way hinside ih =>
    rw [at?, List.getElem?_concat_length, Option.bind_some]
    cases hinside with
    | top => exact ih
    | down => exact ih

theorem outward (h : Edge (depth + 1) items way) : ∃ outer, Edge depth items outer := by
  induction depth generalizing items way with
  | zero => exact ⟨_, top items⟩
  | succ depth ih =>
    cases h with
    | down before tag attrs key handlers hinside =>
      obtain ⟨outer, houter⟩ := ih hinside
      exact ⟨_, down before tag attrs key handlers houter⟩

theorem appendAt (h : Edge depth items way) (i : Item) :
    ∃ next, Edge depth (i.appendAt depth items) next := by
  induction h with
  | top items => exact ⟨_, top _⟩
  | down before tag attrs key handlers _ ih =>
    obtain ⟨next, hnext⟩ := ih
    rw [appendAt_concat]
    exact ⟨_, down before tag attrs key handlers hnext⟩

/-- An element that was added is on the edge itself. -/
theorem inward (h : Edge depth items way) (tag : Text) (attrs : List Attr) (key : Text)
    (handlers : List (Text × Value)) (inside : List Item) :
    ∃ inner, Edge (depth + 1) ((Item.element tag attrs key handlers inside).appendAt depth items) inner := by
  induction h with
  | top items => exact ⟨_, down items tag attrs key handlers (top inside)⟩
  | down before tag' attrs' key' handlers' _ ih =>
    obtain ⟨inner, hinner⟩ := ih
    rw [appendAt_concat]
    exact ⟨_, down before tag' attrs' key' handlers' hinner⟩

end Edge

end Item

namespace Document

open Item (Edge)

def at? (d : Document) (way : List Nat) : Option Item := Item.at? d.items way

/-- The nodes in document order, each with the way to it and without what is in it. -/
def outline (d : Document) : List (List Nat × Item) := Item.outline d.items

/-- The document of some instructions. -/
def built (is : List Instruction) : Document := is.foldl step empty

theorem built_append (is more : List Instruction) : built (is ++ more) = more.foldl step (built is) :=
  List.foldl_append

theorem built_concat (is : List Instruction) (i : Instruction) : built (is ++ [i]) = (built is).step i :=
  built_append is [i]

theorem items_step (d : Document) (i : Instruction) :
    (d.step i).items = (i.item?.map fun made => made.appendAt d.opened.length d.items).getD d.items := by
  cases i with
  | close tag =>
    rw [step]
    split
    · rfl
    · dsimp only
      split <;> rfl
  | _ => rfl

/-- After any instructions the open elements are on the right edge. -/
theorem exists_edge_step {d : Document} {way : List Nat} (hedge : Edge d.opened.length d.items way)
    (i : Instruction) : ∃ next, Edge (d.step i).opened.length (d.step i).items next := by
  cases i with
  | «open» o => exact hedge.inward _ _ _ _ _
  | void o => exact hedge.appendAt _
  | text value => exact hedge.appendAt _
  | close tag =>
    rw [items_step]
    cases hopened : d.opened with
    | nil =>
      rw [hopened] at hedge
      simp only [step, hopened, fail]
      exact ⟨way, hedge⟩
    | cons innermost outer =>
      rw [hopened] at hedge
      simp only [step, hopened]
      exact hedge.outward

theorem exists_edge_built (is : List Instruction) :
    ∃ way, Edge (built is).opened.length (built is).items way := by
  suffices hrun : ∀ d : Document, (∃ way, Edge d.opened.length d.items way) →
      ∃ way, Edge (is.foldl step d).opened.length (is.foldl step d).items way from
    hrun empty ⟨_, .top []⟩
  induction is with
  | nil => exact fun _ hd => hd
  | cons i rest ih =>
    rintro d ⟨way, hedge⟩
    exact ih (d.step i) (exists_edge_step hedge i)

theorem outline_step {d : Document} {way : List Nat} (hedge : Edge d.opened.length d.items way)
    {i : Instruction} {made : Item} (hmade : i.item? = some made) :
    (d.step i).outline = d.outline ++ [(way, made)] := by
  have hempty : made.children = [] ∧ made.bare = made := by
    cases i with
    | close tag => cases hmade
    | _ =>
      obtain rfl := Option.some.inj hmade
      exact ⟨rfl, rfl⟩
  rw [outline, items_step, hmade, Option.map_some, Option.getD_some, hedge.outline_appendAt hempty.1,
    hempty.2, outline]

theorem outline_step_of_none (d : Document) {i : Instruction} (hnone : i.item? = none) :
    (d.step i).outline = d.outline := by
  rw [outline, items_step, hnone, Option.map_none, Option.getD_none, outline]

/-- Nothing that was made is moved or taken away. -/
theorem outline_prefix_built (is more : List Instruction) :
    (built is).outline <+: (built (is ++ more)).outline := by
  induction more generalizing is with
  | nil => simp only [List.append_nil, List.prefix_rfl]
  | cons i rest ih =>
    have hrest := ih (is ++ [i])
    rw [List.append_assoc, List.singleton_append, built_concat] at hrest
    refine List.IsPrefix.trans ?_ hrest
    cases hmade : i.item? with
    | none => simp only [outline_step_of_none _ hmade, List.prefix_rfl]
    | some made =>
      obtain ⟨way, hedge⟩ := exists_edge_built is
      rw [outline_step hedge hmade]
      exact List.prefix_append _ _

theorem find?_eq {d : Document} {key : Text} (hkey : key ≠ []) :
    d.find? key = (Item.nodesFrom 0 d.items).find? fun n => n.2.hasKey key := by
  rw [find?, if_neg (by simpa using hkey), Item.findFrom?_eq]

theorem at?_of_find? {d : Document} {key : Text} (hkey : key ≠ []) {way : List Nat} {node : Item}
    (hfind : d.find? key = some (way, node)) : d.at? way = some node := by
  rw [find?_eq hkey] at hfind
  obtain ⟨n, rest, rfl, hat⟩ := Item.at?_of_mem_nodesFrom (List.mem_of_find?_eq_some hfind)
  rw [Nat.zero_add]
  exact hat

theorem find?_bare {d : Document} {key : Text} (hkey : key ≠ []) :
    (d.find? key).map (Prod.map id Item.bare) = d.outline.find? fun n => n.2.hasKey key := by
  rw [find?_eq hkey, outline, Item.outline, List.find?_map]
  congr 2
  funext n
  exact (Item.hasKey_bare key n.2).symm

end Document

/-! ### The node that an instruction makes -/

open Document (built)

/-- The way leads nowhere before the instruction, and to the node that it makes from then on. -/
structure Makes (before : List Instruction) (i : Instruction) (way : List Nat) (made : Item) : Prop where
  item : i.item? = some made
  fresh : (built before).at? way = none
  stays : ∀ more, ∃ node, (built (before ++ i :: more)).at? way = some node ∧ node.bare = made

/-- The nodes that some instructions make, in the order in which they are made. -/
inductive Emitted : List Instruction → List (List Nat × Item) → Prop
  | nothing : Emitted [] []
  | node {is : List Instruction} {made : List (List Nat × Item)} (his : Emitted is made) {i : Instruction}
      {way : List Nat} {item : Item} (hmakes : Makes is i way item) :
      Emitted (is ++ [i]) (made ++ [(way, item)])
  | close {is : List Instruction} {made : List (List Nat × Item)} (his : Emitted is made) (tag : Text) :
      Emitted (is ++ [.close tag]) made

theorem exists_makes (before : List Instruction) {i : Instruction} {made : Item}
    (hmade : i.item? = some made) :
    ∃ way, Makes before i way made ∧ (built (before ++ [i])).outline = (built before).outline ++ [(way, made)] := by
  obtain ⟨way, hedge⟩ := Document.exists_edge_built before
  have houtline := Document.outline_step hedge hmade
  rw [← Document.built_concat] at houtline
  refine ⟨way, ⟨hmade, hedge.at?_eq_none, fun more => ?_⟩, houtline⟩
  have hlater := Document.outline_prefix_built (before ++ [i]) more
  rw [List.append_assoc, List.singleton_append, houtline] at hlater
  exact Item.exists_at?_of_mem_outline (hlater.mem (by simp))

theorem emitted_outline (is : List Instruction) : Emitted is (built is).outline := by
  suffices hrun : ∀ before, Emitted before (built before).outline →
      Emitted (before ++ is) (built (before ++ is)).outline from hrun [] .nothing
  induction is with
  | nil =>
    intro before hbefore
    rwa [List.append_nil]
  | cons i rest ih =>
    intro before hbefore
    rw [← List.singleton_append, ← List.append_assoc]
    apply ih
    cases hmade : i.item? with
    | none =>
      rw [Document.built_concat, Document.outline_step_of_none _ hmade]
      cases i with
      | close tag => exact hbefore.close tag
      | _ => cases hmade
    | some made =>
      obtain ⟨way, hmakes, houtline⟩ := exists_makes before hmade
      rw [houtline]
      exact hbefore.node hmakes

namespace Emitted

theorem exists_item {is : List Instruction} {made : List (List Nat × Item)} (h : Emitted is made)
    {way : List Nat} {item : Item} (hmem : (way, item) ∈ made) : ∃ i ∈ is, i.item? = some item := by
  induction h with
  | nothing => cases hmem
  | @node is made _ i _ _ hmakes ih =>
    rcases List.mem_append.mp hmem with hold | hnew
    · obtain ⟨j, hj, hitem⟩ := ih hold
      exact ⟨j, List.mem_append_left _ hj, hitem⟩
    · obtain ⟨rfl, rfl⟩ := Prod.mk.inj (List.mem_singleton.mp hnew)
      exact ⟨i, by simp, hmakes.item⟩
  | close _ tag ih =>
    obtain ⟨j, hj, hitem⟩ := ih hmem
    exact ⟨j, List.mem_append_left _ hj, hitem⟩

end Emitted

theorem hasKey_of_item? {i : Instruction} {made : Item} (hmade : i.item? = some made) (key : Text) :
    made.hasKey key = i.carries key := by
  cases i with
  | close tag => cases hmade
  | _ =>
    obtain rfl := Option.some.inj hmade
    rfl

theorem exists_item?_of_carries {i : Instruction} {key : Text} (hcarries : i.carries key = true) :
    ∃ made, i.item? = some made := by
  cases i with
  | «open» o => exact ⟨_, rfl⟩
  | void o => exact ⟨_, rfl⟩
  | _ => cases hcarries

theorem find?_outline_eq_none {is : List Instruction} {key : Text} (hnone : ∀ i ∈ is, i.carries key = false) :
    ((built is).outline.find? fun n => n.2.hasKey key) = none := by
  rw [List.find?_eq_none]
  rintro ⟨way, item⟩ hmem
  obtain ⟨i, hi, hitem⟩ := (emitted_outline is).exists_item hmem
  rw [hasKey_of_item? hitem, hnone i hi]
  exact Bool.false_ne_true

theorem find?_outline_of_first {before after : List Instruction} {i : Instruction} {key : Text}
    (hi : i.carries key = true) (hbefore : ∀ j ∈ before, j.carries key = false) :
    ∃ way made, Makes before i way made ∧
      ((built (before ++ i :: after)).outline.find? fun n => n.2.hasKey key) = some (way, made) := by
  obtain ⟨made, hmade⟩ := exists_item?_of_carries hi
  obtain ⟨way, hmakes, houtline⟩ := exists_makes before hmade
  obtain ⟨later, hlater⟩ := Document.outline_prefix_built (before ++ [i]) after
  rw [List.append_assoc, List.singleton_append, houtline] at hlater
  refine ⟨way, made, hmakes, ?_⟩
  rw [← hlater, List.append_assoc, List.find?_append, find?_outline_eq_none hbefore, Option.none_or,
    List.singleton_append, List.find?_cons, hasKey_of_item? hmade, hi]

theorem find?_built_of_first {before after : List Instruction} {i : Instruction} {key : Text} (hkey : key ≠ [])
    (hi : i.carries key = true) (hbefore : ∀ j ∈ before, j.carries key = false) :
    ∃ way made node, Makes before i way made ∧ (built (before ++ i :: after)).at? way = some node ∧
      node.bare = made ∧ (built (before ++ i :: after)).find? key = some (way, node) := by
  obtain ⟨way, made, hmakes, hfound⟩ := @find?_outline_of_first before after i key hi hbefore
  rw [← Document.find?_bare hkey, Option.map_eq_some_iff] at hfound
  obtain ⟨⟨way, node⟩, hfind, heq⟩ := hfound
  obtain ⟨rfl, rfl⟩ := Prod.mk.inj heq
  exact ⟨way, node.bare, node, hmakes, Document.at?_of_find? hkey hfind, rfl, hfind⟩

theorem find?_built_eq_none_iff (is : List Instruction) {key : Text} (hkey : key ≠ []) :
    (built is).find? key = none ↔ ∀ i ∈ is, i.carries key = false := by
  constructor
  · intro hnone
    cases hsome : is.find? (Instruction.carries key) with
    | none => simpa using hsome
    | some i =>
      obtain ⟨hi, before, after, rfl, hbefore⟩ := List.find?_eq_some_iff_append.mp hsome
      obtain ⟨way, made, node, _, _, _, hfind⟩ :=
        @find?_built_of_first before after i key hkey hi (by simpa using hbefore)
      rw [hnone] at hfind
      cases hfind
  · intro hnone
    have hfound := @Document.find?_bare (built is) key hkey
    rw [find?_outline_eq_none hnone] at hfound
    exact Option.map_eq_none_iff.mp hfound

/-- After any calls the nodes of a document stand in the order in which they were made since the last start
anew. What is found under a key is the node of the first instruction that began an element with it, and
nothing is found if there was no such instruction. -/
theorem first_opened_found (calls : List Call) (key : Text) (hkey : key ≠ []) :
    let is := sinceReset calls
    let d := calls.foldl Document.handle .empty
    Emitted is d.outline ∧
      (d.find? key = none ↔ ∀ i ∈ is, i.carries key = false) ∧
      ∀ before i after, is = before ++ i :: after → i.carries key = true →
        (∀ j ∈ before, j.carries key = false) →
        ∃ way made node, Makes before i way made ∧ d.at? way = some node ∧ node.bare = made ∧
          d.find? key = some (way, node) := by
  intro is d
  have hd : d = built is :=
    @view_run _ _ Document.handle id Document.step .empty (fun _ _ => rfl) (fun _ => rfl) _ rfl calls
  rw [hd]
  refine ⟨emitted_outline is, find?_built_eq_none_iff is hkey, ?_⟩
  intro before i after his hi hbefore
  rw [his]
  exact find?_built_of_first hkey hi hbefore

/-- The key `k` four times: before a start anew, on an element that a wrong tag closes, inside it, and after. -/
def repeatedKey : List Call :=
  [.instruction (.void ⟨"hr", "k", [], []⟩), .reset, .instruction (.open ⟨"ul", [], [], []⟩),
    .instruction (.text "x"), .instruction (.open ⟨"li", "k", [], []⟩),
    .instruction (.void ⟨"br", "k", [], []⟩), .instruction (.close "p"),
    .instruction (.void ⟨"hr", "k", [], []⟩)]

theorem repeatedKey_first_found :
    let d := repeatedKey.foldl Document.handle .empty
    let li : Opening := ⟨"li", "k", [], []⟩
    Text.ofString "k" ≠ [] ∧ Emitted (sinceReset repeatedKey) d.outline ∧
      (∃ way made node, Makes [.open ⟨"ul", [], [], []⟩, .text "x"] (.open li) way made ∧
        d.at? way = some node ∧ node.bare = made ∧ d.find? "k" = some (way, node)) ∧
      (d.find? "k").map Prod.fst = some [0, 1] ∧ d.find? "hr" = none := by
  have hk : Text.ofString "k" ≠ [] := by decide
  have hhr : Text.ofString "hr" ≠ [] := by decide
  refine ⟨hk, (first_opened_found repeatedKey "k" hk).1, ?_, rfl, ?_⟩
  · exact (first_opened_found repeatedKey "k" hk).2.2 _ _ _ rfl rfl (by decide)
  · exact (first_opened_found repeatedKey "hr" hhr).2.1.mpr (by decide)

end Html

end Stencil
