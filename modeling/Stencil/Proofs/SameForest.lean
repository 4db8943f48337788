import Stencil.Proofs.Nesting

/-!
# A writer and a document build the same forest

A writer makes a node of an element when it is closed; until then the element is a frame on a stack. A
document has the element in its tree from the moment it is opened and lets it grow there. The two are run
side by side: at every moment the right edge of the document is the stack of the writer, outermost frame
first, each frame standing behind the nodes that were finished before it was opened.

That holds for any calls whatsoever. A closing tag takes the innermost element off both stacks even if it
has another name, one that closes nothing is only noted, and starting anew empties both.
-/

namespace Stencil.Html

/-- What can be asked of a writer or of a document. -/
inductive Call where
  | instruction (i : Instruction)
  | reset

def Writer.handle (w : Writer) : Call → Writer
  | .instruction i => w.step i
  | .reset => w.reset

def Document.handle (d : Document) : Call → Document
  | .instruction i => d.step i
  | .reset => d.reset

namespace Item

theorem toNodes_append (first others : List Item) :
    toNodes (first ++ others) = toNodes first ++ toNodes others := by
  induction first with
  | nil => rfl
  | cons i rest ih => rw [List.cons_append, toNodes, toNodes, ih, List.cons_append]

theorem mapLast_concat (f : Item → Item) (items : List Item) (i : Item) :
    mapLast f (items ++ [i]) = items ++ [f i] := by
  induction items with
  | nil => rfl
  | cons j rest ih =>
    rw [List.cons_append, mapLast, ih, List.cons_append]
    intro hnil
    simp at hnil

end Item

/-! ### The right edge of a document -/

open Writer (Frame)

/-- The items are the finished `nodes`, last first, and behind them the outermost of the open elements;
what that holds so far is made up in the same way. -/
def Grows : (nodes : List Node) → (outer : List Frame) → List Item → Prop
  | nodes, [], items => Item.toNodes items = nodes.reverse
  | nodes, f :: inner, items =>
    ∃ before key handlers inside, items = before ++ [.element f.tag f.attrs key handlers inside] ∧
      Item.toNodes before = nodes.reverse ∧ Grows f.children inner inside

namespace Grows

variable {nodes : List Node} {outer : List Frame} {items : List Item} {f g : Frame}

theorem add_top (h : Grows nodes [] items) (i : Item) :
    Grows (i.toNode :: nodes) [] (i.appendAt 0 items) := by
  rw [Grows] at h
  change Item.toNodes (items ++ [i]) = (i.toNode :: nodes).reverse
  rw [Item.toNodes_append, h, List.reverse_cons]
  rfl

theorem add_innermost (h : Grows nodes (outer ++ [f]) items) (i : Item) :
    Grows nodes (outer ++ [{ f with children := i.toNode :: f.children }])
      (i.appendAt (outer.length + 1) items) := by
  induction outer generalizing nodes items with
  | nil =>
    obtain ⟨before, key, handlers, inside, rfl, hbefore, hinside⟩ := h
    refine ⟨before, key, handlers, i.appendAt 0 inside, ?_, hbefore, hinside.add_top i⟩
    exact Item.mapLast_concat _ _ _
  | cons g outer ih =>
    obtain ⟨before, key, handlers, inside, rfl, hbefore, hinside⟩ := h
    refine ⟨before, key, handlers, i.appendAt (outer.length + 1) inside, ?_, hbefore, ih hinside⟩
    exact Item.mapLast_concat _ _ _

theorem push (h : Grows nodes outer items) (tag : Text) (attrs : List Attr) (key : Text)
    (handlers : List (Text × Value)) :
    Grows nodes (outer ++ [⟨tag, attrs, []⟩])
      ((Item.element tag attrs key handlers []).appendAt outer.length items) := by
  induction outer generalizing nodes items with
  | nil => exact ⟨items, key, handlers, [], rfl, h, rfl⟩
  | cons g outer ih =>
    obtain ⟨before, key', handlers', inside, rfl, hbefore, hinside⟩ := h
    exact ⟨before, key', handlers', _, Item.mapLast_concat _ _ _, hbefore, ih hinside⟩

/-- An element that is closed already is where it belongs. -/
theorem close_top (h : Grows nodes [f] items) :
    Grows (.element f.tag f.attrs f.children.reverse :: nodes) [] items := by
  obtain ⟨before, key, handlers, inside, rfl, hbefore, hinside⟩ := h
  rw [Grows] at hinside ⊢
  rw [Item.toNodes_append, hbefore, List.reverse_cons, ← hinside]
  rfl

theorem close_innermost (h : Grows nodes (outer ++ [g, f]) items) :
    Grows nodes
      (outer ++ [{ g with children := .element f.tag f.attrs f.children.reverse :: g.children }])
      items := by
  induction outer generalizing nodes items with
  | nil =>
    obtain ⟨before, key, handlers, inside, hitems, hbefore, hinside⟩ := h
    exact ⟨before, key, handlers, inside, hitems, hbefore, hinside.close_top⟩
  | cons f' outer ih =>
    obtain ⟨before, key, handlers, inside, hitems, hbefore, hinside⟩ := h
    exact ⟨before, key, handlers, inside, hitems, hbefore, ih hinside⟩

end Grows

/-! ### Side by side -/

/-- A writer that shows no keys and a document after the same calls. -/
structure Alongside (w : Writer) (d : Document) : Prop where
  keyAttr : w.keyAttr = []
  opened : d.opened = w.opened
  fault : d.fault = w.fault
  grows : Grows w.roots w.frames.reverse d.items

namespace Writer

theorem keyAttr_add (w : Writer) (n : Node) : (w.add n).keyAttr = w.keyAttr := by
  rw [add]
  split <;> rfl

/-- A writer that shows no keys has the attributes that a document has. -/
theorem attrsOf_eq {w : Writer} (hkey : w.keyAttr = []) (o : Opening) :
    w.attrsOf o = o.static.filterMap Attr.ofStatic? := by
  rw [attrsOf, hkey, if_pos (by simp), List.nil_append]

end Writer

namespace Alongside

variable {w : Writer} {d : Document}

theorem length_opened (h : Alongside w d) : d.opened.length = w.frames.length := by
  rw [h.opened, Writer.opened, List.length_map]

theorem add (h : Alongside w d) (i : Item) : Alongside (w.add i.toNode) (d.add i) where
  keyAttr := (Writer.keyAttr_add w _).trans h.keyAttr
  opened := by rw [Document.opened_add, Writer.opened_add, h.opened]
  fault := by rw [Document.fault_add, Writer.fault_add, h.fault]
  grows := by
    have hgrows := h.grows
    rw [Document.add, h.length_opened]
    cases hframes : w.frames with
    | nil =>
      rw [hframes, List.reverse_nil] at hgrows
      simp only [Writer.add, hframes]
      exact hgrows.add_top i
    | cons f fs =>
      rw [hframes, List.reverse_cons] at hgrows
      have hadded := hgrows.add_innermost i
      rw [List.length_reverse] at hadded
      simp only [Writer.add, hframes, List.reverse_cons]
      exact hadded

theorem push (h : Alongside w d) (o : Opening) :
    Alongside (w.step (.open o)) (d.step (.open o)) where
  keyAttr := h.keyAttr
  opened := congrArg (o.tag :: ·) h.opened
  fault := h.fault
  grows := by
    have hpushed := h.grows.push o.tag (w.attrsOf o) o.key o.dynamic
    rw [List.length_reverse, ← h.length_opened, Writer.attrsOf_eq h.keyAttr] at hpushed
    change Grows w.roots (⟨o.tag, w.attrsOf o, []⟩ :: w.frames).reverse _
    rw [List.reverse_cons, Writer.attrsOf_eq h.keyAttr]
    exact hpushed

theorem fail (h : Alongside w d) (i : Imbalance) : Alongside (w.fail i) (d.fail i) where
  keyAttr := h.keyAttr
  opened := h.opened
  fault := congrArg (·.or (some i)) h.fault
  grows := h.grows

/-- The innermost element closed: its frame becomes a node, and the document has it already. -/
theorem pop (h : Alongside w d) {f : Frame} {fs : List Frame} (hframes : w.frames = f :: fs) :
    Alongside ({ w with frames := fs }.add (.element f.tag f.attrs f.children.reverse))
      { d with opened := fs.map Frame.tag } where
  keyAttr := (Writer.keyAttr_add _ _).trans h.keyAttr
  opened := by
    rw [Writer.opened_add]
    rfl
  fault := by
    rw [Writer.fault_add]
    exact h.fault
  grows := by
    have hgrows := h.grows
    rw [hframes, List.reverse_cons] at hgrows
    cases fs with
    | nil => exact hgrows.close_top
    | cons g gs =>
      rw [List.reverse_cons, List.append_assoc] at hgrows
      change Grows w.roots (_ :: gs).reverse d.items
      rw [List.reverse_cons]
      exact hgrows.close_innermost

theorem close (h : Alongside w d) (tag : Text) :
    Alongside (w.step (.close tag)) (d.step (.close tag)) := by
  cases hframes : w.frames with
  | nil =>
    have hopened : d.opened = [] := by rw [h.opened, Writer.opened, hframes, List.map_nil]
    simpa only [Writer.step, Document.step, hframes, hopened] using h.fail (.strayClose tag)
  | cons f fs =>
    have hopened : d.opened = f.tag :: fs.map Frame.tag := by
      rw [h.opened, Writer.opened, hframes, List.map_cons]
    simp only [Writer.step, Document.step, hframes, hopened]
    split
    · exact h.pop hframes
    · exact (h.fail (.wrongClose tag f.tag)).pop hframes

/-- One more instruction keeps the two side by side. -/
theorem step (h : Alongside w d) (i : Instruction) : Alongside (w.step i) (d.step i) := by
  cases i with
  | «open» o => exact h.push o
  | void o =>
    have hadded := h.add (Document.itemOf o)
    have hnode : (Document.itemOf o).toNode = .element o.tag (w.attrsOf o) [] := by
      rw [Writer.attrsOf_eq h.keyAttr]
      rfl
    rw [hnode] at hadded
    exact hadded
  | close tag => exact h.close tag
  | text value => exact h.add (.text value)

theorem new : Alongside (.new []) .empty := ⟨rfl, rfl, rfl, rfl⟩

theorem handle (h : Alongside w d) (call : Call) : Alongside (w.handle call) (d.handle call) := by
  cases call with
  | instruction i => exact h.step i
  | reset =>
    have hreset : w.handle .reset = .new [] := congrArg Writer.new h.keyAttr
    rw [hreset]
    exact new

theorem run (h : Alongside w d) (calls : List Call) :
    Alongside (calls.foldl Writer.handle w) (calls.foldl Document.handle d) := by
  induction calls generalizing w d with
  | nil => exact h
  | cons call rest ih => exact ih (h.handle call)

/-- Once nothing is open, the document is the nodes of the writer. -/
theorem toNodes_items (h : Alongside w d) (hframes : w.frames = []) :
    Item.toNodes d.items = w.nodes := by
  have hgrows := h.grows
  rw [hframes] at hgrows
  exact hgrows

end Alongside

/-- A start anew, an element closed under another name, and one closing tag too many. -/
def crookedCalls : List Call :=
  [.instruction (.open ⟨"b", [], [], []⟩), .reset,
    .instruction (.open ⟨"ul", "k", [("hidden", .bool true), ("id", .null)], []⟩),
    .instruction (.void ⟨"hr", [], [("size", .int 2)], []⟩), .instruction (.open ⟨"li", [], [], []⟩),
    .instruction (.text "x"), .instruction (.close "ul"), .instruction (.close "ul"),
    .instruction (.close "p")]

end Stencil.Html
