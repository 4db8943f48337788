import Stencil.Proofs.Declarations
import Stencil.Proofs.FaithfulListing
import Stencil.Proofs.SameForest

/-!
# What a context can add to the markup

How many `<` there are in the HTML of a template depends on the elements that the instructions open and close,
and on the names of the attributes. Texts and attribute values do not matter: they are escaped. The names that
stand in the source hold no `<`. But a mapping that is spread onto an element brings names along, which are
written as they are, so a context adds a `<` for each one in such a name, and in no other way.
-/

namespace Stencil

namespace Html

/-- The byte that begins a tag. -/
def tagMark : UInt8 := 0x3C

/-! ### Writing nodes -/

mutual

/-- A node without attributes and texts. -/
def Node.bare : Node → Node
  | .element tag _ children => .element tag [] (bareAll children)
  | .text _ => .text []

def bareAll : List Node → List Node
  | [] => []
  | n :: rest => n.bare :: bareAll rest

end

mutual

/-- The names of the attributes that are written for a node. -/
def Node.shownNames : Node → List Text
  | .element tag attrs children =>
    attrs.map Attr.name ++ if isPlainVoid tag then [] else shownNamesIn children
  | .text _ => []

def shownNamesIn : List Node → List Text
  | [] => []
  | n :: rest => n.shownNames ++ shownNamesIn rest

end

theorem bareAll_eq_map (nodes : List Node) : bareAll nodes = nodes.map Node.bare := by
  induction nodes with
  | nil => rfl
  | cons n rest ih => rw [bareAll, ih, List.map_cons]

theorem shownNamesIn_eq_flatMap (nodes : List Node) :
    shownNamesIn nodes = nodes.flatMap Node.shownNames := by
  induction nodes with
  | nil => rfl
  | cons n rest ih => rw [shownNamesIn, ih, List.flatMap_cons]

theorem count_escape (t : Text) : (escape t).count tagMark = 0 := by
  have hbyte : ∀ b : UInt8, (escapeByte b).count tagMark = 0 := by
    intro b
    unfold escapeByte
    repeat' split
    all_goals first | decide | simp_all [tagMark]
  induction t with
  | nil => rfl
  | cons b t ih =>
    have hsplit : escape (b :: t) = escapeByte b ++ escape t := List.flatMap_cons
    rw [hsplit, List.count_append, hbyte, ih]

theorem count_write_attrs (attrs : List Attr) :
    (attrs.flatMap Attr.write).count tagMark = (attrs.map Attr.name).flatten.count tagMark := by
  have hattr : ∀ a : Attr, a.write.count tagMark = a.name.count tagMark := by
    intro a
    have hblank : (Text.ofString " ").count tagMark = 0 := by decide
    have hopening : (Text.ofString "=\"").count tagMark = 0 := by decide
    have hclosing : (Text.ofString "\"").count tagMark = 0 := by decide
    rw [Attr.write]
    split <;> simp only [List.count_append, count_escape, hblank, hopening, hclosing] <;> omega
  induction attrs with
  | nil => rfl
  | cons a rest ih =>
    rw [List.flatMap_cons, List.count_append, hattr, ih, List.map_cons, List.flatten_cons,
      List.count_append]

mutual

/-- The tag marks in a written node are those of its elements and those of its attribute names. -/
theorem Node.count_write (n : Node) :
    n.write.count tagMark = n.bare.write.count tagMark + n.shownNames.flatten.count tagMark := by
  match n with
  | .element tag attrs children =>
    have hchildren := count_writeAll children
    have hattrs := count_write_attrs attrs
    simp only [Node.write, Node.bare, Node.shownNames, writeElement, List.flatMap_nil]
    split <;> simp only [List.count_append, List.flatten_append, List.append_nil] <;> omega
  | .text value =>
    have hempty : (escape []).count tagMark = 0 := rfl
    simp only [Node.write, Node.bare, Node.shownNames, count_escape, hempty]
    rfl

theorem count_writeAll (nodes : List Node) :
    (writeAll nodes).count tagMark =
      (writeAll (bareAll nodes)).count tagMark + (shownNamesIn nodes).flatten.count tagMark := by
  match nodes with
  | [] => rfl
  | n :: rest =>
    have hfirst := Node.count_write n
    have hrest := count_writeAll rest
    simp only [writeAll, bareAll, shownNamesIn, List.count_append, List.flatten_append]
    omega

end

end Html

/-! ### Instructions -/

namespace Instruction

/-- The tag of an instruction; a text has none. -/
def tag : Instruction → Text
  | .open o => o.tag
  | .void o => o.tag
  | .close tag => tag
  | .text _ => []

/-- What kind an instruction is and which tag it has. -/
def kindAndTag (i : Instruction) : String × Text := (i.kindName, i.tag)

/-- An instruction without keys, attributes and texts. -/
def bare : Instruction → Instruction
  | .open o => .open ⟨o.tag, [], [], []⟩
  | .void o => .void ⟨o.tag, [], [], []⟩
  | .close tag => .close tag
  | .text _ => .text []

theorem bare_eq_of_kindAndTag {i j : Instruction} (h : i.kindAndTag = j.kindAndTag) :
    i.bare = j.bare := by
  obtain ⟨hkind, htag⟩ := Prod.mk.inj h
  cases i <;> cases j <;> simp_all [kindName, tag, bare]

theorem map_bare_eq {is js : List Instruction} (h : is.map kindAndTag = js.map kindAndTag) :
    is.map bare = js.map bare := by
  induction is generalizing js with
  | nil =>
    obtain rfl := List.map_eq_nil_iff.mp h.symm
    rfl
  | cons i is ih =>
    obtain ⟨j, js, rfl, hj, hjs⟩ := List.map_eq_cons_iff.mp h.symm
    rw [List.map_cons, List.map_cons, ih hjs.symm, bare_eq_of_kindAndTag hj]

/-- The names of the static attributes of an instruction. -/
def staticNames : Instruction → List Text
  | .open o => o.static.map Prod.fst
  | .void o => o.static.map Prod.fst
  | .close _ => []
  | .text _ => []

end Instruction

namespace Html.Writer

def Frame.bare (f : Frame) : Frame := ⟨f.tag, [], bareAll f.children⟩

def bare (w : Writer) : Writer := ⟨[], w.frames.map Frame.bare, bareAll w.roots, w.fault⟩

theorem bare_add (w : Writer) (n : Node) : (w.add n).bare = w.bare.add n.bare := by
  obtain ⟨keyAttr, frames, roots, fault⟩ := w
  cases frames <;> rfl

theorem step_bare (w : Writer) (i : Instruction) : (w.step i).bare = w.bare.step i.bare := by
  cases i with
  | «open» o => rfl
  | void o => exact bare_add w _
  | text value => exact bare_add w _
  | close tag =>
    obtain ⟨keyAttr, frames, roots, fault⟩ := w
    cases frames with
    | nil => rfl
    | cons f fs =>
      have hnode : (Node.element f.tag f.attrs f.children.reverse).bare =
          .element f.tag [] (bareAll f.children).reverse := by
        rw [Node.bare, bareAll_eq_map, bareAll_eq_map, List.map_reverse]
      simp only [step]
      rw [bare_add, hnode]
      simp only [bare, Frame.bare, List.map_cons, Instruction.bare]
      split <;> rfl

theorem run_bare (w : Writer) (is : List Instruction) :
    (is.foldl step w).bare = (is.map Instruction.bare).foldl step w.bare := by
  induction is generalizing w with
  | nil => rfl
  | cons i is ih => rw [List.foldl_cons, ih, step_bare, List.map_cons, List.foldl_cons]

/-- The names of the attributes that a writer has come to. -/
def names (w : Writer) : List Text :=
  w.frames.flatMap (fun f => f.attrs.map Attr.name ++ shownNamesIn f.children) ++ shownNamesIn w.roots

theorem mem_names_add {w : Writer} {n : Node} {name : Text} :
    name ∈ (w.add n).names ↔ name ∈ n.shownNames ∨ name ∈ w.names := by
  obtain ⟨keyAttr, frames, roots, fault⟩ := w
  cases frames with
  | nil => simp [add, names, shownNamesIn]
  | cons f fs =>
    simp only [add, names, shownNamesIn, List.flatMap_cons, List.mem_append]
    grind

theorem mem_names_attrsOf {w : Writer} {o : Opening} {name : Text}
    (hname : name ∈ (w.attrsOf o).map Attr.name) :
    name = w.keyAttr ∨ name ∈ o.static.map Prod.fst := by
  obtain ⟨a, ha, rfl⟩ := List.mem_map.mp hname
  rw [attrsOf] at ha
  rcases List.mem_append.mp ha with ha | ha
  · left
    split at ha
    · cases ha
    · rw [List.mem_singleton.mp ha]
  · right
    obtain ⟨e, he, hstatic⟩ := List.mem_filterMap.mp ha
    refine List.mem_map.mpr ⟨e, he, ?_⟩
    rw [Attr.ofStatic?] at hstatic
    grind

theorem keyAttr_step (w : Writer) (i : Instruction) : (w.step i).keyAttr = w.keyAttr := by
  cases i with
  | «open» o => rfl
  | void o => exact keyAttr_add w _
  | text value => exact keyAttr_add w _
  | close tag =>
    rw [step]
    split
    · rfl
    · rw [keyAttr_add]
      dsimp only
      split <;> rfl

/-- A name that a writer comes to is that of the key, or an instruction brings it. -/
theorem mem_names_step {w : Writer} {i : Instruction} {name : Text} (hname : name ∈ (w.step i).names) :
    name ∈ w.names ∨ name = w.keyAttr ∨ name ∈ i.staticNames := by
  cases i with
  | «open» o =>
    have hsplit : (w.step (.open o)).names = ((w.attrsOf o).map Attr.name ++ []) ++ w.names :=
      List.append_assoc ..
    rw [hsplit, List.append_nil] at hname
    rcases List.mem_append.mp hname with hname | hname
    · exact .inr (mem_names_attrsOf hname)
    · exact .inl hname
  | void o =>
    rcases mem_names_add.mp hname with hname | hname
    · have hattrs : name ∈ (w.attrsOf o).map Attr.name := by
        simpa [Node.shownNames, shownNamesIn] using hname
      exact .inr (mem_names_attrsOf hattrs)
    · exact .inl hname
  | text value =>
    rcases mem_names_add.mp hname with hname | hname
    · cases hname
    · exact .inl hname
  | close tag =>
    left
    obtain ⟨keyAttr, frames, roots, fault⟩ := w
    cases frames with
    | nil => exact hname
    | cons f fs =>
      have hinner : ∀ {name : Text},
          name ∈ (Node.element f.tag f.attrs f.children.reverse).shownNames →
            name ∈ f.attrs.map Attr.name ++ shownNamesIn f.children := by
        intro name hname
        rw [Node.shownNames, shownNamesIn_eq_flatMap] at hname
        rw [shownNamesIn_eq_flatMap]
        grind
      have hsplit : (Writer.mk keyAttr (f :: fs) roots fault).names =
          (f.attrs.map Attr.name ++ shownNamesIn f.children) ++
            (Writer.mk keyAttr fs roots fault).names := List.append_assoc ..
      rw [hsplit, List.mem_append]
      rcases mem_names_add.mp hname with hname | hname
      · exact .inl (hinner hname)
      · right
        split at hname <;> exact hname

theorem mem_names_run {w : Writer} {is : List Instruction} {name : Text}
    (hname : name ∈ (is.foldl step w).names) :
    name ∈ w.names ∨ name = w.keyAttr ∨ ∃ i ∈ is, name ∈ i.staticNames := by
  induction is generalizing w with
  | nil => exact .inl hname
  | cons i is ih =>
    rcases ih hname with hstep | hkey | ⟨j, hj, hjname⟩
    · rcases mem_names_step hstep with hw | hkey | hi
      · exact .inl hw
      · exact .inr (.inl hkey)
      · exact .inr (.inr ⟨i, List.mem_cons_self, hi⟩)
    · exact .inr (.inl (hkey.trans (keyAttr_step w i)))
    · exact .inr (.inr ⟨j, List.mem_cons_of_mem i hj, hjname⟩)

end Html.Writer

/-! ### Templates -/

namespace Attribute

open Template (Attr)

/-- The names that an attribute spreads onto its element. -/
def spreadNames (context : Value) (a : Attr) : List Text :=
  if isSpread a.name then (spreadEntries context a).map fun e => e.1.toText else []

theorem mem_spreadNames {key : Text} {context : Value} {a : Attr} (ha : a.name.IsUnbroken)
    {name : Text} (hname : name ∈ (declared key context a).map Prod.fst)
    (hmark : Html.tagMark ∈ name) : name ∈ spreadNames context a := by
  -- The name of the class attribute is given and not taken from anywhere.
  have hclass : ∀ {given : Text}, name = declaredName given → name = given := by
    rintro given rfl
    rw [declaredName] at hmark ⊢
    split
    · rename_i hclass
      rw [if_pos hclass] at hmark
      exact absurd hmark (by decide)
    · rfl
  obtain ⟨d, hd, rfl⟩ := List.mem_map.mp hname
  have hown : ∀ {v : Value}, d = (declaredName a.name, v) → False := by
    rintro v rfl
    exact (ha.bytes _ (hclass rfl ▸ hmark)).2.2.2 rfl
  rw [declared] at hd
  split at hd
  · cases hd
  · cases hd
  · rename_i hrole
    obtain ⟨e, he, rfl⟩ := List.mem_map.mp hd
    have hspread : isSpread a.name = true := by
      unfold roleIn at hrole
      grind
    rw [spreadNames, if_pos hspread]
    exact List.mem_map.mpr ⟨e, he, (hclass rfl).symm⟩
  · exact (hown (List.mem_singleton.mp hd)).elim
  · exact (hown (List.mem_singleton.mp hd)).elim

/-- A static attribute with a tag mark in its name was spread onto its element. -/
theorem mem_spreadNames_of_static {key : Text} {attrs : List Attr} {plan : Plan}
    (hplan : Plan.ofAttrs key attrs = .ok plan) (hattrs : ∀ a ∈ attrs, a.name.IsUnbroken)
    {context : Value} {name : Text} (hname : name ∈ (plan.evaluate context).static.map Prod.fst)
    (hmark : Html.tagMark ∈ name) : name ∈ attrs.flatMap (spreadNames context) := by
  have hsorts := Plan.ofAttrs_sorts hplan
  have hsettled := Assembly.settled_ofDeclarations (hsorts.proper context)
  rw [hsorts.declarations] at hsettled
  have hdeclared : name ∈ (attrs.flatMap (declared key context)).map Prod.fst := by
    rw [← List.mem_eraseDups, ← hsettled.names]
    exact hname
  obtain ⟨d, hd, rfl⟩ := List.mem_map.mp hdeclared
  obtain ⟨a, ha, hd⟩ := List.mem_flatMap.mp hd
  exact List.mem_flatMap.mpr
    ⟨a, ha, mem_spreadNames (hattrs a ha) (List.mem_map.mpr ⟨d, hd, rfl⟩) hmark⟩

end Attribute

namespace Program

mutual

/-- The names that are spread onto the elements of a node in a context. -/
def spreadNames : Template.Node → (context : Value) → List Text
  | .block children _, context => spreadNamesIn children context
  | .element _ attrs content _ _, context =>
    attrs.flatMap (Attribute.spreadNames context) ++ spreadNamesIn content context
  | .text .., _ => []
  | .expression .., _ => []
  | .conditional test consequent alternate _, context =>
    if (Value.resolve test context).isTruthy then spreadNamesIn consequent context
    else spreadNamesInAlternate alternate context
  | .iteration collection keyName valueName body _, context =>
    (Value.resolve collection context).entries.flatMap fun entry =>
      spreadNamesIn body (.overlay context (some (loopBindings keyName valueName entry)))
  | .hole, _ => []
  | .foreign .., _ => []

def spreadNamesInAlternate : Option (List Template.Node) → (context : Value) → List Text
  | none, _ => []
  | some nodes, context => spreadNamesIn nodes context

def spreadNamesIn : List Template.Node → (context : Value) → List Text
  | [], _ => []
  | node :: rest, context => spreadNames node context ++ spreadNamesIn rest context

end

/-- Attribute names with a tag mark in them are among the given ones. -/
def MarkedAmong (names : List Text) (is : List Instruction) : Prop :=
  ∀ i ∈ is, ∀ name ∈ i.staticNames, Html.tagMark ∈ name → name ∈ names

namespace MarkedAmong

variable {names more : List Text} {first others : List Instruction}

theorem nil : MarkedAmong names [] := nofun

theorem append (hfirst : MarkedAmong names first) (hothers : MarkedAmong more others) :
    MarkedAmong (names ++ more) (first ++ others) := by
  intro i hi name hname hmark
  rcases List.mem_append.mp hi with hi | hi
  · exact List.mem_append_left more (hfirst i hi name hname hmark)
  · exact List.mem_append_right names (hothers i hi name hname hmark)

theorem flatMap {α : Type} {f : α → List Text} {g : α → List Instruction}
    (h : ∀ a, MarkedAmong (f a) (g a)) (as : List α) : MarkedAmong (as.flatMap f) (as.flatMap g) := by
  induction as with
  | nil => exact nil
  | cons a as ih =>
    rw [List.flatMap_cons, List.flatMap_cons]
    exact (h a).append ih

theorem single {i : Instruction}
    (h : ∀ name ∈ i.staticNames, Html.tagMark ∈ name → name ∈ names) : MarkedAmong names [i] := by
  intro j hj
  rw [List.mem_singleton.mp hj]
  exact h

end MarkedAmong

mutual

/-- The attribute names with a tag mark that a template means are spread from its context. -/
theorem markedAmong_denote (key : Text) (node : Template.Node) (hnode : node.IsLegible)
    (context : Value) : MarkedAmong (spreadNames node context) (denote key node context) := by
  match node with
  | .block children span =>
    rw [denote, spreadNames]
    exact markedAmong_denoteAll key children hnode context
  | .element name attrs content selfClosing spans =>
    obtain ⟨-, hattrs, hcontent⟩ := hnode
    rw [denote, spreadNames, classify]
    cases hplan : Attribute.Plan.ofAttrs key attrs with
    | error cause => exact .nil
    | ok plan =>
      dsimp only [Except.map]
      generalize hr : plan.evaluate context = r
      have hopening : ∀ i : Instruction, i.staticNames = r.static.map Prod.fst →
          MarkedAmong (attrs.flatMap (Attribute.spreadNames context)) [i] := by
        intro i hi
        apply MarkedAmong.single
        intro name hname hmark
        rw [hi, ← hr] at hname
        exact Attribute.mem_spreadNames_of_static hplan hattrs hname hmark
      split
      · exact (hopening (.void ⟨name, r.key, r.static, r.dynamic⟩) rfl).append .nil
      · have hopened := (hopening (.open ⟨name, r.key, r.static, r.dynamic⟩) rfl).append
          (markedAmong_denoteAll key content hcontent context)
        have hclose : MarkedAmong [] [.close name] := .single nofun
        have hwhole := hopened.append hclose
        rwa [List.append_nil] at hwhole
  | .text value span => exact .single nofun
  | .expression path span => exact .single nofun
  | .conditional test consequent alternate spans =>
    rw [denote, spreadNames]
    split
    · exact markedAmong_denoteAll key consequent hnode.2.1 context
    · exact markedAmong_denoteAlternate key alternate hnode.2.2 context
  | .iteration collection keyName valueName body spans =>
    rw [denote, spreadNames]
    exact .flatMap (fun entry => markedAmong_denoteAll key body hnode.2.2.2 _) _
  | .hole => exact .nil
  | .foreign kind typeName span => exact .nil

theorem markedAmong_denoteAlternate (key : Text) (nodes : Option (List Template.Node))
    (hnodes : Template.LegibleAlternate nodes) (context : Value) :
    MarkedAmong (spreadNamesInAlternate nodes context) (denoteAlternate key nodes context) := by
  match nodes with
  | none => exact .nil
  | some nodes =>
    rw [denoteAlternate, spreadNamesInAlternate]
    exact markedAmong_denoteAll key nodes hnodes context

theorem markedAmong_denoteAll (key : Text) (nodes : List Template.Node)
    (hnodes : Template.LegibleIn nodes) (context : Value) :
    MarkedAmong (spreadNamesIn nodes context) (denoteAll key nodes context) := by
  match nodes with
  | [] => exact .nil
  | node :: rest =>
    rw [denoteAll, spreadNamesIn]
    exact (markedAmong_denote key node hnodes.1 context).append
      (markedAmong_denoteAll key rest hnodes.2 context)

end

end Program

/-- The names that are spread onto the elements of a source. -/
def spreadNamesOf (o : Options) (source : Text) (context : Value) : List Text :=
  match parse o source with
  | .error _ => []
  | .ok root => Program.spreadNames root context

/-! ### Invocations -/

/-- A compiled source that is run in a context and written as HTML. -/
structure Invocation where
  options : Options
  source : Text
  program : List Program.Op
  compiled : compile options source = .ok program
  context : Value
  /-- The attribute that shows the key of an element; the empty name stands for none. -/
  keyAttr : Text

namespace Invocation

def instructions (r : Invocation) : List Instruction := Program.run r.program r.context

def writer (r : Invocation) : Html.Writer := r.instructions.foldl Html.Writer.step (.new r.keyAttr)

def html (r : Invocation) : Except Html.Imbalance Text := r.writer.render

/-- The names of the attributes that are written. -/
def shownNames (r : Invocation) : List Text := Html.shownNamesIn r.writer.nodes

/-- The names that the context spreads onto the elements. -/
def spreadNames (r : Invocation) : List Text := spreadNamesOf r.options r.source r.context

/-- Neither the name of the key nor one that is spread has a tag mark in it. -/
def HasPlainNames (r : Invocation) : Prop :=
  Html.tagMark ∉ r.keyAttr ∧ ∀ name ∈ r.spreadNames, Html.tagMark ∉ name

theorem wellNested_instructions (r : Invocation) : Instruction.WellNested r.instructions := by
  obtain ⟨root, -, hcompile⟩ := Program.exists_root r.compiled
  rw [instructions, Program.run_compiled hcompile]
  exact Program.neutral_denote r.options.key root r.context []

/-- What is written has the tag marks of its elements and those of its attribute names. -/
theorem exists_html (r : Invocation) :
    ∃ html, r.html = .ok html ∧
      html.count Html.tagMark =
        (Html.writeAll ((r.instructions.map Instruction.bare).foldl Html.Writer.step
          (.new [])).nodes).count Html.tagMark + r.shownNames.flatten.count Html.tagMark := by
  have hnone : r.writer.imbalance? = none :=
    Html.Writer.imbalance?_of_wellNested r.wellNested_instructions r.keyAttr
  have hbare : Html.bareAll r.writer.nodes =
      ((r.instructions.map Instruction.bare).foldl Html.Writer.step (.new [])).nodes := by
    have hrun : r.writer.bare = (r.instructions.map Instruction.bare).foldl Html.Writer.step (.new []) :=
      Html.Writer.run_bare (.new r.keyAttr) r.instructions
    rw [← hrun, Html.Writer.nodes, Html.Writer.nodes, Html.bareAll_eq_map, List.map_reverse,
      ← Html.bareAll_eq_map]
    rfl
  refine ⟨Html.writeAll r.writer.nodes, ?_, ?_⟩
  · rw [html, Html.Writer.render, hnone]
  · rw [Html.count_writeAll, hbare]
    rfl

theorem html_eq_ok (r : Invocation) {t : Text} (ht : r.html.toOption = some t) : r.html = .ok t := by
  obtain ⟨html, hhtml, -⟩ := r.exists_html
  rw [hhtml] at ht ⊢
  rw [Option.some.inj ht]

/-- An attribute name with a tag mark in it is that of the key, or the context spreads it. -/
theorem mem_spreadNames (r : Invocation) {name : Text} (hname : name ∈ r.shownNames)
    (hmark : Html.tagMark ∈ name) : name = r.keyAttr ∨ name ∈ r.spreadNames := by
  have hnames : name ∈ r.writer.names := by
    rw [shownNames, Html.Writer.nodes, Html.shownNamesIn_eq_flatMap] at hname
    rw [Html.Writer.names, Html.shownNamesIn_eq_flatMap]
    grind
  rcases Html.Writer.mem_names_run hnames with hnew | hkey | ⟨i, hi, hi'⟩
  · cases hnew
  · exact .inl hkey
  · right
    obtain ⟨root, hroot, hcompile⟩ := Program.exists_root r.compiled
    rw [instructions, Program.run_compiled hcompile] at hi
    rw [spreadNames, spreadNamesOf, hroot]
    exact Program.markedAmong_denote r.options.key root (parse_legible hroot) r.context i hi name hi' hmark

theorem HasPlainNames.count_shownNames {r : Invocation} (hr : r.HasPlainNames) :
    r.shownNames.flatten.count Html.tagMark = 0 := by
  rw [List.count_eq_zero]
  intro hmark
  obtain ⟨name, hname, hmark⟩ := List.mem_flatten.mp hmark
  rcases r.mem_spreadNames hname hmark with rfl | hspread
  · exact hr.1 hmark
  · exact hr.2 name hspread hmark

end Invocation

/-- If two invocations have instructions of the same kinds and tags, the tag marks in their HTML differ by
those in the names of attributes, and do not differ if there are none in names that the contexts spread. -/
theorem tagMarks_of_kindsAndTags (r s : Invocation)
    (hsame : r.instructions.map Instruction.kindAndTag = s.instructions.map Instruction.kindAndTag) :
    ∃ html html', r.html = .ok html ∧ s.html = .ok html' ∧
      html.count Html.tagMark + s.shownNames.flatten.count Html.tagMark =
        html'.count Html.tagMark + r.shownNames.flatten.count Html.tagMark ∧
      (r.HasPlainNames → s.HasPlainNames → html.count Html.tagMark = html'.count Html.tagMark) := by
  obtain ⟨html, hhtml, hcount⟩ := r.exists_html
  obtain ⟨html', hhtml', hcount'⟩ := s.exists_html
  rw [Instruction.map_bare_eq hsame] at hcount
  refine ⟨html, html', hhtml, hhtml', by omega, ?_⟩
  intro hr hs
  rw [hcount, hcount', hr.count_shownNames, hs.count_shownNames]

/-- The kinds and tags of the instructions of a program in a context, and the HTML. -/
def outcome (program : List Program.Op) (context : Value) : List (String × Text) × Option Text :=
  let is := Program.run program context
  (is.map Instruction.kindAndTag, (is.foldl Html.Writer.step (.new [])).render.toOption)

/-- A text that is bound and a mapping that is spread. -/
def greeting : Text := "<p class=\"a\" ...extra>\x7b\x7bname\x7d\x7d</p>"

def plainGreeting : Value := .map [("name", .text "Ada"), ("extra", .map [])]

def hostileGreeting : Value :=
  .map [("name", .text "<b>"), ("extra", .map [("class", .text "<i>"), ("title", .text "</p>")])]

theorem greeting_tagMarks : ∃ r s : Invocation,
    r.source = greeting ∧ s.source = greeting ∧ r.context = plainGreeting ∧ s.context = hostileGreeting ∧
      r.instructions.map Instruction.kindAndTag = s.instructions.map Instruction.kindAndTag ∧
      ∃ html html', r.html = .ok html ∧ s.html = .ok html' ∧
        html.count Html.tagMark = html'.count Html.tagMark := by
  obtain ⟨program, hprogram⟩ := @Program.exists_program .default greeting (by decide +kernel)
  let r : Invocation := ⟨.default, greeting, program, hprogram, plainGreeting, []⟩
  let s : Invocation := ⟨.default, greeting, program, hprogram, hostileGreeting, []⟩
  have htags : (compile .default greeting).toOption.map (fun p => (outcome p plainGreeting).1) =
      (compile .default greeting).toOption.map (fun p => (outcome p hostileGreeting).1) := by
    decide +kernel
  rw [hprogram] at htags
  have hsame : r.instructions.map Instruction.kindAndTag = s.instructions.map Instruction.kindAndTag :=
    Option.some.inj htags
  have hplain : ∀ context, (spreadNamesOf .default greeting context).flatten.count Html.tagMark = 0 →
      ∀ name ∈ spreadNamesOf .default greeting context, Html.tagMark ∉ name := by
    intro context hcount name hname hmark
    exact List.count_eq_zero.mp hcount (List.mem_flatten.mpr ⟨name, hname, hmark⟩)
  obtain ⟨html, html', hhtml, hhtml', -, hcount⟩ := tagMarks_of_kindsAndTags r s hsame
  refine ⟨r, s, rfl, rfl, rfl, rfl, hsame, html, html', hhtml, hhtml', hcount ?_ ?_⟩
  · exact ⟨List.not_mem_nil, hplain plainGreeting (by decide +kernel)⟩
  · exact ⟨List.not_mem_nil, hplain hostileGreeting (by decide +kernel)⟩

/-- A name in a mapping that is spread can begin a tag. -/
theorem spread_name_adds_tagMark : ∃ r s : Invocation,
    r.source = "<a ...x></a>" ∧ s.source = "<a ...x></a>" ∧
      r.context = .map [("x", .map [])] ∧ s.context = .map [("x", .map [("<b>", .bool true)])] ∧
      r.instructions.map Instruction.kindAndTag = s.instructions.map Instruction.kindAndTag ∧
      r.html = .ok "<a></a>" ∧ s.html = .ok "<a <b>></a>" ∧
      (Text.ofString "<a></a>").count Html.tagMark ≠ (Text.ofString "<a <b>></a>").count Html.tagMark := by
  obtain ⟨program, hprogram⟩ := @Program.exists_program .default "<a ...x></a>" (by decide +kernel)
  let r : Invocation := ⟨.default, "<a ...x></a>", program, hprogram, .map [("x", .map [])], []⟩
  let s : Invocation :=
    ⟨.default, "<a ...x></a>", program, hprogram, .map [("x", .map [("<b>", .bool true)])], []⟩
  let tags : List (String × Text) := [("open", "a"), ("close", "a")]
  have hplain : (compile .default "<a ...x></a>").toOption.map (fun program =>
      outcome program (.map [("x", .map [])])) = some (tags, some ("<a></a>" : Text)) := by
    decide +kernel
  have hmarked : (compile .default "<a ...x></a>").toOption.map (fun program =>
      outcome program (.map [("x", .map [("<b>", .bool true)])])) =
        some (tags, some ("<a <b>></a>" : Text)) := by
    decide +kernel
  rw [hprogram] at hplain hmarked
  obtain ⟨htags, hhtml⟩ := Prod.mk.inj (Option.some.inj hplain)
  obtain ⟨htags', hhtml'⟩ := Prod.mk.inj (Option.some.inj hmarked)
  exact ⟨r, s, rfl, rfl, rfl, rfl, htags.trans htags'.symm, r.html_eq_ok hhtml, s.html_eq_ok hhtml',
    by decide⟩

end Stencil
