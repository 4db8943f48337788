import Stencil.Compiler
import Stencil.Proofs.Lowering
import Stencil.Proofs.Voids

/-!
# Templates that were read are compiled

Reading a source checks the attributes and the void elements of a template, and compiling checks them
again with rules of its own. The second check never finds anything: a template that reading let through
is sound, and a sound template is compiled whatever attribute holds the keys. So a source that is not
compiled has a problem that reading reported.
-/

namespace Stencil

namespace Template

mutual

/-- A node that has a meaning everywhere but at the top: attributes can be sorted, void and
self-closing elements have no content, and nothing is missing. -/
def Node.Sound (key : Text) : Node → Prop
  | .block children _ => SoundIn key children
  | .element name attrs content selfClosing _ =>
    (∃ plan, Attribute.Plan.ofAttrs key attrs = .ok plan) ∧
      ((selfClosing || Markup.isVoidName name) = true → content = []) ∧ SoundIn key content
  | .text .. => True
  | .expression .. => True
  | .conditional _ consequent alternate _ => SoundIn key consequent ∧ SoundAlternate key alternate
  | .iteration _ _ _ body _ => SoundIn key body
  | .hole => False
  | .foreign .. => False

/-- An alternate of sound nodes. -/
def SoundAlternate (key : Text) : Option (List Node) → Prop
  | none => True
  | some nodes => SoundIn key nodes

/-- Nodes that are all sound. -/
def SoundIn (key : Text) : List Node → Prop
  | [] => True
  | node :: rest => node.Sound key ∧ SoundIn key rest

end

end Template

namespace Program

open Template (NodeKind SoundIn SoundAlternate)

variable {key : Text}

theorem finish_compileNodes {parent : NodeKind} {nodes : List Template.Node} {ops : List Op}
    (hops : compileNodes key parent nodes = .ok ops) : finish ops = .ok (ops.filterMap prune?) :=
  (balanced_compileNodes hops).finish_eq

mutual

theorem compileNode_of_sound {node : Template.Node} {parent : NodeKind}
    (hparent : isInline parent = true ∨ node.kind ≠ .expression) (hsound : node.Sound key) :
    ∃ ops, compileNode key parent node = .ok ops := by
  match node with
  | .block children span =>
    rw [compileNode]
    exact compileNodes_of_sound .block rfl hsound
  | .element name attrs content selfClosing spans =>
    obtain ⟨⟨plan, hplan⟩, hempty, hcontent⟩ := hsound
    cases hvoid : (selfClosing || Markup.isVoidName name) with
    | true => exact ⟨_, (compileNode_void_eq_ok hvoid).mpr ⟨plan, hplan, hempty hvoid, rfl⟩⟩
    | false =>
      obtain ⟨inner, hinner⟩ := compileNodes_of_sound .element rfl hcontent
      exact ⟨_, (compileNode_container_eq_ok hvoid).mpr ⟨plan, inner, hplan, hinner, rfl⟩⟩
  | .text value span => exact ⟨_, rfl⟩
  | .expression path span =>
    rcases hparent with hinline | hkind
    · exact ⟨_, compileNode_expression_eq_ok.mpr ⟨hinline, rfl⟩⟩
    · exact absurd rfl hkind
  | .conditional test consequent alternate spans =>
    obtain ⟨inner, hinner⟩ := compileNodes_of_sound .block rfl hsound.1
    obtain ⟨second, hsecond⟩ := compileAlternate_of_sound hsound.2
    exact ⟨_, compileNode_conditional_eq_ok.mpr
      ⟨inner, _, second, hinner, finish_compileNodes hinner, hsecond, rfl⟩⟩
  | .iteration collection keyName valueName body spans =>
    obtain ⟨inner, hinner⟩ := compileNodes_of_sound .block rfl hsound
    exact ⟨_, compileNode_iteration_eq_ok.mpr ⟨inner, _, hinner, finish_compileNodes hinner, rfl⟩⟩
  | .hole => exact absurd hsound id
  | .foreign kind typeName span => exact absurd hsound id

theorem compileAlternate_of_sound {nodes : Option (List Template.Node)}
    (hsound : SoundAlternate key nodes) : ∃ alternate, compileAlternate key nodes = .ok alternate := by
  match nodes with
  | none => exact ⟨none, rfl⟩
  | some nodes =>
    obtain ⟨ops, hops⟩ := compileNodes_of_sound .block rfl hsound
    exact ⟨_, compileAlternate_some_eq_ok.mpr ⟨ops, _, hops, finish_compileNodes hops, rfl⟩⟩

theorem compileNodes_of_sound {nodes : List Template.Node} (parent : NodeKind)
    (hinline : isInline parent = true) (hsound : SoundIn key nodes) :
    ∃ ops, compileNodes key parent nodes = .ok ops := by
  match nodes with
  | [] => exact ⟨[], rfl⟩
  | node :: rest =>
    obtain ⟨first, hfirst⟩ := compileNode_of_sound (.inl hinline) hsound.1
    obtain ⟨others, hothers⟩ := compileNodes_of_sound parent hinline hsound.2
    exact ⟨_, compileNodes_cons_eq_ok.mpr ⟨first, others, hfirst, hothers, rfl⟩⟩

end

/-- A sound template whose root is not an expression is compiled. -/
theorem compile_of_sound {root : Template.Node} (hroot : root.kind ≠ .expression)
    (hsound : root.Sound key) : ∃ program, compile key root = .ok program := by
  obtain ⟨ops, hops⟩ := compileNode_of_sound (.inr hroot) hsound
  exact ⟨_, compile_of_compileNode hops⟩

end Program

/-! ### What reading lets through -/

namespace Template

variable {key : Text}

theorem soundIn_iff {nodes : List Node} : SoundIn key nodes ↔ ∀ node ∈ nodes, node.Sound key := by
  induction nodes with
  | nil => simp [SoundIn]
  | cons node rest ih => simp [SoundIn, ih]

theorem formOf_cases (a : Markup.Attr) :
    formOf a = .boolean ∨ formOf a = .literal ∨ formOf a = .path := by
  cases hvalue : a.hasValue with
  | false => exact .inl (by simp [formOf, hvalue])
  | true =>
    cases hquoted : a.quoted with
    | false => exact .inr (.inr (by simp [formOf, hvalue, hquoted]))
    | true => exact .inr (.inl (by simp [formOf, hvalue, hquoted]))

/-- A spread attribute that was read is accepted: it has no value and names a path. -/
theorem ofSpread_spreadOfMarkup {a : Markup.Attr} {attr : Attr}
    (hread : spreadOfMarkup a = .ok attr) :
    attr.name = a.name ∧ ∃ entry, Attribute.Entry.ofSpread attr = .ok entry := by
  rw [spreadOfMarkup] at hread
  split at hread
  · cases hread
  · dsimp only at hread
    split at hread
    · cases hread
    · rename_i path hpath
      split at hread
      · cases hread
      · rename_i hblank
        cases hread
        refine ⟨rfl, ⟨.spread, a.name, .bound path⟩, ?_⟩
        rw [Attribute.Entry.ofSpread, if_neg (by simp), if_neg hblank]
        simp only [hpath]

/-- The value of an attribute that was read is a path wherever one is needed. -/
theorem attrOfMarkup_eq_ok {a : Markup.Attr} {attr : Attr}
    (hspread : Attribute.isSpread a.name = false) (hread : attrOfMarkup a = .ok attr) :
    attr.name = a.name ∧ attr.form = formOf a ∧ attr.value = a.value ∧
      (needsPath a = true → ∃ path, Path.parse a.value = .ok path) := by
  rw [attrOfMarkup, if_neg (by simp [hspread])] at hread
  dsimp only at hread
  cases hneeds : needsPath a with
  | false =>
    rw [hneeds, if_neg (by decide)] at hread
    cases hread
    exact ⟨rfl, rfl, rfl, fun h => absurd h (by decide)⟩
  | true =>
    rw [hneeds, if_pos rfl] at hread
    cases hpath : Path.parse a.value with
    | error e => simp [hpath] at hread
    | ok path =>
      rw [hpath] at hread
      cases hread
      exact ⟨rfl, rfl, rfl, fun _ => ⟨path, rfl⟩⟩

theorem ofEvent_attrOfMarkup {a : Markup.Attr} {attr : Attr}
    (hevent : Attribute.isEvent a.name = true) (hform : attr.form = formOf a)
    (hvalue : attr.value = a.value)
    (hpath : needsPath a = true → ∃ path, Path.parse a.value = .ok path) :
    ∃ entry, Attribute.Entry.ofEvent attr = .ok entry := by
  rw [Attribute.Entry.ofEvent, hform, hvalue]
  split
  · exact ⟨_, rfl⟩
  · rename_i hgiven
    have hneeds : needsPath a = true := by
      rcases formOf_cases a with hcase | hcase | hcase
      · simp [hcase] at hgiven
      · simp_all [needsPath]
      · rw [needsPath, hcase]
    obtain ⟨path, hparse⟩ := hpath hneeds
    rw [hparse]
    exact ⟨_, rfl⟩

theorem ofValue_attrOfMarkup {a : Markup.Attr} {attr : Attr} (role : Attribute.Role)
    (hform : attr.form = formOf a) (hvalue : attr.value = a.value)
    (hpath : needsPath a = true → ∃ path, Path.parse a.value = .ok path) :
    ∃ entry, Attribute.Entry.ofValue role attr = .ok entry := by
  rw [Attribute.Entry.ofValue, hform, hvalue]
  rcases formOf_cases a with hcase | hcase | hcase
  · rw [hcase]
    exact ⟨_, rfl⟩
  · rw [hcase]
    exact ⟨_, rfl⟩
  · obtain ⟨path, hparse⟩ := hpath (by rw [needsPath, hcase])
    rw [hcase]
    simp only [hparse]
    exact ⟨_, rfl⟩

/-- An attribute that was read has a role. -/
theorem ofAttr_attrOfMarkup (key : Text) {a : Markup.Attr} {attr : Attr} (hread : attrOfMarkup a = .ok attr) :
    ∃ entry, Attribute.Entry.ofAttr key attr = .ok entry := by
  cases hspread : Attribute.isSpread a.name with
  | true =>
    rw [attrOfMarkup, if_pos hspread] at hread
    obtain ⟨hname, hentry⟩ := ofSpread_spreadOfMarkup hread
    rw [Attribute.Entry.ofAttr, hname, if_pos hspread]
    exact hentry
  | false =>
    obtain ⟨hname, hform, hvalue, hpath⟩ := attrOfMarkup_eq_ok hspread hread
    rw [Attribute.Entry.ofAttr, hname, if_neg (by simp [hspread])]
    split
    · rename_i hevent
      exact ofEvent_attrOfMarkup hevent hform hvalue hpath
    · split
      · exact ofValue_attrOfMarkup _ hform hvalue hpath
      · split
        · exact ofValue_attrOfMarkup _ hform hvalue hpath
        · exact ofValue_attrOfMarkup _ hform hvalue hpath

theorem ofAttrs_attrsOfMarkup (attrs : List Markup.Attr) :
    ∃ plan, Attribute.Plan.ofAttrs key (attrsOfMarkup attrs).1 = .ok plan := by
  induction attrs with
  | nil => exact ⟨_, rfl⟩
  | cons a rest ih =>
    obtain ⟨plan, hplan⟩ := ih
    rw [attrsOfMarkup]
    cases hread : attrOfMarkup a with
    | error d => exact ⟨plan, hplan⟩
    | ok attr =>
      obtain ⟨entry, hentry⟩ := ofAttr_attrOfMarkup key hread
      exact ⟨plan.cons entry, by simp [Attribute.Plan.ofAttrs, hentry, hplan, Except.map]⟩

theorem SoundIn.append {first others : List Node} (hfirst : SoundIn key first)
    (hothers : SoundIn key others) : SoundIn key (first ++ others) := by
  rw [soundIn_iff] at *
  intro node hnode
  rcases List.mem_append.mp hnode with hnode | hnode
  · exact hfirst node hnode
  · exact hothers node hnode

theorem SoundIn.consMerged {node : Node} {nodes : List Node} (hnode : node.Sound key)
    (hnodes : SoundIn key nodes) : SoundIn key (consMerged node nodes) := by
  unfold Template.consMerged
  split
  · exact ⟨trivial, hnodes.2⟩
  · exact ⟨hnode, hnodes⟩

theorem SoundIn.mergeTexts {nodes : List Node} (hnodes : SoundIn key nodes) :
    SoundIn key (mergeTexts nodes) := by
  induction nodes with
  | nil => trivial
  | cons node rest ih => exact (ih hnodes.2).consMerged hnodes.1

theorem tokenOfMarkup_sound (t : Markup.Token) : SoundIn key (tokenOfMarkup t).nodes := by
  rw [tokenOfMarkup]
  split
  · rw [expressionOfMarkup]
    split
    · trivial
    · split
      · trivial
      · exact ⟨trivial, trivial⟩
  · split
    · trivial
    · exact ⟨trivial, trivial⟩

theorem tokensOfMarkup_sound (tokens : List Markup.Token) :
    SoundIn key (tokensOfMarkup tokens).nodes := by
  induction tokens with
  | nil => trivial
  | cons t rest ih => exact (tokenOfMarkup_sound t).append ih

theorem elementOfMarkup_sound {name : Text} (attrs : List Markup.Attr) {content : Draft}
    {selfClosing : Bool} (spans : Markup.ElementSpans) (hcontent : SoundIn key content.nodes)
    (hempty : (selfClosing || Markup.isVoidName name) = true → content.nodes = []) :
    SoundIn key (elementOfMarkup name attrs content selfClosing spans).nodes := by
  refine ⟨⟨ofAttrs_attrsOfMarkup attrs, ?_, hcontent.mergeTexts⟩, trivial⟩
  intro hvoid
  rw [Bool.or_assoc, Bool.or_self] at hvoid
  rw [hempty hvoid]
  rfl

theorem conditionalOfMarkup_sound (test : Option Path × List Diagnostic) (elses : List Diagnostic)
    {consequent : Draft} {alternate : Option Alternate} (span : Span)
    (hconsequent : SoundIn key consequent.nodes)
    (halternate : ∀ a ∈ alternate, SoundIn key a.content.nodes) :
    SoundIn key (conditionalOfMarkup test elses consequent alternate span).nodes := by
  rw [conditionalOfMarkup]
  split
  · trivial
  · refine ⟨⟨hconsequent.mergeTexts, ?_⟩, trivial⟩
    cases alternate with
    | none => trivial
    | some a => exact (halternate a rfl).mergeTexts

theorem iterationOfMarkup_sound (loop : Option Loop × List Diagnostic) {body : Draft} (span : Span)
    (hbody : SoundIn key body.nodes) : SoundIn key (iterationOfMarkup loop body span).nodes := by
  rw [iterationOfMarkup]
  split
  · trivial
  · exact ⟨hbody.mergeTexts, trivial⟩

mutual

theorem nodesOfMarkup_sound (skip : Nat) (nodes : List Markup.Node)
    (hnodes : Markup.VoidsEmptyIn nodes) : SoundIn key (nodesOfMarkup skip nodes).nodes := by
  match skip, nodes with
  | _, [] =>
    rw [nodesOfMarkup]
    trivial
  | skip + 1, _ :: rest =>
    rw [nodesOfMarkup]
    exact nodesOfMarkup_sound skip rest hnodes.2
  | 0, .element name attrs children selfClosing spans :: rest =>
    rw [nodesOfMarkup]
    obtain ⟨⟨hempty, hchildren⟩, hrest⟩ := hnodes
    refine (elementOfMarkup_sound attrs spans (nodesOfMarkup_sound 0 children hchildren) ?_).append
      (nodesOfMarkup_sound 0 rest hrest)
    -- Nothing stands between the tags of a void element, so nothing is read from there.
    intro hvoid
    rw [hempty hvoid, nodesOfMarkup]
    rfl
  | 0, .text value tokens span :: rest =>
    rw [nodesOfMarkup]
    exact (tokensOfMarkup_sound tokens).append (nodesOfMarkup_sound 0 rest hnodes.2)
  | 0, .comment body span :: rest =>
    rw [nodesOfMarkup]
    exact nodesOfMarkup_sound 0 rest hnodes.2
  | 0, .block name parameters children spans :: rest =>
    rw [nodesOfMarkup]
    obtain ⟨hchildren, hrest⟩ := hnodes
    split
    · exact (conditionalOfMarkup_sound _ _ spans.whole (nodesOfMarkup_sound 0 children hchildren)
        (alternateOfMarkup_sound rest hrest)).append (nodesOfMarkup_sound _ rest hrest)
    · split
      · exact (iterationOfMarkup_sound _ spans.whole
          (nodesOfMarkup_sound 0 children hchildren)).append (nodesOfMarkup_sound 0 rest hrest)
      · exact SoundIn.append trivial (nodesOfMarkup_sound 0 rest hrest)

theorem alternateOfMarkup_sound (nodes : List Markup.Node) (hnodes : Markup.VoidsEmptyIn nodes) :
    ∀ a ∈ alternateOfMarkup? nodes, SoundIn key a.content.nodes := by
  match nodes with
  | .comment body span :: rest =>
    rw [alternateOfMarkup?]
    exact alternateOfMarkup_sound rest hnodes.2
  | .text value tokens span :: rest =>
    rw [alternateOfMarkup?]
    split
    · exact alternateOfMarkup_sound rest hnodes.2
    · simp
  | .block name parameters children spans :: rest =>
    rw [alternateOfMarkup?]
    split
    · intro a ha
      obtain rfl := Option.some.inj ha
      exact nodesOfMarkup_sound 0 children hnodes.1
    · simp
  | .element .. :: _ => simp [alternateOfMarkup?]
  | [] => simp [alternateOfMarkup?]

end

theorem ofMarkup_sound {nodes : List Markup.Node} (hnodes : Markup.VoidsEmptyIn nodes) :
    (ofMarkup nodes).root.Sound key := by
  rw [ofMarkup]
  exact (nodesOfMarkup_sound 0 nodes hnodes).mergeTexts

end Template

theorem parseMarkup_voidsEmpty {o : Options} {text : Text} {nodes : List Markup.Node}
    (hparse : parseMarkup o text = .ok nodes) : Markup.VoidsEmptyIn nodes := by
  rw [parseMarkup] at hparse
  split at hparse
  · cases hparse
    have htree := Markup.Tree.ofText_voidsEmpty ⟨false⟩ text
    split
    · exact htree
    · exact Markup.removeBlanks_voidsEmpty htree
  · cases hparse

/-- Markup with its blanks treated as the options ask. -/
def Options.treat (o : Options) (nodes : List Markup.Node) : List Markup.Node :=
  if o.preserve then nodes else Markup.removeBlanks nodes

/-- A source is a template if neither its markup nor what the markup stands for has a problem. -/
theorem toOption_parse (o : Options) (text : Text) :
    (parse o text).toOption =
      if (Markup.Tree.ofText ⟨false⟩ text).diagnostics.isEmpty &&
        (Template.ofMarkup (o.treat (Markup.Tree.ofText ⟨false⟩ text).nodes)).diagnostics.isEmpty
      then some (Template.ofMarkup (o.treat (Markup.Tree.ofText ⟨false⟩ text).nodes)).root
      else none := by
  rw [parse, parseMarkup]
  dsimp only
  rw [← Options.treat]
  cases (Markup.Tree.ofText ⟨false⟩ text).diagnostics.isEmpty with
  | false => rfl
  | true =>
    simp only [if_true, Bool.true_and]
    split <;> rfl

theorem parse_eq_ok {o : Options} {text : Text} {root : Template.Node}
    (hparse : parse o text = .ok root) :
    ∃ nodes, parseMarkup o text = .ok nodes ∧ (Template.ofMarkup nodes).diagnostics = [] ∧
      (Template.ofMarkup nodes).root = root := by
  rw [parse] at hparse
  cases hmarkup : parseMarkup o text with
  | error e => simp [hmarkup] at hparse
  | ok nodes =>
    simp only [hmarkup] at hparse
    split at hparse
    · rename_i hnone
      cases hparse
      exact ⟨nodes, rfl, List.isEmpty_iff.mp hnone, rfl⟩
    · cases hparse

/-- A template that was read is sound, and its root is a block. -/
theorem parse_sound {o : Options} {text : Text} {root : Template.Node}
    (hparse : parse o text = .ok root) (key : Text) : root.Sound key ∧ root.kind = .block := by
  obtain ⟨nodes, hmarkup, _, rfl⟩ := parse_eq_ok hparse
  exact ⟨Template.ofMarkup_sound (parseMarkup_voidsEmpty hmarkup), rfl⟩

/-- A source is either malformed or compiled. What was read of it is sound, and is compiled whichever
attribute holds the keys. -/
theorem compile_malformed_or_ok (o : Options) (text : Text) :
    ((∃ e, compile o text = .error (.malformed e)) ∨ ∃ program, compile o text = .ok program) ∧
      ∀ root, parse o text = .ok root → ∀ key, root.Sound key ∧ root.kind ≠ .expression ∧
        ∃ program, Program.compile key root = .ok program := by
  have haccepted : ∀ root, parse o text = .ok root → ∀ key, root.Sound key ∧
      root.kind ≠ .expression ∧ ∃ program, Program.compile key root = .ok program := by
    intro root hparse key
    obtain ⟨hsound, hkind⟩ := parse_sound hparse key
    have hroot : root.kind ≠ .expression := by simp [hkind]
    exact ⟨hsound, hroot, Program.compile_of_sound hroot hsound⟩
  refine ⟨?_, haccepted⟩
  cases hparse : parse o text with
  | error e => exact .inl ⟨e, by rw [compile, hparse]⟩
  | ok root =>
    obtain ⟨_, _, program, hprogram⟩ := haccepted root hparse o.key
    exact .inr ⟨program, by simp [compile, hparse, hprogram]⟩

/-- A void element with a path and a spread, and a loop around a self-closing one. -/
def spreadInVoid : Text := "<br id=a.b ...c>@for (x of xs) \x7b<i onclick=' '/>\x7d"

theorem spreadInVoid_accepted :
    ∃ root, parse .default spreadInVoid = .ok root ∧ root.Sound "id" ∧ root.kind ≠ .expression ∧
      ∃ program, Program.compile "id" root = .ok program := by
  have hread : (parse .default spreadInVoid).isOk = true := by decide +kernel
  cases hparse : parse .default spreadInVoid with
  | error e =>
    rw [hparse] at hread
    cases hread
  | ok root => exact ⟨root, rfl, (compile_malformed_or_ok .default spreadInVoid).2 root hparse "id"⟩

end Stencil
