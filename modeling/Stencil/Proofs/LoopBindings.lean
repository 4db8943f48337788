import Stencil.Proofs.FreeNames
import Stencil.Proofs.KeptContent

/-!
# The names that a loop binds

A header with one name for two things is refused, but it is compared before the usual names are put in
for those that are not given. So the header `__key__ of xs` is accepted: the key that it does not name
gets the name that the value has already, and the value wins. `loop_names_differ_iff` says that this is
the only way to two equal names, and that the key of an entry can then not be reached from the body.
-/

namespace Stencil.Template

/-! ### Loops of a source and of its template -/

def Item.loop? {attr path loop : Type} : Item attr path loop → Option loop
  | .loop l => some l
  | _ => none

/-- The loop headers of a source, in document order. -/
def writtenLoops (nodes : List Markup.Node) : List Text := (writtenItemsIn [] nodes).filterMap Item.loop?

/-- The loops of a template, in document order. -/
def Node.loops (n : Node) : List Loop := n.items.filterMap Item.loop?

theorem Item.Means.loop? {x : WrittenItem} {y : MeantItem} (h : Item.Means x y) :
    Option.Rel LoopMeans x.loop? y.loop? := by
  cases h with
  | loop hloop => exact .some hloop
  | _ => exact .none

theorem parse_loopMeans {o : Options} {text : Text} {root : Node} (hparse : parse o text = .ok root) :
    ∃ nodes, parseMarkup o text = .ok nodes ∧ List.Forall₂ LoopMeans (writtenLoops nodes) root.loops := by
  obtain ⟨nodes, hmarkup, hmeans⟩ := parse_means hparse
  have hpicked : List.Forall₂ LoopMeans ((joined (writtenItemsIn [] nodes)).filterMap Item.loop?)
      ((joined root.items).filterMap Item.loop?) :=
    List.rel_filterMap (fun _ _ hitem => hitem.loop?) hmeans
  rw [filterMap_joined fun _ => rfl, filterMap_joined fun _ => rfl] at hpicked
  exact ⟨nodes, hmarkup, hpicked⟩

/-! ### Names -/

section Names

variable {t : Text} {l : Loop}

theorem isVariableName_nameOr {default name : Text} (hdefault : isVariableName default = true)
    (hname : name = [] ∨ isVariableName name = true) : isVariableName (nameOr default name) = true := by
  rw [nameOr]
  cases name with
  | nil => exact hdefault
  | cons b rest => exact hname.resolve_left (List.cons_ne_nil b rest)

theorem isVariableName_of_names {value names : Text} {key : Option Text}
    (hnames : LoopHeader.Names value key names) :
    isVariableName value = true ∧ ∀ k ∈ key, isVariableName k = true := by
  cases hnames with
  | value hvalue => exact ⟨hvalue, by simp⟩
  | both hvalue _ _ hkey => exact ⟨hvalue, by simpa using hkey⟩

theorem LoopMeans.isVariableName (h : LoopMeans t l) :
    isVariableName l.key = true ∧ isVariableName l.value = true := by
  obtain ⟨said, hsays, rfl⟩ := h
  suffices hnames : (said.key = [] ∨ Template.isVariableName said.key = true) ∧
      (said.value = [] ∨ Template.isVariableName said.value = true) from
    ⟨isVariableName_nameOr (by decide) hnames.1, isVariableName_nameOr (by decide) hnames.2⟩
  cases hsays with
  | path => exact ⟨.inl rfl, .inl rfl⟩
  | @header header path hwritten _ _ _ =>
    obtain ⟨lead, names, gap, gap', tail, -, hnames, -⟩ := hwritten
    obtain ⟨hvalue, hkey⟩ := isVariableName_of_names hnames
    refine ⟨?_, .inr hvalue⟩
    cases hgiven : header.key with
    | none => exact .inl rfl
    | some k => exact .inr (hkey k hgiven)

/-- The names of a header are not left to choice. -/
theorem LoopHeader.Written.names_unique {header other : LoopHeader} (h : LoopHeader.Written t header)
    (hother : LoopHeader.Written t other) : header.value = other.value ∧ header.key = other.key := by
  obtain ⟨found, hfound, hvalue, hkey, -⟩ := LoopHeader.parse?_of_written h
  obtain ⟨found', hfound', hvalue', hkey', -⟩ := LoopHeader.parse?_of_written hother
  obtain rfl : found = found' := Option.some.inj (hfound.symm.trans hfound')
  exact ⟨hvalue.symm.trans hvalue', hkey.symm.trans hkey'⟩

theorem nameOr_nil (default : Text) : nameOr default [] = default := rfl

theorem nameOr_of_isVariableName {name : Text} (hname : isVariableName name = true) (default : Text) :
    nameOr default name = name := by
  cases name with
  | nil => cases hname
  | cons b rest => rfl

/-- The value has the name that the key gets where it is given none. -/
def HidesKey (t : Text) : Prop :=
  ∃ collection, LoopHeader.Written t ⟨defaultKeyName, none, collection⟩

theorem LoopMeans.key_eq_value_iff (h : LoopMeans t l) : l.key = l.value ↔ HidesKey t := by
  obtain ⟨said, hsays, rfl⟩ := h
  cases hsays with
  | path hheader =>
    dsimp only
    rw [nameOr_nil, nameOr_nil]
    constructor
    · intro hsame
      exact absurd hsame (by decide)
    · rintro ⟨collection, hwritten⟩
      exact absurd hwritten (hheader _)
  | @header header path hwritten hnames hgiven hpath =>
    obtain ⟨value, key, collection⟩ := header
    have hparts := hwritten
    obtain ⟨lead, names, gap, gap', tail, -, hwords, -⟩ := hparts
    obtain ⟨hvalue, hkey⟩ := isVariableName_of_names hwords
    dsimp only at hvalue hkey hnames ⊢
    rw [nameOr_of_isVariableName hvalue]
    cases key with
    | none =>
      change defaultKeyName = value ↔ _
      constructor
      · rintro rfl
        exact ⟨collection, hwritten⟩
      · rintro ⟨other, hother⟩
        exact (hother.names_unique hwritten).1
    | some key =>
      rw [Option.getD_some, nameOr_of_isVariableName (hkey key rfl)]
      constructor
      · rintro rfl
        exact absurd rfl hnames
      · rintro ⟨other, hother⟩
        cases (hother.names_unique hwritten).2

end Names

/-! ### What the body can reach -/

/-- There is a path that, written in the body of a loop, leads to this part of the entry, in whatever
context the loop is run. -/
def Loop.Reaches (l : Loop) (part : Value × Value → Value) : Prop :=
  ∃ source path, Path.parse source = .ok path ∧ ∀ context entry,
    Value.resolve path (Program.entryContext context l.key l.value entry) = part entry

theorem parse_name {name : Text} (hname : isVariableName name = true) : Path.parse name = .ok [name] := by
  have hplain : isPlainPath [name] = true := by
    rw [isPlainPath, List.all_cons, isPlainSegment_of_isVariableName hname]
    rfl
  have hparse : Path.parse (Path.toText [name]) = .ok [name] := parse_toText hplain
  exact hparse

namespace LoopMeans

variable {t : Text} {l : Loop}

theorem reaches_value (h : LoopMeans t l) : l.Reaches Prod.snd := by
  refine ⟨l.value, [l.value], parse_name h.isVariableName.2, fun context entry => ?_⟩
  rw [Program.resolve_entryContext, if_pos rfl]

theorem reaches_key_iff (h : LoopMeans t l) : l.Reaches Prod.fst ↔ l.key ≠ l.value := by
  constructor
  · rintro ⟨source, path, -, hreach⟩ hsame
    -- The entry shows in the context by its value alone.
    have hhidden : ∀ entry : Value × Value, Program.entryContext .null l.key l.value entry =
        .overlay .null (some [(l.value, entry.2)]) := by
      intro entry
      rw [Program.entryContext, hsame, Entries.ofList, List.foldl_cons, List.foldl_cons, List.foldl_nil,
        Entries.set, Entries.set, if_pos rfl]
    have hnull := hreach .null (.null, .null)
    have htrue := hreach .null (.bool true, .null)
    rw [hhidden] at hnull htrue
    cases hnull.symm.trans htrue
  · intro hdistinct
    refine ⟨l.key, [l.key], parse_name h.isVariableName.1, fun context entry => ?_⟩
    rw [Program.resolve_entryContext, if_neg (Ne.symm hdistinct), if_pos rfl]

end LoopMeans

/-- In a template that was read, a loop has two different names unless its header calls the value by the
usual name of the key and gives the key no name. The value of an entry can always be reached from the body,
the key exactly if the names differ. -/
theorem loop_names_differ_iff (o : Options) (text : Text) (root : Node) (hparse : parse o text = .ok root) :
    ∃ nodes, parseMarkup o text = .ok nodes ∧
      List.Forall₂ (fun t l => (l.key ≠ l.value ↔ ¬ HidesKey t) ∧ l.Reaches Prod.snd ∧
        (l.Reaches Prod.fst ↔ l.key ≠ l.value)) (writtenLoops nodes) root.loops := by
  obtain ⟨nodes, hmarkup, hloops⟩ := parse_loopMeans hparse
  refine ⟨nodes, hmarkup, hloops.imp fun t l hmeans => ?_⟩
  exact ⟨not_congr hmeans.key_eq_value_iff, hmeans.reaches_value, hmeans.reaches_key_iff⟩

/-- A loop with both names, with neither, and with the usual name of the key for a value whose key is named. -/
def nestedLoops : Text :=
  "@for (v, k of xs) \x7b@for (v.ys) \x7b\x7d\x7d@for ( __key__ ,k  of zs ) \x7b\x7d"

theorem nestedLoops_names_differ :
    ∃ root, parse .default nestedLoops = .ok root ∧
      root.loops = [⟨["xs"], "k", "v"⟩, ⟨["v", "ys"], "__key__", "__val__"⟩, ⟨["zs"], "k", "__key__"⟩] ∧
      ∃ nodes, parseMarkup .default nestedLoops = .ok nodes ∧
        List.Forall₂ (fun t l => (l.key ≠ l.value ↔ ¬ HidesKey t) ∧ l.Reaches Prod.snd ∧
          (l.Reaches Prod.fst ↔ l.key ≠ l.value)) (writtenLoops nodes) root.loops := by
  have hread : ∃ root, parse .default nestedLoops = .ok root ∧ root.loops =
      [⟨["xs"], "k", "v"⟩, ⟨["v", "ys"], "__key__", "__val__"⟩, ⟨["zs"], "k", "__key__"⟩] :=
    ⟨_, parse_eq_ok_iff.mpr ⟨by decide +kernel, by decide +kernel, rfl⟩, by decide +kernel⟩
  obtain ⟨root, hparse, hloops⟩ := hread
  exact ⟨root, hparse, hloops, loop_names_differ_iff .default nestedLoops root hparse⟩

/-- The two names are the same if the value is called by the usual name of the key. -/
theorem unnamed_key_hidden :
    ∃ root, parse .default "@for (__key__ of xs) \x7b\x7b\x7b__key__\x7d\x7d\x7d" = .ok root ∧
      ∃ l ∈ root.loops, l.key = l.value := by
  refine ⟨_, parse_eq_ok_iff.mpr ⟨by decide +kernel, by decide +kernel, rfl⟩, ?_⟩
  decide +kernel

end Stencil.Template
