import Mathlib.Data.List.Forall2
import Mathlib.Data.List.Induction
import Stencil.Proofs.Declarations
import Stencil.Yaml.Context

/-!
# Mappings that take over others

A mapping is read entry by entry into one ordered map: a key of its own sets its name, and the key `<<` takes
over the names that are not there yet. The two rules act on the same map in the order of the document, yet the
outcome can be said without that order of events. A name that the mapping gives itself has the value given last,
wherever other mappings are taken over; any other name has the value of the first source that has it; and each
name stands where it is first mentioned.

`mapping_toValue_iff` says so of every mapping, and also which mappings can be read.
-/

namespace Stencil

namespace Entries

variable {α : Type}

/-- A map is determined by its names in order and by what it has for each name. -/
theorem eq_of_names_of_get? {es others : Entries α} (hes : es.names.Nodup) (hnames : es.names = others.names)
    (hget : ∀ name, get? name es = get? name others) : es = others := by
  induction es generalizing others with
  | nil => exact (List.map_eq_nil_iff.mp hnames.symm).symm
  | cons e rest ih =>
    obtain ⟨n, a⟩ := e
    obtain ⟨hn, hrest⟩ := List.nodup_cons.mp hes
    cases others with
    | nil => cases hnames
    | cons f others =>
      obtain ⟨m, b⟩ := f
      obtain ⟨hm, hothers⟩ : n = m ∧ names rest = names others := List.cons.inj hnames
      subst hm
      have hvalue := hget n
      rw [get?, get?, if_pos rfl, if_pos rfl] at hvalue
      obtain rfl := Option.some.inj hvalue
      rw [ih hrest hothers]
      intro name
      by_cases hname : n = name
      · rw [← hname, get?_eq_none hn, get?_eq_none (hothers ▸ hn)]
      · simpa only [get?, if_neg hname] using hget name

theorem nodup_eraseDups (mentioned : List Text) : mentioned.eraseDups.Nodup := by
  have hnames := nodup_names_ofList (mentioned.map fun name => (name, ()))
  have hfirst : Prod.fst ∘ (fun name : Text => (name, ())) = id := rfl
  rwa [names_ofList, List.map_map, hfirst, List.map_id] at hnames

/-- If the names stand where they are first mentioned, they still do when one more is set. -/
theorem names_set_of_eraseDups {es : Entries α} {mentioned : List Text} (hes : es.names = mentioned.eraseDups)
    (name : Text) (value : α) : (set name value es).names = (mentioned ++ [name]).eraseDups := by
  rw [names_set, hes, List.eraseDups_append]
  by_cases hname : name ∈ mentioned
  · have hremoved : [name].removeAll mentioned = [] := by simp [List.removeAll, hname]
    rw [if_pos (List.mem_eraseDups.mpr hname), hremoved]
    exact (List.append_nil _).symm
  · have hremoved : [name].removeAll mentioned = [name] := by simp [List.removeAll, hname]
    rw [if_neg (fun h => hname (List.mem_eraseDups.mp h)), hremoved]
    rfl

end Entries

namespace Yaml

/-! ### Taking over -/

theorem takeOver_cons (es : Entries Value) (name : Text) (value : Value) (more : Entries Value) :
    takeOver es ((name, value) :: more) =
      takeOver (if (Entries.get? name es).isSome then es else Entries.set name value es) more := rfl

theorem get?_takeOver (name : Text) (es more : Entries Value) :
    Entries.get? name (takeOver es more) = (Entries.get? name es).or (Entries.get? name more) := by
  induction more generalizing es with
  | nil => exact Option.or_none.symm
  | cons e more ih =>
    obtain ⟨n, v⟩ := e
    rw [takeOver_cons, ih, Entries.get?]
    by_cases hname : n = name
    · subst hname
      cases hknown : Entries.get? n es with
      | none => simp [Entries.get?_set]
      | some known => simp [hknown]
    · rw [if_neg hname]
      split
      · rfl
      · rw [Entries.get?_set, if_neg hname]

theorem names_takeOver {es : Entries Value} {mentioned : List Text} (hes : es.names = mentioned.eraseDups)
    (more : Entries Value) : (takeOver es more).names = (mentioned ++ more.names).eraseDups := by
  induction more generalizing es mentioned with
  | nil => simpa [takeOver, Entries.names] using hes
  | cons e more ih =>
    obtain ⟨n, v⟩ := e
    have hone : (if (Entries.get? n es).isSome then es else Entries.set n v es).names =
        (mentioned ++ [n]).eraseDups := by
      split
      · rename_i hknown
        -- A name that is there already takes no place of its own.
        obtain ⟨known, hget⟩ := Option.isSome_iff_exists.mp hknown
        have hmem : n ∈ es.names := List.mem_map.mpr ⟨_, Entries.mem_of_get? hget, rfl⟩
        rw [← Entries.names_set_of_eraseDups hes n v, Entries.names_set, if_pos hmem]
      · exact Entries.names_set_of_eraseDups hes n v
    rw [takeOver_cons, ih hone, List.append_assoc]
    rfl

/-! ### What the entries of a mapping bring in -/

/-- What is brought into a mapping: a value under a name of its own, or the entries of a source, which is a
mapping that is taken over. -/
inductive Contribution where
  | own (name : Text) (value : Value)
  | source (entries : Entries Value)

namespace Contribution

/-- The names that are mentioned, in order. -/
def names : Contribution → List Text
  | .own name _ => [name]
  | .source entries => entries.names

/-- The value that the mapping itself gives a name. -/
def own? (name : Text) : Contribution → Option Value
  | .own n value => if n = name then some value else none
  | .source _ => none

/-- The value that a source has for a name. -/
def taken? (name : Text) : Contribution → Option Value
  | .own _ _ => none
  | .source entries => Entries.get? name entries

/-- A map after one more contribution. -/
def addTo (es : Entries Value) : Contribution → Entries Value
  | .own name value => Entries.set name value es
  | .source entries => takeOver es entries

/-- The map that contributions amount to: each name stands where it is first mentioned, and has the value that
the mapping itself gives it last, or else that of the first source that has it. -/
structure Settled (cs : List Contribution) (es : Entries Value) : Prop where
  names : es.names = (cs.flatMap Contribution.names).eraseDups
  get? : ∀ name, Entries.get? name es = (cs.filterMap (own? name)).getLast?.or (cs.findSome? (taken? name))

namespace Settled

variable {cs : List Contribution} {es : Entries Value}

theorem add (h : Settled cs es) (c : Contribution) : Settled (cs ++ [c]) (c.addTo es) := by
  have hmentioned : (cs ++ [c]).flatMap Contribution.names = cs.flatMap Contribution.names ++ c.names := by
    simp
  refine ⟨?_, fun name => ?_⟩
  · rw [hmentioned]
    cases c with
    | own name value => exact Entries.names_set_of_eraseDups h.names name value
    | source entries => exact names_takeOver h.names entries
  · cases c with
    | own n value =>
      rw [addTo, Entries.get?_set, h.get?, List.filterMap_append, List.findSome?_append]
      by_cases hname : n = name
      · simp [own?, hname]
      · simp [own?, taken?, hname]
    | source entries =>
      rw [addTo, get?_takeOver, h.get?, List.filterMap_append, List.findSome?_append, Option.or_assoc]
      simp [own?, taken?]

theorem run (cs : List Contribution) : Settled cs (cs.foldl addTo []) := by
  induction cs using List.reverseRecOn with
  | nil => exact ⟨rfl, fun _ => rfl⟩
  | append_singleton cs c ih =>
    rw [List.foldl_append]
    exact ih.add c

theorem unique {others : Entries Value} (h : Settled cs es) (hothers : Settled cs others) : es = others := by
  apply Entries.eq_of_names_of_get?
  · rw [h.names]
    exact Entries.nodup_eraseDups _
  · rw [h.names, hothers.names]
  · intro name
    rw [h.get?, hothers.get?]

theorem iff_run : Settled cs es ↔ es = cs.foldl addTo [] :=
  ⟨fun h => h.unique (run cs), fun h => h ▸ run cs⟩

end Settled

end Contribution

/-- Whether a key says that mappings are taken over: a plain or block scalar `<<` that no other tag is given. -/
def IsMergeKey : Node → Prop
  | .scalar info name style => name = Node.mergeKey ∧ style ≠ .quoted ∧ info.tag = Tag.merge
  | _ => False

/-- What a key and its value bring into a mapping. A key is a scalar. Under `<<` there stands a mapping, or a
mention of one, or a sequence of such, whose items are taken over one after the other. -/
inductive Contributes : Node × Node → List Contribution → Prop
  | own {info name style value v} : ¬ IsMergeKey (.scalar info name style) → value.toValue = .ok v →
    Contributes (.scalar info name style, value) [.own name v]
  | source {key value es} : IsMergeKey key → value.toValue = .ok (.map es) →
    Contributes (key, value) [.source es]
  | sources {key info items sources} : IsMergeKey key →
    List.Forall₂ (fun item es => item.toValue = .ok (.map es)) items sources →
    Contributes (key, .sequence info items) (sources.map .source)

/-! ### Reading a mapping -/

namespace Node

theorem toValue_mapping (info : Info) (entries : List (Node × Node)) :
    (Node.mapping info entries).toValue = (Node.toMap [] entries).map .map := by
  rw [toValue]

theorem toValue_sequence (info : Info) (items : List Node) :
    (Node.sequence info items).toValue = (Node.toValues items).map (.list .any) := by
  rw [toValue]

theorem mergeAll_eq_ok_iff {es others : Entries Value} {items : List Node} :
    mergeAll es items = .ok others ↔
      ∃ sources, List.Forall₂ (fun item es => Node.toValue item = .ok (.map es)) items sources ∧
        others = (sources.map .source).foldl Contribution.addTo es := by
  induction items generalizing es with
  | nil =>
    rw [mergeAll]
    constructor
    · intro h
      exact ⟨[], .nil, (Except.ok.inj h).symm⟩
    · rintro ⟨sources, hsources, rfl⟩
      cases hsources
      rfl
  | cons item items ih =>
    rw [mergeAll]
    constructor
    · intro h
      split at h
      · cases h
      · rename_i v hv
        cases v with
        | map more =>
          obtain ⟨sources, hsources, hothers⟩ := ih.mp h
          exact ⟨more :: sources, .cons hv hsources, hothers⟩
        | _ => cases h
    · rintro ⟨sources, hsources, rfl⟩
      cases hsources with
      | @cons _ more _ sources hitem hrest =>
        rw [hitem]
        exact ih.mpr ⟨sources, hrest, rfl⟩

theorem isMergeKey_scalar {info : Info} {name : Text} {style : Style} :
    IsMergeKey (.scalar info name style) ↔
      (name == mergeKey && style != .quoted && info.tag == Tag.merge) = true := by
  simp [IsMergeKey, and_assoc]

/-- An entry under a key of its own. -/
theorem toMap_own_eq_ok_iff {es others : Entries Value} {info : Info} {name : Text} {style : Style}
    (hown : ¬ IsMergeKey (.scalar info name style)) {value : Node} {rest : List (Node × Node)} :
    toMap es ((.scalar info name style, value) :: rest) = .ok others ↔
      ∃ v, value.toValue = .ok v ∧ toMap (Entries.set name v es) rest = .ok others := by
  rw [toMap.eq_4 _ _ _ _ _ _ (Bool.eq_false_iff.mpr fun h => hown (isMergeKey_scalar.mpr h))]
  cases value.toValue <;> simp

/-- A mapping that is taken over. -/
theorem toMap_source_eq_ok_iff {es others : Entries Value} {info : Info} {name : Text} {style : Style}
    (hmerge : IsMergeKey (.scalar info name style)) {value : Node}
    (hvalue : ∀ info items, value ≠ .sequence info items) {rest : List (Node × Node)} :
    toMap es ((.scalar info name style, value) :: rest) = .ok others ↔
      ∃ more, value.toValue = .ok (.map more) ∧ toMap (takeOver es more) rest = .ok others := by
  rw [toMap.eq_3 _ _ _ _ _ _ (isMergeKey_scalar.mp hmerge) hvalue]
  cases value.toValue with
  | error e => simp
  | ok v => cases v <;> simp [mergeValue]

/-- A sequence of mappings that are taken over. -/
theorem toMap_sources_eq_ok_iff {es others : Entries Value} {info : Info} {name : Text} {style : Style}
    (hmerge : IsMergeKey (.scalar info name style)) {itemsInfo : Info} {items : List Node}
    {rest : List (Node × Node)} :
    toMap es ((.scalar info name style, .sequence itemsInfo items) :: rest) = .ok others ↔
      ∃ merged, mergeAll es items = .ok merged ∧ toMap merged rest = .ok others := by
  rw [toMap.eq_2 _ _ _ _ _ _ _ (isMergeKey_scalar.mp hmerge)]
  cases mergeAll es items <;> simp

/-- One entry of a mapping. -/
theorem toMap_cons_eq_ok_iff {es others : Entries Value} {entry : Node × Node} {rest : List (Node × Node)} :
    toMap es (entry :: rest) = .ok others ↔
      ∃ cs, Contributes entry cs ∧ toMap (cs.foldl Contribution.addTo es) rest = .ok others := by
  constructor
  · intro h
    obtain ⟨key, value⟩ := entry
    cases key with
    | scalar info name style =>
      by_cases hmerge : IsMergeKey (.scalar info name style)
      · cases value with
        | sequence itemsInfo items =>
          obtain ⟨merged, hmerged, hrest⟩ := (toMap_sources_eq_ok_iff hmerge).mp h
          obtain ⟨sources, hsources, rfl⟩ := mergeAll_eq_ok_iff.mp hmerged
          exact ⟨_, .sources hmerge hsources, hrest⟩
        | _ =>
          obtain ⟨more, hmore, hrest⟩ := (toMap_source_eq_ok_iff hmerge (by rintro _ _ ⟨⟩)).mp h
          exact ⟨_, .source hmerge hmore, hrest⟩
      · obtain ⟨v, hv, hrest⟩ := (toMap_own_eq_ok_iff hmerge).mp h
        exact ⟨_, .own hmerge hv, hrest⟩
    | _ =>
      rw [toMap.eq_5 _ _ _ _ (by rintro _ _ _ ⟨⟩)] at h
      cases h
  · rintro ⟨cs, hcs, hrest⟩
    cases hcs with
    | own hown hv => exact (toMap_own_eq_ok_iff hown).mpr ⟨_, hv, hrest⟩
    | @source key value more hmerge hmore =>
      cases key with
      | scalar info name style =>
        refine (toMap_source_eq_ok_iff hmerge ?_).mpr ⟨more, hmore, hrest⟩
        rintro itemsInfo items rfl
        rw [toValue_sequence] at hmore
        cases hitems : toValues items <;> rw [hitems] at hmore <;> cases hmore
      | _ => exact hmerge.elim
    | @sources key itemsInfo items sources hmerge hsources =>
      cases key with
      | scalar info name style =>
        exact (toMap_sources_eq_ok_iff hmerge).mpr ⟨_, mergeAll_eq_ok_iff.mpr ⟨sources, hsources, rfl⟩, hrest⟩
      | _ => exact hmerge.elim

/-- All entries of a mapping. -/
theorem toMap_eq_ok_iff {es others : Entries Value} {entries : List (Node × Node)} :
    toMap es entries = .ok others ↔
      ∃ css, List.Forall₂ Contributes entries css ∧ others = css.flatten.foldl Contribution.addTo es := by
  induction entries generalizing es with
  | nil =>
    rw [toMap]
    constructor
    · intro h
      exact ⟨[], .nil, (Except.ok.inj h).symm⟩
    · rintro ⟨css, hcss, rfl⟩
      cases hcss
      rfl
  | cons entry rest ih =>
    rw [toMap_cons_eq_ok_iff]
    constructor
    · rintro ⟨cs, hcs, hrest⟩
      obtain ⟨css, hcss, rfl⟩ := ih.mp hrest
      exact ⟨cs :: css, .cons hcs hcss, by rw [List.flatten_cons, List.foldl_append]⟩
    · rintro ⟨css, hcss, rfl⟩
      cases hcss with
      | @cons _ cs _ css hcs hrest =>
        exact ⟨cs, hcs, ih.mpr ⟨css, hrest, by rw [List.flatten_cons, List.foldl_append]⟩⟩

/-- A mapping can be read if each of its entries brings something in, and then it is the map that this amounts
to. -/
theorem mapping_toValue_iff (info : Info) (entries : List (Node × Node)) (v : Value) :
    (Node.mapping info entries).toValue = .ok v ↔
      ∃ css es, List.Forall₂ Contributes entries css ∧ Contribution.Settled css.flatten es ∧ v = .map es := by
  have hread : (Node.mapping info entries).toValue = .ok v ↔ ∃ es, toMap [] entries = .ok es ∧ v = .map es := by
    rw [toValue_mapping]
    cases toMap [] entries with
    | error e => exact ⟨by rintro ⟨⟩, by rintro ⟨es, ⟨⟩, _⟩⟩
    | ok es => exact ⟨fun h => ⟨es, rfl, (Except.ok.inj h).symm⟩, by rintro ⟨_, ⟨⟩, rfl⟩; rfl⟩
  rw [hread]
  constructor
  · rintro ⟨es, hes, rfl⟩
    obtain ⟨css, hcss, hsettled⟩ := toMap_eq_ok_iff.mp hes
    exact ⟨css, es, hcss, Contribution.Settled.iff_run.mpr hsettled, rfl⟩
  · rintro ⟨css, es, hcss, hsettled, rfl⟩
    exact ⟨es, toMap_eq_ok_iff.mpr ⟨css, hcss, Contribution.Settled.iff_run.mp hsettled⟩, rfl⟩

end Node

end Yaml

end Stencil
