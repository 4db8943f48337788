import Mathlib.Data.Finset.Card
import Mathlib.Data.List.Induction
import Stencil.Proofs.Declarations
import Stencil.Value.OrderedMap

/-!
# What an ordered map holds

An ordered map is made by setting names one after the other, some of them more than once. What it answers later
can be said by what was set and when: which names it has and in which order, what it has for each of them, and how
many there are. An entry is found and changed where its name was first set, so the order and the values never get
out of step, however often names are set again.

Going through the entries is said in the same way, also when the visitor remembers what it saw and stops early. The
map is described by `IsMapOf`, what is visited by `IsVisited`, and `sets_determine_map` has both.

A map keeps its names and its values apart. That they never get out of step is `Represents`: one step keeps it, so it
holds of every map that was made by setting names, and what is asked of the map is answered by its entries.
-/

namespace Stencil

theorem Entries.get?_eq_none_iff {α : Type} {name : Text} {es : Entries α} : get? name es = none ↔ name ∉ es.names := by
  constructor
  · intro hnone hmem
    induction es with
    | nil => cases hmem
    | cons e rest ih =>
      obtain ⟨n, a⟩ := e
      rw [get?] at hnone
      split at hnone
      · cases hnone
      · rename_i hname
        exact ih hnone (List.mem_of_ne_of_mem (Ne.symm hname) hmem)
  · exact get?_eq_none

/-! ### Names and values kept apart -/

namespace OrderedMap

variable {α σ : Type} {m : OrderedMap α} {es : Entries α}

/-- The names of a map and what they stand for are those of some entries. -/
structure Represents (m : OrderedMap α) (es : Entries α) : Prop where
  names_eq : m.names = es.names
  get?_eq : ∀ name, m.get? name = Entries.get? name es

theorem represents_blank : (blank : OrderedMap α).Represents [] := ⟨rfl, fun _ => rfl⟩

theorem represents_fresh : (fresh : OrderedMap α).Represents [] := ⟨rfl, fun _ => rfl⟩

theorem Represents.isSome_get?_iff (h : m.Represents es) (name : Text) :
    (m.get? name).isSome = true ↔ name ∈ es.names := by
  rw [h.get?_eq, ← Option.ne_none_iff_isSome, Ne, Entries.get?_eq_none_iff, not_not]

theorem Represents.set (h : m.Represents es) (name : Text) (value : α) :
    (m.set name value).Represents (Entries.set name value es) := by
  constructor
  · rw [OrderedMap.set, Entries.names_set, h.names_eq]
    simp only [h.isSome_get?_iff]
  · intro other
    rw [Entries.get?_set, ← h.get?_eq, OrderedMap.set, get?, Option.bind_some]
    simp only [eq_comm]

theorem Represents.setAll (h : m.Represents es) (sets : List (Text × α)) :
    (m.setAll sets).Represents (sets.foldl (fun es e => Entries.set e.1 e.2 es) es) := by
  induction sets generalizing m es with
  | nil => exact h
  | cons e sets ih => exact ih (h.set e.1 e.2)

/-- Names are visited with the values of their entries, and no name is without one. -/
theorem visitNames_eq (nothing : α) (call : σ → Text → α → σ × Bool)
    (hes : ∀ e ∈ es, m.get? e.1 = some e.2) (state : σ) :
    visitNames nothing call m state es.names = Entries.visit call state es := by
  induction es generalizing state with
  | nil => rfl
  | cons e rest ih =>
    obtain ⟨name, value⟩ := e
    obtain ⟨hfirst, hrest⟩ := List.forall_mem_cons.mp hes
    have hnames : Entries.names ((name, value) :: rest) = name :: Entries.names rest := rfl
    rw [hnames, visitNames, hfirst, Option.getD_some, Entries.visit]
    obtain ⟨next, more⟩ := call state name value
    cases more with
    | true => exact ih hrest next
    | false => rfl

theorem Represents.visit_eq (h : m.Represents es) (hes : es.names.Nodup) (nothing : α)
    (call : σ → Text → α → σ × Bool) (state : σ) : m.visit nothing call state = Entries.visit call state es := by
  rw [visit, h.names_eq]
  refine visitNames_eq nothing call ?_ state
  intro e he
  rw [h.get?_eq, Entries.get?_of_mem hes he]

theorem visit_collect (seen es : Entries α) :
    Entries.visit (fun es name value => (es ++ [(name, value)], true)) seen es = seen ++ es := by
  induction es generalizing seen with
  | nil => exact (List.append_nil seen).symm
  | cons e rest ih =>
    rw [Entries.visit]
    dsimp only
    rw [ih, List.append_assoc, List.singleton_append]

theorem Represents.entries_eq (h : m.Represents es) (hes : es.names.Nodup) (nothing : α) : m.entries nothing = es :=
  (h.visit_eq hes nothing _ []).trans (visit_collect [] es)

end OrderedMap

namespace Entries

variable {α σ : Type}

/-! ### Names and values -/

/-- Whether a name had been set when another had not been yet. -/
def SetBefore (sets : List (Text × α)) (name other : Text) : Prop :=
  ∃ before, before <+: sets ∧ name ∈ before.map Prod.fst ∧ other ∉ before.map Prod.fst

theorem SetBefore.append {sets : List (Text × α)} {name other : Text} (h : SetBefore sets name other)
    (more : List (Text × α)) : SetBefore (sets ++ more) name other := by
  obtain ⟨before, hbefore, hname, hother⟩ := h
  exact ⟨before, hbefore.trans (List.prefix_append sets more), hname, hother⟩

theorem ofList_append_singleton (sets : List (Text × α)) (name : Text) (value : α) :
    ofList (sets ++ [(name, value)]) = set name value (ofList sets) := by
  rw [ofList, List.foldl_append]
  rfl

theorem mem_names_ofList (sets : List (Text × α)) (name : Text) :
    name ∈ (ofList sets).names ↔ name ∈ sets.map Prod.fst := by
  rw [names_ofList, List.mem_eraseDups]

/-- The names are in the order in which they were first set. -/
theorem pairwise_names_ofList (sets : List (Text × α)) : (ofList sets).names.Pairwise (SetBefore sets) := by
  induction sets using List.reverseRecOn with
  | nil => exact .nil
  | append_singleton sets e ih =>
    obtain ⟨name, value⟩ := e
    have hkept : (ofList sets).names.Pairwise (SetBefore (sets ++ [(name, value)])) := ih.imp fun h => h.append _
    rw [ofList_append_singleton, names_set]
    split
    · exact hkept
    · rename_i hnew
      -- All names that are there were set before the new one, so `sets` itself tells them apart.
      refine List.pairwise_append.mpr ⟨hkept, List.pairwise_singleton _ _, ?_⟩
      intro earlier hearlier other hother
      rw [List.mem_singleton.mp hother]
      exact ⟨sets, List.prefix_append _ _, (mem_names_ofList sets earlier).mp hearlier,
        fun h => hnew ((mem_names_ofList sets name).mpr h)⟩

/-- A pair among others and one more stands at the end or among the others. -/
theorem append_singleton_eq_iff {sets before after : List (Text × α)} {e found : Text × α} :
    sets ++ [e] = before ++ found :: after ↔
      after = [] ∧ sets = before ∧ e = found ∨ ∃ rest, after = rest ++ [e] ∧ sets = before ++ found :: rest := by
  rcases List.eq_nil_or_concat after with rfl | ⟨rest, last, rfl⟩
  · simp
  · rw [List.concat_eq_append, ← List.cons_append, ← List.append_assoc]
    constructor
    · intro h
      obtain ⟨hsets, hlast⟩ := List.append_inj' h rfl
      obtain rfl := List.singleton_inj.mp hlast
      exact .inr ⟨rest, rfl, hsets⟩
    · rintro (⟨hnil, _⟩ | ⟨others, hothers, rfl⟩)
      · simp at hnil
      · obtain ⟨rfl, hlast⟩ := List.append_inj' hothers rfl
        rw [hlast]

/-- A name has the value that it was last set to. -/
theorem get?_ofList_eq_some_iff (sets : List (Text × α)) (name : Text) (value : α) :
    get? name (ofList sets) = some value ↔
      ∃ before after, sets = before ++ (name, value) :: after ∧ name ∉ after.map Prod.fst := by
  induction sets using List.reverseRecOn with
  | nil => simp [ofList, get?]
  | append_singleton sets e ih =>
    obtain ⟨n, v⟩ := e
    rw [ofList_append_singleton, get?_set]
    simp only [append_singleton_eq_iff]
    split
    · rename_i hname
      subst hname
      constructor
      · intro h
        obtain rfl := Option.some.inj h
        exact ⟨sets, [], .inl ⟨rfl, rfl, rfl⟩, by simp⟩
      · rintro ⟨before, after, ⟨_, _, heq⟩ | ⟨rest, rfl, _⟩, hafter⟩
        · rw [(Prod.mk.inj heq).2]
        · simp at hafter
    · rename_i hname
      rw [ih]
      constructor
      · rintro ⟨before, after, hsets, hafter⟩
        refine ⟨before, after ++ [(n, v)], .inr ⟨after, rfl, hsets⟩, ?_⟩
        simpa [Ne.symm hname] using hafter
      · rintro ⟨before, after, ⟨_, _, heq⟩ | ⟨rest, rfl, hsets⟩, hafter⟩
        · exact absurd (Prod.mk.inj heq).1 hname
        · refine ⟨before, rest, hsets, fun h => hafter ?_⟩
          rw [List.map_append]
          exact List.mem_append_left _ h

/-- The map that results from setting names one after the other, by what it answers. -/
structure IsMapOf (sets : List (Text × α)) (m : Entries α) : Prop where
  once : m.names.Nodup
  mem_names : ∀ name, name ∈ m.names ↔ name ∈ sets.map Prod.fst
  order : m.names.Pairwise (SetBefore sets)
  length_eq : m.length = (sets.map Prod.fst).toFinset.card
  found_iff : ∀ name value, get? name m = some value ↔
    ∃ before after, sets = before ++ (name, value) :: after ∧ name ∉ after.map Prod.fst
  missing_iff : ∀ name, get? name m = none ↔ name ∉ sets.map Prod.fst

theorem isMapOf_ofList (sets : List (Text × α)) : IsMapOf sets (ofList sets) where
  once := nodup_names_ofList sets
  mem_names := mem_names_ofList sets
  order := pairwise_names_ofList sets
  length_eq := by
    have hnames : (sets.map Prod.fst).toFinset = (ofList sets).names.toFinset := by
      ext name
      rw [List.mem_toFinset, List.mem_toFinset, mem_names_ofList]
    rw [hnames, List.toFinset_card_of_nodup (nodup_names_ofList sets), names, List.length_map]
  found_iff := get?_ofList_eq_some_iff sets
  missing_iff name := by rw [get?_eq_none_iff, mem_names_ofList]

/-! ### Visits -/

/-- The state that calls leave, one after the other. -/
def stateAfter (call : σ → Text → α → σ × Bool) (state : σ) (visited : List (Text × α)) : σ :=
  visited.foldl (fun s e => (call s e.1 e.2).1) state

/-- What is visited of some pairs: all of them, or those up to the first at which the call said to stop. -/
structure IsVisited (call : σ → Text → α → σ × Bool) (state : σ) (pairs visited : List (Text × α)) : Prop where
  front : visited <+: pairs
  goesOn : ∀ before e after, visited = before ++ e :: after → after ≠ [] →
    (call (stateAfter call state before) e.1 e.2).2 = true
  ends : visited = pairs ∨
    ∃ before e, visited = before ++ [e] ∧ (call (stateAfter call state before) e.1 e.2).2 = false

theorem isVisited_nil (call : σ → Text → α → σ × Bool) (state : σ) : IsVisited call state [] [] :=
  ⟨List.prefix_refl _, by simp, .inl rfl⟩

theorem isVisited_of_stop {call : σ → Text → α → σ × Bool} {state : σ} {e : Text × α}
    (hstop : (call state e.1 e.2).2 = false) (rest : List (Text × α)) : IsVisited call state (e :: rest) [e] := by
  refine ⟨⟨rest, rfl⟩, ?_, .inr ⟨[], e, rfl, hstop⟩⟩
  intro before found after hsplit hafter
  cases before with
  | nil => exact absurd (List.cons.inj hsplit).2.symm hafter
  | cons first before => simp at hsplit

/-- A call that says to go on leaves its state to the visits after it. -/
theorem IsVisited.cons {call : σ → Text → α → σ × Bool} {state : σ} {e : Text × α} {rest visited : List (Text × α)}
    (h : IsVisited call (call state e.1 e.2).1 rest visited) (hmore : (call state e.1 e.2).2 = true) :
    IsVisited call state (e :: rest) (e :: visited) := by
  refine ⟨List.prefix_cons_inj e |>.mpr h.front, ?_, ?_⟩
  · intro before found after hsplit hafter
    cases before with
    | nil =>
      obtain ⟨rfl, _⟩ := List.cons.inj hsplit
      exact hmore
    | cons first before =>
      obtain ⟨rfl, htail⟩ := List.cons.inj hsplit
      exact h.goesOn before found after htail hafter
  · rcases h.ends with hall | ⟨before, last, hlast, hstop⟩
    · exact .inl (by rw [hall])
    · exact .inr ⟨e :: before, last, by rw [hlast]; rfl, hstop⟩

theorem exists_isVisited (call : σ → Text → α → σ × Bool) (state : σ) (es : Entries α) :
    ∃ visited, IsVisited call state es visited ∧ visit call state es = stateAfter call state visited := by
  induction es generalizing state with
  | nil => exact ⟨[], isVisited_nil call state, rfl⟩
  | cons e rest ih =>
    rw [visit]
    split
    · rename_i next hcall
      obtain ⟨visited, hvisited, hstate⟩ := ih next
      refine ⟨e :: visited, IsVisited.cons ?_ ?_, ?_⟩
      · rw [hcall]
        exact hvisited
      · rw [hcall]
      · rw [hstate, stateAfter, stateAfter, List.foldl_cons, hcall]
    · rename_i next hcall
      exact ⟨[e], isVisited_of_stop (by rw [hcall]) rest, by rw [stateAfter, List.foldl_cons, hcall]; rfl⟩

/-- The entries of a map are its names in order, each with its value. -/
theorem map_eq_map_names {es : Entries α} (hes : es.names.Nodup) :
    es.map (fun e => (e.1, some e.2)) = es.names.map fun name => (name, get? name es) := by
  rw [names, List.map_map]
  apply List.map_congr_left
  intro e he
  rw [Function.comp_apply, get?_of_mem hes he]

/-- Whatever is set, the map has each name that was set once, in the order in which they were first set and with the
value each was last set to, and nothing else. Whatever a visitor remembers and wherever it stops, it is given the
names in that order, each with its value, up to and including the first at which it says to stop. A map that keeps
its names and its values apart has the same names, values and visits, whether or not it had a place for the values
before the first was set. -/
theorem sets_determine_map (sets : List (Text × α)) :
    IsMapOf sets (ofList sets) ∧
      (∃ pairs : List (Text × α),
        pairs.map (fun e => (e.1, some e.2)) = (ofList sets).names.map (fun name => (name, get? name (ofList sets))) ∧
        ∀ (σ : Type) (call : σ → Text → α → σ × Bool) (state : σ), ∃ visited,
          IsVisited call state pairs visited ∧ visit call state (ofList sets) = stateAfter call state visited) ∧
      ∀ start : OrderedMap α, start = .blank ∨ start = .fresh →
        (start.setAll sets).Represents (ofList sets) ∧ (start.setAll sets).size = (ofList sets).length ∧
          ∀ nothing : α, (start.setAll sets).entries nothing = ofList sets ∧
            ∀ (σ : Type) (call : σ → Text → α → σ × Bool) (state : σ),
              (start.setAll sets).visit nothing call state = visit call state (ofList sets) := by
  have honce := nodup_names_ofList sets
  refine ⟨isMapOf_ofList sets, ⟨ofList sets, map_eq_map_names honce, fun _ call state => exists_isVisited call state _⟩,
    ?_⟩
  intro start hstart
  have hrepresents : (start.setAll sets).Represents (ofList sets) := by
    rcases hstart with rfl | rfl
    · exact OrderedMap.represents_blank.setAll sets
    · exact OrderedMap.represents_fresh.setAll sets
  refine ⟨hrepresents, ?_, fun nothing => ⟨hrepresents.entries_eq honce nothing, fun _ call state => ?_⟩⟩
  · rw [OrderedMap.size, hrepresents.names_eq, names, List.length_map]
  · exact hrepresents.visit_eq honce nothing call state

example : names (ofList [("b", 1), ("a", 2), ("b", 3)]) = ["b", "a"] := rfl

end Entries

end Stencil
