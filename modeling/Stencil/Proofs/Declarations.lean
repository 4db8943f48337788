import Stencil.Proofs.FreeNames

/-!
# Attributes are what they are declared to be

The attributes of an element are sorted once and evaluated with an ordered map that is changed in place,
where the class attribute is rewritten at each of its fragments. What comes out can be said without any
of that: the attributes are read in order as a list of declarations, and every declared name is there
once, where it was first declared and with the value it was last declared with. Class attributes are
declarations of the one name `class`, and their values are joined.
-/

namespace Stencil

/-! ### Ordered maps -/

namespace Entries

variable {α : Type}

/-- The last value that is given to a name. -/
def last? (name : Text) (l : List (Text × α)) : Option α :=
  (l.filter fun e => e.1 = name).getLast?.map Prod.snd

theorem last?_cons (name : Text) (e : Text × α) (l : List (Text × α)) :
    last? name (e :: l) = (last? name l).or (if e.1 = name then some e.2 else none) := by
  by_cases hname : e.1 = name
  · rw [last?, List.filter_cons_of_pos (by simpa using hname), List.getLast?_cons, last?, if_pos hname]
    cases (l.filter fun e => e.1 = name).getLast? <;> rfl
  · rw [last?, List.filter_cons_of_neg (by simpa using hname), last?, if_neg hname, Option.or_none]

theorem names_foldl_set {es : Entries α} (hes : es.names.eraseDups = es.names) (l : List (Text × α)) :
    (l.foldl (fun m e => set e.1 e.2 m) es).names = (es.names ++ l.map Prod.fst).eraseDups := by
  induction l generalizing es with
  | nil => simp [hes]
  | cons e l ih =>
    rw [List.foldl_cons, ih]
    · rw [names_set]
      split
      · rename_i hknown
        -- A name that is there already takes no place of its own.
        have hremoved : (e.1 :: l.map Prod.fst).removeAll es.names =
            (l.map Prod.fst).removeAll es.names := by
          simp [List.removeAll, hknown]
        rw [List.map_cons, List.eraseDups_append, List.eraseDups_append, hremoved]
      · rw [List.append_assoc]
        rfl
    · rw [names_set]
      split
      · exact hes
      · rename_i hnew
        have hkept : [e.1].removeAll es.names = [e.1] := by simp [List.removeAll, hnew]
        rw [List.eraseDups_append, hes, hkept]
        rfl

/-- The names of a map in order: each is where it was first set. -/
theorem names_ofList (l : List (Text × α)) : (ofList l).names = (l.map Prod.fst).eraseDups :=
  @names_foldl_set α [] rfl l

theorem get?_foldl_set (name : Text) (l : List (Text × α)) (es : Entries α) :
    get? name (l.foldl (fun m e => set e.1 e.2 m) es) = (last? name l).or (get? name es) := by
  induction l generalizing es with
  | nil => rfl
  | cons e l ih =>
    rw [List.foldl_cons, ih, get?_set, last?_cons, Option.or_assoc]
    split <;> rfl

/-- The value of a name is the one it was last set to. -/
theorem get?_ofList (name : Text) (l : List (Text × α)) : get? name (ofList l) = last? name l :=
  (get?_foldl_set name l []).trans Option.or_none

theorem get?_of_mem {es : Entries α} (hes : es.names.Nodup) {name : Text} {a : α}
    (hmem : (name, a) ∈ es) : get? name es = some a := by
  induction es with
  | nil => cases hmem
  | cons e rest ih =>
    obtain ⟨n, b⟩ := e
    obtain ⟨hn, hrest⟩ := List.nodup_cons.mp hes
    rw [get?]
    rcases List.mem_cons.mp hmem with heq | hmem
    · obtain ⟨rfl, rfl⟩ := Prod.mk.inj heq
      exact if_pos rfl
    · rw [if_neg, ih hrest hmem]
      rintro rfl
      exact hn (List.mem_map.mpr ⟨(n, a), hmem, rfl⟩)

end Entries

namespace Attribute

open Template (Attr)

/-! ### The rule -/

/-- The role that a name gives an attribute. The attribute called `key` holds the key; the empty name
stands for none. -/
def roleIn (key name : Text) : Role :=
  if isSpread name then .spread
  else if isEvent name then .event
  else if key ≠ [] ∧ name = key then .key
  else if isClass name then .styleClass
  else .static

section Rule

variable (key : Text) (context : Value)

/-- What the path in a text leads to; null if it leads nowhere. -/
def valueAt (source : Text) : Value :=
  match Path.parse source with
  | .error _ => .null
  | .ok path =>
    let v := Value.resolve path context
    if v.isMissing then .null else v

/-- The value that an attribute is given. -/
def givenValue (a : Attr) : Value :=
  match a.form with
  | .boolean => .bool true
  | .literal => .text a.value
  | .path => valueAt context a.value
  | .other _ => .null

/-- The value of an event attribute: what its path leads to, and null if it has none. -/
def handlerValue (a : Attr) : Value :=
  if a.form = .boolean ∨ a.value.isBlank then .null else valueAt context a.value

/-- The entries that an attribute spreads: those of the mapping at its path. -/
def spreadEntries (a : Attr) : List (Value × Value) :=
  let source := valueAt context (spreadSource a.name)
  if source.isMapping then source.entries else []

/-- The name under which a static attribute is declared. -/
def declaredName (name : Text) : Text := if isClass name then className else name

/-- What an attribute declares, name by name. -/
def declared (a : Attr) : List (Text × Value) :=
  match roleIn key a.name with
  | .event | .key => []
  | .spread => (spreadEntries context a).map fun e => (declaredName e.1.toText, e.2)
  | .styleClass | .static => [(declaredName a.name, givenValue context a)]

/-- The attributes with a role, in order. -/
def withRole (role : Role) (attrs : List Attr) : List Attr :=
  attrs.filter fun a => roleIn key a.name = role

end Rule

def isTruthValue : Value → Bool
  | .bool _ => true
  | _ => false

/-- The words that some declarations contribute to the class attribute. Truth values and blank texts
contribute none. -/
def classWords (declarations : List (Text × Value)) : List Text :=
  let fragments := declarations.filter fun d => d.1 = className ∧ ¬ isTruthValue d.2
  (fragments.map fun d => d.2.toText.trim).filter fun word => !word.isEmpty

/-- Static attributes that are settled by declarations: each declared name is there once, where it was
declared first, with the value it was declared with last, and the class attribute has all its words. -/
structure Settled (declarations static : List (Text × Value)) : Prop where
  names : static.map Prod.fst = (declarations.map Prod.fst).eraseDups
  once : (static.map Prod.fst).Nodup
  value : ∀ name v, (name, v) ∈ static → name ≠ className → Entries.last? name declarations = some v
  classes : ∀ v, (className, v) ∈ static → v = .text (Text.join " " (classWords declarations))

/-! ### Entries -/

theorem isClass_className : isClass className = true := by decide

theorem declaredName_of_not_isClass {name : Text} (hname : isClass name = false) :
    declaredName name = name ∧ name ≠ className := by
  refine ⟨by rw [declaredName, hname, if_neg (by decide)], ?_⟩
  rintro rfl
  rw [isClass_className] at hname
  cases hname

theorem resolve_bound (context : Value) {source : Text} {path : Path}
    (hpath : Path.parse source = .ok path) :
    (Content.bound path).resolve context = valueAt context source := by
  rw [valueAt, hpath, Content.resolve]
  dsimp only
  generalize Value.resolve path context = v
  cases v <;> rfl

/-- The value that goes with a role. -/
def valueIn (context : Value) (a : Attr) : Role → Value
  | .spread => valueAt context (spreadSource a.name)
  | .event => handlerValue context a
  | _ => givenValue context a

/-- What an attribute was sorted into: its role follows from its name, and its value from its role. -/
structure Entry.Sorts (key : Text) (a : Attr) (e : Entry) : Prop where
  name : e.name = a.name
  role : e.role = roleIn key a.name
  value : ∀ context, e.content.resolve context = valueIn context a e.role

theorem Entry.ofSpread_sorts {key : Text} {a : Attr} {e : Entry} (hspread : isSpread a.name = true)
    (he : ofSpread a = .ok e) : e.Sorts key a := by
  rw [ofSpread] at he
  split at he
  · cases he
  split at he
  · cases he
  split at he
  · cases he
  · rename_i path hpath
    obtain rfl := Except.ok.inj he
    exact ⟨rfl, by rw [roleIn, if_pos hspread], fun context => resolve_bound context hpath⟩

theorem Entry.ofEvent_sorts {key : Text} {a : Attr} {e : Entry} (hrole : roleIn key a.name = .event)
    (he : ofEvent a = .ok e) : e.Sorts key a := by
  rw [ofEvent] at he
  split at he
  · rename_i hblank
    obtain rfl := Except.ok.inj he
    refine ⟨rfl, hrole.symm, fun context => ?_⟩
    rw [valueIn, handlerValue, if_pos (by simpa using hblank)]
    rfl
  · rename_i hblank
    split at he
    · cases he
    · rename_i path hpath
      obtain rfl := Except.ok.inj he
      refine ⟨rfl, hrole.symm, fun context => ?_⟩
      rw [valueIn, handlerValue, if_neg (by simpa using hblank), resolve_bound context hpath]

theorem Entry.ofValue_sorts {key : Text} {a : Attr} {role : Role} {e : Entry}
    (hrole : roleIn key a.name = role) (hvalue : ∀ context, valueIn context a role = givenValue context a)
    (he : ofValue role a = .ok e) : e.Sorts key a := by
  rw [ofValue] at he
  split at he
  · rename_i hform
    obtain rfl := Except.ok.inj he
    refine ⟨rfl, hrole.symm, fun context => ?_⟩
    rw [hvalue, givenValue, hform]
    rfl
  · rename_i hform
    obtain rfl := Except.ok.inj he
    refine ⟨rfl, hrole.symm, fun context => ?_⟩
    rw [hvalue, givenValue, hform]
    rfl
  · rename_i hform
    split at he
    · cases he
    · rename_i path hpath
      obtain rfl := Except.ok.inj he
      refine ⟨rfl, hrole.symm, fun context => ?_⟩
      rw [hvalue, givenValue, hform]
      exact resolve_bound context hpath
  · cases he

theorem Entry.ofAttr_sorts {key : Text} {a : Attr} {e : Entry} (he : ofAttr key a = .ok e) :
    e.Sorts key a := by
  rw [ofAttr] at he
  split at he
  · rename_i hspread
    exact ofSpread_sorts hspread he
  rename_i hspread
  split at he
  · rename_i hevent
    exact ofEvent_sorts (by rw [roleIn, if_neg hspread, if_pos hevent]) he
  rename_i hevent
  split at he
  · rename_i hkey
    refine ofValue_sorts ?_ (fun _ => rfl) he
    rw [roleIn, if_neg hspread, if_neg hevent, if_pos (by simpa using hkey)]
  rename_i hkey
  have hother : ¬ (key ≠ [] ∧ a.name = key) := by simpa using hkey
  split at he
  · rename_i hclass
    refine ofValue_sorts ?_ (fun _ => rfl) he
    rw [roleIn, if_neg hspread, if_neg hevent, if_neg hother, if_pos hclass]
  · rename_i hclass
    refine ofValue_sorts ?_ (fun _ => rfl) he
    rw [roleIn, if_neg hspread, if_neg hevent, if_neg hother, if_neg hclass]

theorem isClass_of_roleIn {key name : Text} :
    (roleIn key name = .styleClass → isClass name = true) ∧
      (roleIn key name = .static → isClass name = false) := by
  unfold roleIn
  repeat' split
  all_goals simp_all

/-! ### Declarations -/

namespace Declaration

/-- A declaration as a name and a value. -/
def pair : Declaration → Text × Value
  | .value name v => (name, v)
  | .fragment v => (className, v)

/-- A declaration that does not take a fragment for a value. -/
def IsProper : Declaration → Prop
  | .value name _ => name ≠ className
  | .fragment _ => True

theorem ofPair_spec (e : Value × Value) :
    (ofPair e).pair = (declaredName e.1.toText, e.2) ∧ (ofPair e).IsProper := by
  rw [ofPair]
  split
  · rename_i hclass
    exact ⟨by rw [declaredName, if_pos hclass]; rfl, trivial⟩
  · rename_i hclass
    obtain ⟨hname, hne⟩ := declaredName_of_not_isClass (by simpa using hclass)
    exact ⟨by rw [hname]; rfl, hne⟩

/-- An entry contributes what its attribute declares. -/
theorem ofEntry_spec {key : Text} {a : Attr} {e : Entry} (he : e.Sorts key a) (context : Value) :
    (ofEntry context e).map pair = declared key context a ∧ ∀ d ∈ ofEntry context e, d.IsProper := by
  have hvalue := he.value context
  rw [ofEntry, declared, ← he.role]
  cases hrole : e.role with
  | event => simp
  | key => simp
  | styleClass =>
    have hclass := isClass_of_roleIn.1 (he.role.symm.trans hrole)
    rw [hrole] at hvalue
    simp [pair, IsProper, declaredName, hclass, hvalue, valueIn]
  | static =>
    obtain ⟨hname, hne⟩ := declaredName_of_not_isClass (isClass_of_roleIn.2 (he.role.symm.trans hrole))
    rw [hrole] at hvalue
    simp [pair, IsProper, hname, hne, hvalue, valueIn, he.name]
  | spread =>
    rw [hrole] at hvalue
    rw [hvalue, valueIn, spreadEntries]
    dsimp only
    split
    · rw [List.map_map]
      refine ⟨List.map_congr_left fun entry _ => (ofPair_spec entry).1, ?_⟩
      intro d hd
      obtain ⟨entry, -, rfl⟩ := List.mem_map.mp hd
      exact (ofPair_spec entry).2
    · simp

end Declaration

namespace Plan

variable {key : Text}

/-- What can be said of a plan and the attributes it was made from. -/
structure Sorts (key : Text) (attrs : List Attr) (p : Plan) : Prop where
  declarations : ∀ context, (p.declarations context).map Declaration.pair =
    attrs.flatMap (declared key context)
  proper : ∀ context, ∀ d ∈ p.declarations context, d.IsProper
  handlers : ∀ context, p.handlers context =
    (withRole key .event attrs).map fun a => (a.name, handlerValue context a)
  key : ∀ context, (p.key.map fun e => (e.content.resolve context).toText) =
    (withRole key .key attrs).getLast?.map fun a => (givenValue context a).toText

theorem sorts_empty : empty.Sorts key [] :=
  ⟨fun _ => rfl, fun _ _ hd => (List.not_mem_nil hd).elim, fun _ => rfl, fun _ => rfl⟩

theorem Sorts.cons_key {attrs : List Attr} {p : Plan} (hp : p.Sorts key attrs) {a : Attr} {e : Entry}
    (he : e.Sorts key a) (hrole : e.role = .key) :
    (p.cons e).Sorts key (a :: attrs) := by
  have hplan : p.cons e = ⟨p.key.or (some e), p.entries⟩ := by rw [Plan.cons, if_pos hrole]
  have hattr : roleIn key a.name = .key := he.role.symm.trans hrole
  have hkeys : withRole key .key (a :: attrs) = a :: withRole key .key attrs := by
    simp [withRole, hattr]
  have hevents : withRole key .event (a :: attrs) = withRole key .event attrs := by
    simp [withRole, hattr]
  have hnone : ∀ context, declared key context a = [] := by
    intro context
    rw [declared, hattr]
  rw [hplan]
  refine ⟨fun context => ?_, hp.proper, fun context => ?_, fun context => ?_⟩
  · rw [List.flatMap_cons, hnone, List.nil_append]
    exact hp.declarations context
  · rw [hevents]
    exact hp.handlers context
  · -- The last key counts, so a key in front is only looked at if there is no other.
    have hlast := hp.key context
    have hvalue := he.value context
    rw [hrole] at hvalue
    rw [hkeys, List.getLast?_cons]
    cases hkey : p.key with
    | none =>
      rw [hkey] at hlast
      have hnokey := Option.map_eq_none_iff.mp hlast.symm
      rw [hnokey]
      exact congrArg (fun v => some v.toText) hvalue
    | some other =>
      rw [hkey] at hlast
      obtain ⟨b, hb, htext⟩ := Option.map_eq_some_iff.mp hlast.symm
      rw [hb]
      exact congrArg some htext.symm

theorem Sorts.cons_entry {attrs : List Attr} {p : Plan} (hp : p.Sorts key attrs) {a : Attr} {e : Entry}
    (he : e.Sorts key a) (hrole : e.role ≠ .key) :
    (p.cons e).Sorts key (a :: attrs) := by
  have hplan : p.cons e = ⟨p.key, e :: p.entries⟩ := by rw [Plan.cons, if_neg hrole]
  have hattr : roleIn key a.name ≠ .key := fun h => hrole (he.role.trans h)
  have hkeys : withRole key .key (a :: attrs) = withRole key .key attrs := by
    simp [withRole, hattr]
  rw [hplan]
  refine ⟨fun context => ?_, fun context => ?_, fun context => ?_, fun context => ?_⟩
  · have hsplit : Plan.declarations context ⟨p.key, e :: p.entries⟩ =
        Declaration.ofEntry context e ++ p.declarations context := List.flatMap_cons
    rw [hsplit, List.map_append, (Declaration.ofEntry_spec he context).1, hp.declarations,
      List.flatMap_cons]
  · intro d hd
    rcases List.mem_append.mp (show d ∈ Declaration.ofEntry context e ++ _ from hd) with hd | hd
    · exact (Declaration.ofEntry_spec he context).2 d hd
    · exact hp.proper context d hd
  · have hothers := hp.handlers context
    rw [Plan.handlers] at hothers
    by_cases hevent : e.role = .event
    · have hevents : withRole key .event (a :: attrs) = a :: withRole key .event attrs := by
        simp [withRole, he.role.symm.trans hevent]
      have hvalue := he.value context
      rw [hevent] at hvalue
      rw [hevents, List.map_cons, Plan.handlers, List.filter_cons_of_pos (by simpa using hevent),
        List.map_cons, hothers, he.name, hvalue, valueIn]
    · have hevents : withRole key .event (a :: attrs) = withRole key .event attrs := by
        have hother : roleIn key a.name ≠ .event := fun h => hevent (he.role.trans h)
        simp [withRole, hother]
      rw [hevents, Plan.handlers, List.filter_cons_of_neg (by simpa using hevent), hothers]
  · rw [hkeys]
    exact hp.key context

theorem Sorts.cons {attrs : List Attr} {p : Plan} (hp : p.Sorts key attrs) {a : Attr} {e : Entry}
    (he : e.Sorts key a) : (p.cons e).Sorts key (a :: attrs) := by
  by_cases hrole : e.role = .key
  · exact hp.cons_key he hrole
  · exact hp.cons_entry he hrole

theorem ofAttrs_sorts {attrs : List Attr} {p : Plan} (hp : ofAttrs key attrs = .ok p) :
    p.Sorts key attrs := by
  induction attrs generalizing p with
  | nil =>
    obtain rfl := Except.ok.inj hp
    exact sorts_empty
  | cons a attrs ih =>
    rw [ofAttrs] at hp
    split at hp
    · cases hp
    · rename_i e he
      cases hrest : ofAttrs key attrs with
      | error cause =>
        rw [hrest] at hp
        cases hp
      | ok rest =>
        rw [hrest] at hp
        obtain rfl := Except.ok.inj hp
        exact (ih hrest).cons (Entry.ofAttr_sorts he)

end Plan

/-! ### Assembling -/

namespace Assembly

/-- Class words with those of one more fragment. -/
def addWord (words : List Text) (v : Value) : List Text :=
  let t := Declaration.fragmentText v
  if t.isEmpty then words else words ++ [t]

/-- What is set in the map of static attributes for some declarations, when `words` are the class words
before them. -/
def settings (words : List Text) : List Declaration → List (Text × Value)
  | [] => []
  | .value name v :: rest => (name, v) :: settings words rest
  | .fragment v :: rest =>
    (className, .text (Text.join " " (addWord words v))) :: settings (addWord words v) rest

theorem attrs_foldl_add (ds : List Declaration) (a : Assembly) :
    (ds.foldl add a).attrs = (settings a.classes ds).foldl (fun m e => m.set e.1 e.2) a.attrs := by
  induction ds generalizing a with
  | nil => rfl
  | cons d ds ih =>
    rw [List.foldl_cons, ih]
    cases d <;> rfl

theorem names_settings (words : List Text) (ds : List Declaration) :
    (settings words ds).map Prod.fst = (ds.map Declaration.pair).map Prod.fst := by
  induction ds generalizing words with
  | nil => rfl
  | cons d ds ih =>
    cases d with
    | value name v => exact congrArg (name :: ·) (ih words)
    | fragment v => exact congrArg (className :: ·) (ih _)

theorem last?_settings {name : Text} (hname : name ≠ className) (words : List Text)
    (ds : List Declaration) :
    Entries.last? name (settings words ds) = Entries.last? name (ds.map Declaration.pair) := by
  induction ds generalizing words with
  | nil => rfl
  | cons d ds ih =>
    cases d with
    | value n v =>
      rw [settings, List.map_cons, Entries.last?_cons, Entries.last?_cons, ih]
      rfl
    | fragment v =>
      have hother : (Declaration.fragment v).pair.1 ≠ name := Ne.symm hname
      rw [settings, List.map_cons, Entries.last?_cons, Entries.last?_cons, ih,
        if_neg (Ne.symm hname), if_neg hother]

theorem classWords_eq_nil {l : List (Text × Value)} (hnone : Entries.last? className l = none) :
    classWords l = [] := by
  have hfilter : (l.filter fun e => e.1 = className) = [] := by
    simpa [Entries.last?] using hnone
  have hfragments : (l.filter fun d => d.1 = className ∧ ¬ isTruthValue d.2) = [] := by
    rw [List.filter_eq_nil_iff] at hfilter ⊢
    intro d hd hclass
    exact hfilter d hd (by simpa using (of_decide_eq_true hclass).1)
  rw [classWords, hfragments]
  rfl

theorem classWords_cons_value {name : Text} (hname : name ≠ className) (v : Value)
    (l : List (Text × Value)) : classWords ((name, v) :: l) = classWords l := by
  simp [classWords, hname]

theorem append_classWords_cons (words : List Text) (v : Value) (l : List (Text × Value)) :
    words ++ classWords ((className, v) :: l) = addWord words v ++ classWords l := by
  by_cases htruth : isTruthValue v = true
  · have hempty : Declaration.fragmentText v = [] := by
      cases v with
      | bool b => rfl
      | _ => cases htruth
    simp [classWords, addWord, htruth, hempty]
  · have htext : Declaration.fragmentText v = v.toText.trim := by
      cases v with
      | bool b => exact absurd rfl htruth
      | _ => rfl
    cases hempty : v.toText.trim.isEmpty <;> simp [classWords, addWord, htruth, htext, hempty]

/-- The class attribute is set last to all its words. -/
theorem last?_settings_class {ds : List Declaration} (hds : ∀ d ∈ ds, d.IsProper) (words : List Text) :
    Entries.last? className (settings words ds) =
      (Entries.last? className (ds.map Declaration.pair)).map fun _ =>
        .text (Text.join " " (words ++ classWords (ds.map Declaration.pair))) := by
  induction ds generalizing words with
  | nil => rfl
  | cons d ds ih =>
    have hrest := ih fun d hd => hds d (List.mem_cons_of_mem _ hd)
    have hd := hds d List.mem_cons_self
    cases d with
    | value name v =>
      have hname : name ≠ className := hd
      change Entries.last? className ((name, v) :: settings words ds) =
        (Entries.last? className ((name, v) :: ds.map Declaration.pair)).map fun _ =>
          .text (Text.join " " (words ++ classWords ((name, v) :: ds.map Declaration.pair)))
      rw [Entries.last?_cons, Entries.last?_cons, if_neg hname, Option.or_none, Option.or_none,
        hrest, classWords_cons_value hname]
    | fragment v =>
      change Entries.last? className (_ :: settings (addWord words v) ds) =
        (Entries.last? className ((className, v) :: ds.map Declaration.pair)).map fun _ =>
          .text (Text.join " " (words ++ classWords ((className, v) :: ds.map Declaration.pair)))
      rw [Entries.last?_cons, Entries.last?_cons, if_pos rfl, if_pos rfl, hrest,
        append_classWords_cons]
      -- Behind the last fragment there are no words, so what it was set to has all of them.
      cases hlater : Entries.last? className (ds.map Declaration.pair) with
      | none => simp [classWords_eq_nil hlater]
      | some w => rfl

/-- Declarations settle the static attributes that they are assembled to. -/
theorem settled_ofDeclarations {ds : List Declaration} (hds : ∀ d ∈ ds, d.IsProper) :
    Settled (ds.map Declaration.pair) (ofDeclarations ds).attrs := by
  have hattrs : (ofDeclarations ds).attrs = Entries.ofList (settings [] ds) := attrs_foldl_add ds ⟨[], []⟩
  have honce : (ofDeclarations ds).attrs.names.Nodup := hattrs ▸ Entries.nodup_names_ofList _
  have hlast : ∀ {name : Text} {v : Value}, (name, v) ∈ (ofDeclarations ds).attrs →
      Entries.last? name (settings [] ds) = some v := by
    intro name v hmem
    rw [← Entries.get?_ofList, ← hattrs]
    exact Entries.get?_of_mem honce hmem
  refine ⟨?_, honce, ?_, ?_⟩
  · change (ofDeclarations ds).attrs.names = _
    rw [hattrs, Entries.names_ofList, names_settings]
  · intro name v hmem hname
    rw [← last?_settings hname []]
    exact hlast hmem
  · intro v hmem
    have hclass := hlast hmem
    rw [last?_settings_class hds] at hclass
    obtain ⟨-, -, rfl⟩ := Option.map_eq_some_iff.mp hclass
    rfl

end Assembly

/-- The attributes of an element in a context are settled by what they declare there. Handlers are the
event attributes in order, and the key is the text of the last key attribute. -/
theorem evaluate_settled {key : Text} {attrs : List Attr} {plan : Plan}
    (hplan : Plan.ofAttrs key attrs = .ok plan) (context : Value) :
    Settled (attrs.flatMap (declared key context)) (plan.evaluate context).static ∧
      (plan.evaluate context).dynamic =
        (withRole key .event attrs).map (fun a => (a.name, handlerValue context a)) ∧
      (plan.evaluate context).key =
        ((withRole key .key attrs).getLast?.map fun a => (givenValue context a).toText).getD [] := by
  have hsorts := Plan.ofAttrs_sorts hplan
  refine ⟨?_, hsorts.handlers context, congrArg (·.getD []) (hsorts.key context)⟩
  rw [← hsorts.declarations context]
  exact Assembly.settled_ofDeclarations (hsorts.proper context)

/-- A field whose attributes are declared over again by a mapping, under other spellings of `class`. -/
def searchField : List Attr :=
  [⟨"type", .literal, "text", ⟨none, none, none⟩⟩, ⟨"CLASS", .literal, " field ", ⟨none, none, none⟩⟩,
    ⟨"...props", .boolean, [], ⟨none, none, none⟩⟩, ⟨"onInput", .literal, "search", ⟨none, none, none⟩⟩,
    ⟨"row", .path, "id", ⟨none, none, none⟩⟩, ⟨"size", .path, "gone", ⟨none, none, none⟩⟩]

def searchContext : Value :=
  .map [("id", .int 7), ("search", .func),
    ("props", .map [("size", .int 3), ("Class", .text "wide"), ("type", .text "email"),
      ("class", .bool true)])]

theorem searchField_settled : ∃ plan, Plan.ofAttrs "row" searchField = .ok plan ∧
    (plan.evaluate searchContext).static =
      ([("type", .text "email"), ("class", .text "field wide"), ("size", .null)] : Entries Value) ∧
    Settled (searchField.flatMap (declared "row" searchContext)) (plan.evaluate searchContext).static ∧
    (plan.evaluate searchContext).dynamic = ([("onInput", .func)] : Entries Value) ∧
    (plan.evaluate searchContext).key = "7" := by
  have hplan : Plan.ofAttrs "row" searchField = .ok
      ⟨some ⟨.key, "row", .bound ["id"]⟩,
        [⟨.static, "type", .literal "text"⟩, ⟨.styleClass, "CLASS", .literal " field "⟩,
          ⟨.spread, "...props", .bound ["props"]⟩, ⟨.event, "onInput", .bound ["search"]⟩,
          ⟨.static, "size", .bound ["gone"]⟩]⟩ := by rfl
  have hsettled := evaluate_settled hplan searchContext
  exact ⟨_, hplan, rfl, hsettled.1, hsettled.2.1, hsettled.2.2⟩

end Attribute

end Stencil
