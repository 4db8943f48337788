import Stencil.Program.Op

/-!
# Rendering depends on free names only

A program looks into its context through paths, and the first name of a path is all it asks the context
for; the rest is asked of what was found there. So a program cannot tell apart two contexts that agree on
the names it asks for, whatever kinds of values they are. A loop binds two names anew for its body. Both
runs bind them to the same key and the same value, so these need not agree outside.

The root path is the exception, since it takes in the context as a whole.
-/

namespace Stencil

namespace Attribute

/-- The path a value is found at, if it comes from the context. -/
def Content.path? : Content → Option Path
  | .bound path => some path
  | _ => none

/-- The paths of the attributes of an element, that of its key included. -/
def Plan.paths (p : Plan) : List Path :=
  (p.key.toList ++ p.entries).filterMap fun e => e.content.path?

end Attribute

namespace Program

mutual

/-- The paths in an operation and in the programs inside it. -/
def Op.paths : Op → List Path
  | .open _ attrs _ => attrs.paths
  | .void _ attrs _ => attrs.paths
  | .close .. => []
  | .literal .. => []
  | .bound path _ => [path]
  | .conditional test consequent alternate _ => test :: (pathsIn consequent ++ pathsElse alternate)
  | .iteration collection _ _ body _ => collection :: pathsIn body

def pathsElse : Option (List Op) → List Path
  | none => []
  | some ops => pathsIn ops

def pathsIn : List Op → List Path
  | [] => []
  | op :: rest => op.paths ++ pathsIn rest

end

/-- The names that paths begin with. -/
def firstNames (paths : List Path) : List Text := paths.filterMap List.head?

mutual

/-- The names that an operation asks its context for. -/
def Op.freeNames : Op → List Text
  | .open _ attrs _ => firstNames attrs.paths
  | .void _ attrs _ => firstNames attrs.paths
  | .close .. => []
  | .literal .. => []
  | .bound path _ => firstNames [path]
  | .conditional test consequent alternate _ =>
    firstNames [test] ++ (freeNames consequent ++ freeNamesElse alternate)
  | .iteration collection key value body _ =>
    firstNames [collection] ++ (freeNames body).filter fun name => name ≠ key ∧ name ≠ value

def freeNamesElse : Option (List Op) → List Text
  | none => []
  | some ops => freeNames ops

/-- The names that a program asks its context for. -/
def freeNames : List Op → List Text
  | [] => []
  | op :: rest => op.freeNames ++ freeNames rest

end

/-- Two contexts in which some names stand for the same values. -/
def Agree (names : List Text) (c d : Value) : Prop :=
  ∀ name ∈ names, Value.resolve [name] c = Value.resolve [name] d

theorem Agree.left {first others : List Text} {c d : Value} (h : Agree (first ++ others) c d) :
    Agree first c d :=
  fun name hname => h name (List.mem_append_left others hname)

theorem Agree.right {first others : List Text} {c d : Value} (h : Agree (first ++ others) c d) :
    Agree others c d :=
  fun name hname => h name (List.mem_append_right first hname)

end Program

/-! ### Paths and attributes -/

open Program (firstNames Agree)

variable {c d : Value}

/-- Behind its first name a path no longer depends on the context. -/
theorem Value.resolve_eq_of_agree {path : Path} {paths : List Path} (hpath : path ∈ paths)
    (hroot : [] ∉ paths) (hagree : Agree (firstNames paths) c d) : resolve path c = resolve path d := by
  cases path with
  | nil => exact absurd hpath hroot
  | cons name rest =>
    have hname : name ∈ firstNames paths := List.mem_filterMap.mpr ⟨name :: rest, hpath, rfl⟩
    change resolve rest (resolve [name] c) = resolve rest (resolve [name] d)
    rw [hagree name hname]

namespace Attribute

theorem Content.resolve_eq_of_agree {content : Content} {paths : List Path}
    (hcontent : ∀ path ∈ content.path?, path ∈ paths) (hroot : [] ∉ paths)
    (hagree : Agree (firstNames paths) c d) : content.resolve c = content.resolve d := by
  cases content with
  | bound path =>
    rw [Content.resolve, Content.resolve, Value.resolve_eq_of_agree (hcontent path rfl) hroot hagree]
  | _ => rfl

theorem Plan.mem_paths {p : Plan} {e : Entry} (he : e ∈ p.key.toList ++ p.entries) :
    ∀ path ∈ e.content.path?, path ∈ p.paths :=
  fun _ hpath => List.mem_filterMap.mpr ⟨e, he, hpath⟩

/-- The attributes of an element depend on the values of their entries, and nothing else. -/
theorem Plan.evaluate_eq {p : Plan}
    (hsame : ∀ e ∈ p.key.toList ++ p.entries, e.content.resolve c = e.content.resolve d) :
    p.evaluate c = p.evaluate d := by
  have hentry : ∀ e ∈ p.entries, e.content.resolve c = e.content.resolve d :=
    fun e he => hsame e (List.mem_append_right _ he)
  have hdeclarations : p.declarations c = p.declarations d := by
    apply congrArg List.flatten (List.map_congr_left _)
    intro e he
    simp only [Declaration.ofEntry, hentry e he]
  have hhandlers : p.handlers c = p.handlers d := by
    apply List.map_congr_left
    intro e he
    rw [hentry e (List.mem_filter.mp he).1]
  have hkey : (p.key.map fun e => (e.content.resolve c).toText) =
      p.key.map fun e => (e.content.resolve d).toText := by
    apply Option.map_congr
    intro e he
    rw [hsame e (List.mem_append_left _ (Option.mem_toList.mpr he))]
  rw [evaluate, evaluate, hdeclarations, hhandlers, hkey]

end Attribute

/-! ### Names bound anew -/

namespace Entries

variable {α : Type}

theorem get?_set (name other : Text) (value : α) (es : Entries α) :
    get? name (set other value es) = if other = name then some value else get? name es := by
  induction es with
  | nil => rfl
  | cons e rest ih =>
    obtain ⟨n, a⟩ := e
    rw [set]
    by_cases hother : n = other
    · rw [if_pos hother, get?, get?, hother]
      split <;> rfl
    · rw [if_neg hother, get?, get?, ih]
      by_cases hname : n = name
      · rw [if_pos hname, if_neg (fun h => hother (hname.trans h.symm)), if_pos hname]
      · rw [if_neg hname, if_neg hname]

theorem get?_eq_none {name : Text} {es : Entries α} (hname : name ∉ es.names) :
    get? name es = none := by
  induction es with
  | nil => rfl
  | cons e rest ih =>
    rw [names, List.map_cons, List.mem_cons, not_or] at hname
    rw [get?, if_neg (Ne.symm hname.1), ih hname.2]

theorem mem_of_get? {name : Text} {a : α} {es : Entries α} (hget : get? name es = some a) :
    (name, a) ∈ es := by
  induction es with
  | nil => cases hget
  | cons e rest ih =>
    obtain ⟨n, b⟩ := e
    rw [get?] at hget
    split at hget
    · rename_i hname
      obtain rfl := Option.some.inj hget
      exact hname ▸ List.mem_cons_self
    · exact List.mem_cons_of_mem _ (ih hget)

theorem names_set (name : Text) (value : α) (es : Entries α) :
    (set name value es).names = if name ∈ es.names then es.names else es.names ++ [name] := by
  induction es with
  | nil => rfl
  | cons e rest ih =>
    obtain ⟨n, a⟩ := e
    rw [set]
    by_cases hn : n = name
    · simp [names, hn]
    · rw [if_neg hn]
      change n :: (set name value rest).names = if name ∈ n :: names rest then _ else _
      rw [ih]
      by_cases hname : name ∈ names rest
      · rw [if_pos hname, if_pos (List.mem_cons_of_mem n hname)]
        rfl
      · rw [if_neg hname, if_neg (fun h => hname (List.mem_of_ne_of_mem (Ne.symm hn) h))]
        rfl

theorem nodup_names_set {es : Entries α} (hes : es.names.Nodup) (name : Text) (value : α) :
    (set name value es).names.Nodup := by
  rw [names_set]
  split
  · exact hes
  · rename_i hname
    refine List.nodup_append.mpr ⟨hes, by simp, ?_⟩
    intro n hn m hm heq
    rw [List.mem_singleton.mp hm] at heq
    exact hname (heq ▸ hn)

/-- A name that was set twice has one entry. -/
theorem nodup_names_ofList (l : List (Text × α)) : (ofList l).names.Nodup := by
  suffices hall : ∀ es : Entries α, es.names.Nodup →
      (l.foldl (fun m e => set e.1 e.2 m) es).names.Nodup from hall [] List.nodup_nil
  induction l with
  | nil => exact fun es hes => hes
  | cons e rest ih => exact fun es hes => ih _ (nodup_names_set hes e.1 e.2)

/-- A map with the entries of another set in it. -/
def merge (es others : Entries α) : Entries α := others.foldl (fun m e => set e.1 e.2 m) es

theorem get?_merge (name : Text) {es others : Entries α} (hothers : others.names.Nodup) :
    get? name (es.merge others) = (get? name others).or (get? name es) := by
  induction others generalizing es with
  | nil => rfl
  | cons e rest ih =>
    obtain ⟨n, a⟩ := e
    obtain ⟨hn, hrest⟩ := List.nodup_cons.mp hothers
    have hstep : es.merge ((n, a) :: rest) = (set n a es).merge rest := rfl
    rw [hstep, ih hrest, get?_set, get?]
    split
    · rename_i hname
      rw [get?_eq_none (hname ▸ hn)]
      rfl
    · rfl

end Entries

namespace Program

theorem resolve_overlay (name : Text) (parent : Value) (bindings : Option (Entries Value)) :
    Value.resolve [name] (.overlay parent bindings) =
      (bindings.bind (Entries.get? name)).getD (Value.resolve [name] parent) := by
  change Value.access name (.overlay parent bindings) = _
  rw [Value.access]
  split
  · rename_i v hv
    rw [hv]
    rfl
  · rename_i hnone
    rw [hnone]
    rfl

/-- The body of a loop sees its own key and value, and the context behind them. -/
theorem resolve_entryContext (context : Value) (key value name : Text) (entry : Value × Value) :
    Value.resolve [name] (entryContext context key value entry) =
      if value = name then entry.2 else if key = name then entry.1
      else Value.resolve [name] context := by
  have hbindings : Entries.ofList [(key, entry.1), (value, entry.2)] =
      Entries.set value entry.2 (Entries.set key entry.1 []) := rfl
  rw [entryContext, resolve_overlay, Option.bind_some, hbindings, Entries.get?_set, Entries.get?_set]
  split
  · rfl
  · split <;> rfl

theorem Agree.entryContext {body : List Op} {key value : Text} (entry : Value × Value)
    (hagree : Agree ((freeNames body).filter fun name => name ≠ key ∧ name ≠ value) c d) :
    Agree (freeNames body) (entryContext c key value entry) (entryContext d key value entry) := by
  intro name hname
  rw [resolve_entryContext, resolve_entryContext]
  split
  · rfl
  · rename_i hvalue
    split
    · rfl
    · rename_i hkey
      apply hagree name
      exact List.mem_filter.mpr ⟨hname, decide_eq_true ⟨Ne.symm hkey, Ne.symm hvalue⟩⟩

/-! ### Running a program -/

theorem opening_eq_of_agree {attrs : Attribute.Plan} (hroot : [] ∉ attrs.paths)
    (hagree : Agree (firstNames attrs.paths) c d) (tag : Text) :
    opening c tag attrs = opening d tag attrs := by
  have hevaluate : attrs.evaluate c = attrs.evaluate d :=
    Attribute.Plan.evaluate_eq fun e he =>
      Attribute.Content.resolve_eq_of_agree (Attribute.Plan.mem_paths he) hroot hagree
  rw [opening, opening, hevaluate]

mutual

theorem runOp_eq_of_agree {op : Op} {c d : Value} (hroot : [] ∉ op.paths)
    (hagree : Agree op.freeNames c d) : runOp op c = runOp op d := by
  match op with
  | .open tag attrs span => rw [runOp, runOp, opening_eq_of_agree hroot hagree]
  | .void tag attrs span => rw [runOp, runOp, opening_eq_of_agree hroot hagree]
  | .close tag span => rfl
  | .literal value span => rfl
  | .bound path span =>
    rw [runOp, runOp, Value.resolve_eq_of_agree (List.mem_singleton_self path) hroot hagree]
  | .conditional test consequent alternate span =>
    rw [Op.paths, List.mem_cons, List.mem_append, not_or, not_or] at hroot
    rw [Op.freeNames] at hagree
    have htest : Value.resolve test c = Value.resolve test d :=
      Value.resolve_eq_of_agree (List.mem_singleton_self test)
        (fun h => hroot.1 (List.mem_singleton.mp h)) hagree.left
    rw [runOp, runOp, htest, run_eq_of_agree hroot.2.1 hagree.right.left,
      runAlternate_eq_of_agree hroot.2.2 hagree.right.right]
  | .iteration collection key value body span =>
    rw [Op.paths, List.mem_cons, not_or] at hroot
    rw [Op.freeNames] at hagree
    have hcollection : Value.resolve collection c = Value.resolve collection d :=
      Value.resolve_eq_of_agree (List.mem_singleton_self collection)
        (fun h => hroot.1 (List.mem_singleton.mp h)) hagree.left
    rw [runOp, runOp, hcollection]
    -- The contexts of the two bodies differ as their own do, but not in the names the loop binds.
    apply congrArg List.flatten (List.map_congr_left _)
    intro entry _
    exact run_eq_of_agree hroot.2 (hagree.right.entryContext entry)

theorem runAlternate_eq_of_agree {alternate : Option (List Op)} {c d : Value}
    (hroot : [] ∉ pathsElse alternate) (hagree : Agree (freeNamesElse alternate) c d) :
    runAlternate alternate c = runAlternate alternate d := by
  match alternate with
  | none => rfl
  | some ops => rw [runAlternate, runAlternate, run_eq_of_agree hroot hagree]

theorem run_eq_of_agree {ops : List Op} {c d : Value} (hroot : [] ∉ pathsIn ops)
    (hagree : Agree (freeNames ops) c d) : run ops c = run ops d := by
  match ops with
  | [] => rfl
  | op :: rest =>
    rw [pathsIn, List.mem_append, not_or] at hroot
    rw [freeNames] at hagree
    rw [run, run, runOp_eq_of_agree hroot.1 hagree.left, run_eq_of_agree hroot.2 hagree.right]

end

/-- Rows with their titles in a loop that binds `row`, under a heading. -/
def titledRows : List Op :=
  [.bound ["heading"] none,
    .iteration ["table", "rows"] "i" "row"
      [.open "li" ⟨some ⟨.key, "key", .bound ["i"]⟩, [⟨.styleClass, "class", .bound ["kind"]⟩,
          ⟨.spread, "...row.attrs", .bound ["row", "attrs"]⟩]⟩ none,
        .bound ["row", "title"] none, .close "li" none] none]

def oneRow : Value := .map [("rows", .list .any [.map [("title", .text "T")]])]

def rowRecord : Value :=
  .record "Row" [(.open, "heading", .text "H"), (.open, "kind", .text "k"), (.open, "table", oneRow)]

/-- A context of another kind, which knows `row` outside of the loop. -/
def rowLayers : Value :=
  .overlay (.map [("row", .int 1), ("table", oneRow), ("kind", .null)])
    (some [("kind", .text "k"), ("heading", .text "H")])

end Program

end Stencil
