import Stencil.Proofs.FreeNames
import Stencil.Proofs.Meaning

/-!
# Loop variables can be renamed

A loop binds its key and its value under names of its own choice. `loop_names_renamed` says that either
may be called otherwise, wherever in a program the loop stands, if the new name is neither asked for nor
bound anew in its body and the paths that mean it are renamed with it. A loop inside that binds the old
name again stops the renaming.

Names are looked up in overlays that lie one over the other, down to a context of any kind, and the two
runs build different ones. They are compared only by what they answer: what one context knows by a name,
the other knows by that name renamed.
-/

namespace Stencil

/-! ### Renaming -/

/-- A name, or the new one in place of the old. -/
def renamed (old new name : Text) : Text := if name = old then new else name

theorem renamed_old (old new : Text) : renamed old new old = new := if_pos rfl

theorem renamed_other {old name : Text} (hname : name ≠ old) (new : Text) : renamed old new name = name :=
  if_neg hname

/-- A path with its first name renamed. -/
def Path.rename (old new : Text) : Path → Path
  | [] => []
  | name :: rest => renamed old new name :: rest

namespace Attribute

def Content.rename (old new : Text) : Content → Content
  | .bound path => .bound (path.rename old new)
  | content => content

def Entry.rename (old new : Text) (e : Entry) : Entry := { e with content := e.content.rename old new }

def Plan.rename (old new : Text) (p : Plan) : Plan :=
  ⟨p.key.map (Entry.rename old new), p.entries.map (Entry.rename old new)⟩

end Attribute

namespace Program

mutual

/-- An operation in which the paths that begin with the old name begin with the new one, except where a
loop binds the old name again. -/
def Op.rename (old new : Text) : Op → Op
  | .open tag attrs span => .open tag (attrs.rename old new) span
  | .void tag attrs span => .void tag (attrs.rename old new) span
  | .close tag span => .close tag span
  | .literal value span => .literal value span
  | .bound path span => .bound (path.rename old new) span
  | .conditional test consequent alternate span =>
    .conditional (test.rename old new) (renameIn old new consequent) (renameElse old new alternate) span
  | .iteration collection key value body span =>
    .iteration (collection.rename old new) key value
      (if key = old ∨ value = old then body else renameIn old new body) span

def renameElse (old new : Text) : Option (List Op) → Option (List Op)
  | none => none
  | some ops => some (renameIn old new ops)

def renameIn (old new : Text) : List Op → List Op
  | [] => []
  | op :: rest => op.rename old new :: renameIn old new rest

end

mutual

/-- The names that the loops in an operation bind. -/
def Op.boundNames : Op → List Text
  | .conditional _ consequent alternate _ => boundNames consequent ++ boundNamesElse alternate
  | .iteration _ key value body _ => key :: value :: boundNames body
  | _ => []

def boundNamesElse : Option (List Op) → List Text
  | none => []
  | some ops => boundNames ops

/-- The names that the loops in a program bind. -/
def boundNames : List Op → List Text
  | [] => []
  | op :: rest => op.boundNames ++ boundNames rest

end

/-! ### Agreeing along a renaming -/

/-- What one context knows by some names, the other knows by the same names renamed. -/
def AgreeRenamed (old new : Text) (names : List Text) (c d : Value) : Prop :=
  ∀ name ∈ names, Value.resolve [name] c = Value.resolve [renamed old new name] d

variable {old new : Text} {c d : Value}

namespace AgreeRenamed

theorem left {first others : List Text} (h : AgreeRenamed old new (first ++ others) c d) :
    AgreeRenamed old new first c d :=
  fun name hname => h name (List.mem_append_left others hname)

theorem right {first others : List Text} (h : AgreeRenamed old new (first ++ others) c d) :
    AgreeRenamed old new others c d :=
  fun name hname => h name (List.mem_append_right first hname)

/-- Where the old name is not asked for, nothing is renamed. -/
theorem agree {names : List Text} (h : AgreeRenamed old new names c d) (hold : old ∉ names) :
    Agree names c d := by
  intro name hname
  have hother : name ≠ old := by
    rintro rfl
    exact hold hname
  rw [h name hname, renamed_other hother]

/-- The body of a loop that binds neither name agrees as the loop does. -/
theorem entryContext {body : List Op} {key value : Text} (entry : Value × Value)
    (hold : ¬ (key = old ∨ value = old)) (hkey : new ≠ key) (hvalue : new ≠ value)
    (h : AgreeRenamed old new ((freeNames body).filter fun name => name ≠ key ∧ name ≠ value) c d) :
    AgreeRenamed old new (freeNames body) (entryContext c key value entry)
      (entryContext d key value entry) := by
  rw [not_or] at hold
  intro name hname
  rw [resolve_entryContext, resolve_entryContext]
  by_cases hbound : value = name ∨ key = name
  · -- A name that the loop binds is not the old one, and means the entry on both sides.
    have hother : name ≠ old := by
      rintro rfl
      exact hbound.elim hold.2 hold.1
    rw [renamed_other hother]
    rcases hbound with rfl | rfl
    · rw [if_pos rfl, if_pos rfl]
    · rw [if_pos rfl, if_pos rfl]
  · rw [not_or] at hbound
    have hfree : value ≠ renamed old new name ∧ key ≠ renamed old new name := by
      rw [renamed]
      split
      · exact ⟨Ne.symm hvalue, Ne.symm hkey⟩
      · exact hbound
    rw [if_neg hbound.1, if_neg hbound.2, if_neg hfree.1, if_neg hfree.2]
    apply h
    exact List.mem_filter.mpr ⟨hname, decide_eq_true ⟨Ne.symm hbound.2, Ne.symm hbound.1⟩⟩

end AgreeRenamed

end Program

/-! ### Paths and attributes -/

open Program (firstNames AgreeRenamed)

variable {old new : Text} {c d : Value}

theorem Value.resolve_rename {path : Path} {paths : List Path} (hpath : path ∈ paths)
    (hroot : [] ∉ paths) (hagree : AgreeRenamed old new (firstNames paths) c d) :
    resolve path c = resolve (path.rename old new) d := by
  cases path with
  | nil => exact absurd hpath hroot
  | cons name rest =>
    have hname : name ∈ firstNames paths := List.mem_filterMap.mpr ⟨name :: rest, hpath, rfl⟩
    change resolve rest (resolve [name] c) = resolve rest (resolve [renamed old new name] d)
    rw [hagree name hname]

namespace Attribute

theorem Content.resolve_rename {content : Content} {paths : List Path}
    (hcontent : ∀ path ∈ content.path?, path ∈ paths) (hroot : [] ∉ paths)
    (hagree : AgreeRenamed old new (firstNames paths) c d) :
    content.resolve c = (content.rename old new).resolve d := by
  cases content with
  | bound path =>
    rw [Content.rename, Content.resolve, Content.resolve,
      Value.resolve_rename (hcontent path rfl) hroot hagree]
  | _ => rfl

/-- Attributes with their paths renamed keep their names and their roles, and so the rest follows from
the values of their entries. -/
theorem Plan.evaluate_rename {p : Plan} (hroot : [] ∉ p.paths)
    (hagree : AgreeRenamed old new (firstNames p.paths) c d) :
    p.evaluate c = (p.rename old new).evaluate d := by
  have hsame : ∀ e ∈ p.key.toList ++ p.entries,
      e.content.resolve c = (e.rename old new).content.resolve d :=
    fun e he => Content.resolve_rename (mem_paths he) hroot hagree
  have hentry : ∀ e ∈ p.entries, e.content.resolve c = (e.rename old new).content.resolve d :=
    fun e he => hsame e (List.mem_append_right _ he)
  have hdeclarations : p.declarations c = (p.rename old new).declarations d := by
    rw [declarations, declarations, rename, List.flatMap_map]
    apply congrArg List.flatten (List.map_congr_left _)
    intro e he
    simp only [Declaration.ofEntry, hentry e he]
    rfl
  have hhandlers : p.handlers c = (p.rename old new).handlers d := by
    rw [handlers, handlers, rename, List.filter_map, List.map_map]
    apply List.map_congr_left
    intro e he
    rw [hentry e (List.mem_filter.mp he).1]
    rfl
  have hkey : (p.key.map fun e => (e.content.resolve c).toText) =
      (p.rename old new).key.map fun e => (e.content.resolve d).toText := by
    rw [rename, Option.map_map]
    apply Option.map_congr
    intro e he
    rw [hsame e (List.mem_append_left _ (Option.mem_toList.mpr he))]
    rfl
  rw [evaluate, evaluate, hdeclarations, hhandlers, hkey]

end Attribute

/-! ### Running a program -/

namespace Program

theorem opening_rename {attrs : Attribute.Plan} (hroot : [] ∉ attrs.paths)
    (hagree : AgreeRenamed old new (firstNames attrs.paths) c d) (tag : Text) :
    opening c tag attrs = opening d tag (attrs.rename old new) := by
  rw [opening, opening, Attribute.Plan.evaluate_rename hroot hagree]

mutual

theorem runOp_rename {op : Op} {c d : Value} (hroot : [] ∉ op.paths) (hbound : new ∉ op.boundNames)
    (hagree : AgreeRenamed old new op.freeNames c d) : runOp op c = runOp (op.rename old new) d := by
  match op with
  | .open tag attrs span => rw [Op.rename, runOp, runOp, opening_rename hroot hagree]
  | .void tag attrs span => rw [Op.rename, runOp, runOp, opening_rename hroot hagree]
  | .close tag span => rfl
  | .literal value span => rfl
  | .bound path span =>
    rw [Op.rename, runOp, runOp, Value.resolve_rename (List.mem_singleton_self path) hroot hagree]
  | .conditional test consequent alternate span =>
    rw [Op.paths, List.mem_cons, List.mem_append, not_or, not_or] at hroot
    rw [Op.boundNames, List.mem_append, not_or] at hbound
    rw [Op.freeNames] at hagree
    have htest : Value.resolve test c = Value.resolve (test.rename old new) d :=
      Value.resolve_rename (List.mem_singleton_self test)
        (fun h => hroot.1 (List.mem_singleton.mp h)) hagree.left
    rw [Op.rename, runOp, runOp, htest, run_rename hroot.2.1 hbound.1 hagree.right.left,
      runAlternate_rename hroot.2.2 hbound.2 hagree.right.right]
  | .iteration collection key value body span =>
    rw [Op.paths, List.mem_cons, not_or] at hroot
    rw [Op.boundNames, List.mem_cons, List.mem_cons, not_or, not_or] at hbound
    rw [Op.freeNames] at hagree
    have hcollection : Value.resolve collection c = Value.resolve (collection.rename old new) d :=
      Value.resolve_rename (List.mem_singleton_self collection)
        (fun h => hroot.1 (List.mem_singleton.mp h)) hagree.left
    rw [Op.rename, runOp, runOp, hcollection]
    apply congrArg List.flatten (List.map_congr_left _)
    intro entry _
    split
    · rename_i hagain
      -- The old name is bound again, so that the body does not ask for the one that is renamed.
      refine run_eq_of_agree hroot.2 (Agree.entryContext entry (hagree.right.agree ?_))
      intro hold
      have hother := of_decide_eq_true (List.mem_filter.mp hold).2
      exact hagain.elim (Ne.symm hother.1) (Ne.symm hother.2)
    · rename_i hother
      exact run_rename hroot.2 hbound.2.2 (hagree.right.entryContext entry hother hbound.1 hbound.2.1)

theorem runAlternate_rename {alternate : Option (List Op)} {c d : Value}
    (hroot : [] ∉ pathsElse alternate) (hbound : new ∉ boundNamesElse alternate)
    (hagree : AgreeRenamed old new (freeNamesElse alternate) c d) :
    runAlternate alternate c = runAlternate (renameElse old new alternate) d := by
  match alternate with
  | none => rfl
  | some ops => rw [renameElse, runAlternate, runAlternate, run_rename hroot hbound hagree]

theorem run_rename {ops : List Op} {c d : Value} (hroot : [] ∉ pathsIn ops) (hbound : new ∉ boundNames ops)
    (hagree : AgreeRenamed old new (freeNames ops) c d) : run ops c = run (renameIn old new ops) d := by
  match ops with
  | [] => rfl
  | op :: rest =>
    rw [pathsIn, List.mem_append, not_or] at hroot
    rw [boundNames, List.mem_append, not_or] at hbound
    rw [freeNames] at hagree
    rw [renameIn, run, run, runOp_rename hroot.1 hbound.1 hagree.left,
      run_rename hroot.2 hbound.2 hagree.right]

end

/-! ### Loops -/

section Loop

variable {collection : Path} {key value : Text} {body : List Op} {span : Option Span}
  (hroot : [] ∉ pathsIn body) (hfree : new ∉ freeNames body) (hbound : new ∉ boundNames body)
include hroot hfree hbound

/-- The value of a loop renamed. Where the key has the new name already, the value hides it, and nobody
has asked for it. -/
theorem runOp_renameValue (context : Value) :
    runOp (.iteration collection key value body span) context =
      runOp (.iteration collection key new (renameIn value new body) span) context := by
  rw [runOp, runOp]
  apply congrArg List.flatten (List.map_congr_left _)
  intro entry _
  refine run_rename hroot hbound fun name hname => ?_
  have hnew : new ≠ name := by
    rintro rfl
    exact hfree hname
  rw [resolve_entryContext, resolve_entryContext]
  by_cases hvalue : name = value
  · rw [hvalue, renamed_old, if_pos rfl, if_pos rfl]
  · rw [renamed_other hvalue, if_neg (Ne.symm hvalue), if_neg hnew]

/-- The key of a loop renamed. The value has to have another name than the key, before and after. -/
theorem runOp_renameKey (hdistinct : key ≠ value) (hvalue : new ≠ value) (context : Value) :
    runOp (.iteration collection key value body span) context =
      runOp (.iteration collection new value (renameIn key new body) span) context := by
  rw [runOp, runOp]
  apply congrArg List.flatten (List.map_congr_left _)
  intro entry _
  refine run_rename hroot hbound fun name hname => ?_
  have hnew : new ≠ name := by
    rintro rfl
    exact hfree hname
  rw [resolve_entryContext, resolve_entryContext]
  by_cases hkey : name = key
  · rw [hkey, renamed_old, if_neg (Ne.symm hdistinct), if_pos rfl, if_neg (Ne.symm hvalue), if_pos rfl]
  · rw [renamed_other hkey, if_neg (Ne.symm hkey), if_neg hnew]

end Loop

/-! ### A place in a program -/

/-- A program with a place in it for one operation, at any depth. -/
inductive Around where
  | here (before after : List Op)
  | inConsequent (before : List Op) (test : Path) (inner : Around) (alternate : Option (List Op))
      (span : Option Span) (after : List Op)
  | inAlternate (before : List Op) (test : Path) (consequent : List Op) (inner : Around)
      (span : Option Span) (after : List Op)
  | inBody (before : List Op) (collection : Path) (key value : Text) (inner : Around) (span : Option Span)
      (after : List Op)

/-- The program with an operation at its place. -/
def Around.fill (op : Op) : Around → List Op
  | .here before after => before ++ op :: after
  | .inConsequent before test inner alternate span after =>
    before ++ .conditional test (inner.fill op) alternate span :: after
  | .inAlternate before test consequent inner span after =>
    before ++ .conditional test consequent (some (inner.fill op)) span :: after
  | .inBody before collection key value inner span after =>
    before ++ .iteration collection key value (inner.fill op) span :: after

theorem pathsIn_append (first others : List Op) :
    pathsIn (first ++ others) = pathsIn first ++ pathsIn others := by
  induction first with
  | nil => rfl
  | cons op rest ih => rw [List.cons_append, pathsIn, pathsIn, ih, List.append_assoc]

namespace Around

theorem mem_pathsIn_fill {op : Op} {path : Path} (hpath : path ∈ op.paths) (around : Around) :
    path ∈ pathsIn (around.fill op) := by
  have hmem : ∀ (before after : List Op) {outer : Op}, path ∈ outer.paths →
      path ∈ pathsIn (before ++ outer :: after) := by
    intro before after outer houter
    rw [pathsIn_append, pathsIn]
    exact List.mem_append_right _ (List.mem_append_left _ houter)
  induction around with
  | here before after => exact hmem before after hpath
  | inConsequent before test inner alternate span after ih =>
    refine hmem before after ?_
    rw [Op.paths]
    exact List.mem_cons_of_mem _ (List.mem_append_left _ ih)
  | inAlternate before test consequent inner span after ih =>
    refine hmem before after ?_
    rw [Op.paths]
    exact List.mem_cons_of_mem _ (List.mem_append_right _ ih)
  | inBody before collection key value inner span after ih =>
    refine hmem before after ?_
    rw [Op.paths]
    exact List.mem_cons_of_mem _ ih

/-- Operations that run alike may stand for one another. -/
theorem run_fill {op other : Op} (hsame : ∀ context, runOp op context = runOp other context)
    (around : Around) (context : Value) : run (around.fill op) context = run (around.fill other) context := by
  have hstep : ∀ (before after : List Op) {first second : Op} {context : Value},
      runOp first context = runOp second context →
        run (before ++ first :: after) context = run (before ++ second :: after) context := by
    intro before after first second context hfirst
    rw [run_append, run_append, run, run, hfirst]
  induction around generalizing context with
  | here before after => exact hstep before after (hsame context)
  | inConsequent before test inner alternate span after ih =>
    refine hstep before after ?_
    rw [runOp, runOp, ih context]
  | inAlternate before test consequent inner span after ih =>
    refine hstep before after ?_
    rw [runOp, runOp, runAlternate, runAlternate, ih context]
  | inBody before collection key value inner span after ih =>
    refine hstep before after ?_
    rw [runOp, runOp]
    apply congrArg List.flatten (List.map_congr_left _)
    intro entry _
    exact ih _

end Around

/-- In a program without the root path, the value or the key of a loop at any depth may be renamed together
with the paths in the body that mean it, and no context tells the difference. Two equal names mean the
value, so that names have to differ only where it is the key that is renamed. -/
theorem loop_names_renamed (around : Around) (collection : Path) (key value new : Text) (body : List Op)
    (span : Option Span)
    (hroot : [] ∉ pathsIn (around.fill (.iteration collection key value body span)))
    (hfree : new ∉ freeNames body) (hbound : new ∉ boundNames body) :
    (∀ context,
      run (around.fill (.iteration collection key new (renameIn value new body) span)) context =
        run (around.fill (.iteration collection key value body span)) context) ∧
    (key ≠ value → new ≠ value → ∀ context,
      run (around.fill (.iteration collection new value (renameIn key new body) span)) context =
        run (around.fill (.iteration collection key value body span)) context) := by
  have hinner : [] ∉ pathsIn body := by
    intro hmem
    refine hroot (around.mem_pathsIn_fill ?_)
    rw [Op.paths]
    exact List.mem_cons_of_mem _ hmem
  constructor
  · intro context
    exact (around.run_fill (runOp_renameValue hinner hfree hbound) context).symm
  · intro hdistinct hvalue context
    exact (around.run_fill (runOp_renameKey hinner hfree hbound hdistinct hvalue) context).symm

/-- The rows of a group. A loop inside runs over the cells of a row, and calls their numbers `row`. -/
def rowBody : List Op :=
  [.open "tr" ⟨some ⟨.key, "key", .bound ["i"]⟩, [⟨.spread, "...row.attrs", .bound ["row", "attrs"]⟩,
      ⟨.event, "onclick", .bound ["group", "pick"]⟩]⟩ none,
    .iteration ["row", "cells"] "row" "cell" [.bound ["row"] none, .bound ["cell"] none] none,
    .conditional ["row", "open"] [.bound ["i"] none] (some [.bound ["row", "title"] none]) none,
    .close "tr" none]

/-- Groups that are shown, and the place for the loop over the rows of a group. -/
def shownGroups : Around :=
  .inBody [.bound ["heading"] none] ["groups"] "g" "group"
    (.inConsequent [] ["group", "shown"] (.here [] [.literal "\n" none]) none none []) none []

theorem shownGroups_rows_renamed :
    [] ∉ pathsIn (shownGroups.fill (.iteration ["group", "rows"] "i" "row" rowBody none)) ∧
      (∀ context,
        run (shownGroups.fill (.iteration ["group", "rows"] "i" "entry"
            [.open "tr" ⟨some ⟨.key, "key", .bound ["i"]⟩,
                [⟨.spread, "...row.attrs", .bound ["entry", "attrs"]⟩,
                  ⟨.event, "onclick", .bound ["group", "pick"]⟩]⟩ none,
              .iteration ["entry", "cells"] "row" "cell" [.bound ["row"] none, .bound ["cell"] none] none,
              .conditional ["entry", "open"] [.bound ["i"] none] (some [.bound ["entry", "title"] none])
                none,
              .close "tr" none] none)) context =
          run (shownGroups.fill (.iteration ["group", "rows"] "i" "row" rowBody none)) context) ∧
      ∀ context,
        run (shownGroups.fill (.iteration ["group", "rows"] "entry" "row" (renameIn "i" "entry" rowBody)
            none)) context =
          run (shownGroups.fill (.iteration ["group", "rows"] "i" "row" rowBody none)) context := by
  have hroot : [] ∉ pathsIn (shownGroups.fill (.iteration ["group", "rows"] "i" "row" rowBody none)) := by
    decide
  obtain ⟨hvalue, hkey⟩ := loop_names_renamed shownGroups ["group", "rows"] "i" "row" "entry" rowBody none
    hroot (by decide) (by decide)
  exact ⟨hroot, hvalue, hkey (by decide) (by decide)⟩

end Program

end Stencil
