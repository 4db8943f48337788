import Stencil.Html.Serialize
import Stencil.Proofs.SameForest

/-!
# Balance

What a writer and a document report about the calls they were given. Instructions are *balanced* if every
element is closed by its own tag, and what is opened inside it is closed before. If they are not, there is a
first closing tag that closes nothing or another element than the innermost, or else elements are left open.

Both builders go on after such a closing tag, each with a stack of its own. What they report depends on two
things only, the tags of the open elements and the first imbalance that was noted, and these take the same
course in both. Once an imbalance is noted no later call but a start anew can change the report.
-/

namespace Stencil

namespace Instruction

/-- Every element is closed by its own tag, and what is opened inside it is closed before. -/
inductive Balanced : List Instruction → Prop
  | nil : Balanced []
  | void (o : Opening) {rest : List Instruction} (hrest : Balanced rest) : Balanced (.void o :: rest)
  | text (value : Text) {rest : List Instruction} (hrest : Balanced rest) : Balanced (.text value :: rest)
  | element (o : Opening) {inner rest : List Instruction} (hinner : Balanced inner)
      (hrest : Balanced rest) : Balanced (.open o :: (inner ++ .close o.tag :: rest))

/-- Balanced so far, but for elements with these tags, innermost first, that are still open. -/
inductive Leaves : List Text → List Instruction → Prop
  | nothing {is : List Instruction} (his : Balanced is) : Leaves [] is
  | opened {stack : List Text} {is inner : List Instruction} (his : Leaves stack is) (o : Opening)
      (hinner : Balanced inner) : Leaves (o.tag :: stack) (is ++ .open o :: inner)

namespace Balanced

theorem append {is more : List Instruction} (his : Balanced is) (hmore : Balanced more) :
    Balanced (is ++ more) := by
  induction his with
  | nil => exact hmore
  | void o _ ih => exact void o ih
  | text value _ ih => exact text value ih
  | element o hinner _ _ ih =>
    rw [List.cons_append, List.append_assoc]
    exact element o hinner ih

theorem neutral {is : List Instruction} (his : Balanced is) : Neutral is := by
  induction his with
  | nil => exact Neutral.nil
  | void o _ ih => exact (Neutral.void o).append ih
  | text value _ ih => exact (Neutral.text value).append ih
  | @element o inner rest _ _ ihinner ihrest =>
    have helement := (ihinner.element o).append ihrest
    rwa [List.append_assoc, List.append_assoc] at helement

end Balanced

namespace Leaves

variable {stack next outer : List Text} {is more : List Instruction} {tag : Text}

theorem append (h : Leaves stack is) (hmore : Balanced more) : Leaves stack (is ++ more) := by
  cases h with
  | nothing his => exact nothing (his.append hmore)
  | opened his o hinner =>
    rw [List.append_assoc, List.cons_append]
    exact opened his o (hinner.append hmore)

/-- The innermost element is closed, and has become part of what is balanced. -/
theorem close (h : Leaves (tag :: outer) is) : Leaves outer (is ++ [.close tag]) := by
  cases h with
  | opened his o hinner =>
    rw [List.append_assoc, List.cons_append]
    exact his.append (.element o hinner .nil)

theorem extend (h : Leaves stack is) {i : Instruction} (hfollow : follow stack i = some next) :
    Leaves next (is ++ [i]) := by
  cases i with
  | «open» o =>
    obtain rfl : o.tag :: stack = next := Option.some.inj hfollow
    exact opened h o .nil
  | void o =>
    obtain rfl : stack = next := Option.some.inj hfollow
    exact h.append (.void o .nil)
  | text value =>
    obtain rfl : stack = next := Option.some.inj hfollow
    exact h.append (.text value .nil)
  | close tag =>
    cases stack with
    | nil => cases hfollow
    | cons innermost outer =>
      simp only [follow, Option.ite_none_right_eq_some, Option.some.injEq] at hfollow
      obtain ⟨rfl, rfl⟩ := hfollow
      exact h.close

theorem of_followAll (h : Leaves stack is) (hfollow : followAll stack more = some next) :
    Leaves next (is ++ more) := by
  induction more generalizing stack is with
  | nil =>
    obtain rfl : stack = next := Option.some.inj hfollow
    rwa [List.append_nil]
  | cons i more ih =>
    simp only [followAll, List.foldlM_cons, Option.bind_eq_bind, Option.bind_eq_some_iff] at hfollow
    obtain ⟨after, hafter, hmore⟩ := hfollow
    have hrest := ih (h.extend hafter) hmore
    rwa [List.append_assoc] at hrest

theorem iff_followAll : Leaves stack is ↔ followAll [] is = some stack := by
  constructor
  · intro h
    induction h with
    | nothing his => exact his.neutral []
    | @opened stack is inner _ o hinner ih =>
      have hopened : followAll stack (.open o :: inner) = followAll (o.tag :: stack) inner := rfl
      rw [followAll_append, ih, Option.bind_some, hopened, hinner.neutral]
  · exact of_followAll (.nothing .nil)

theorem balanced (h : Leaves [] is) : Balanced is := by
  cases h with
  | nothing his => exact his

end Leaves

/-- Where the stack does not follow, a closing tag is the first that it does not follow. -/
theorem exists_close_of_followAll {stack : List Text} {is : List Instruction}
    (hfollow : followAll stack is = none) :
    ∃ before tag after opened, is = before ++ .close tag :: after ∧
      followAll stack before = some opened ∧ follow opened (.close tag) = none := by
  induction is generalizing stack with
  | nil => cases hfollow
  | cons i rest ih =>
    cases hnext : follow stack i with
    | none =>
      cases i with
      | close tag => exact ⟨[], tag, rest, stack, rfl, rfl, hnext⟩
      | _ => cases hnext
    | some next =>
      have hcons : ∀ more, followAll stack (i :: more) = followAll next more := by
        intro more
        rw [followAll, List.foldlM_cons, hnext]
        rfl
      rw [hcons] at hfollow
      obtain ⟨before, tag, after, opened, rfl, hbefore, hclose⟩ := ih hfollow
      exact ⟨i :: before, tag, after, opened, rfl, (hcons before).trans hbefore, hclose⟩

end Instruction

namespace Html

open Instruction

/-- What is wrong with some instructions: the first closing tag that closes nothing or another element than
the innermost, or else the innermost element that is left open. -/
inductive Imbalance.Describes : Imbalance → List Instruction → Prop
  | strayClose {before : List Instruction} (hbefore : Balanced before) (tag : Text)
      (after : List Instruction) : Describes (.strayClose tag) (before ++ .close tag :: after)
  | wrongClose {before : List Instruction} {innermost : Text} {outer : List Text}
      (hbefore : Leaves (innermost :: outer) before) {tag : Text} (hne : innermost ≠ tag)
      (after : List Instruction) : Describes (.wrongClose tag innermost) (before ++ .close tag :: after)
  | unclosed {is : List Instruction} {innermost : Text} {outer : List Text}
      (his : Leaves (innermost :: outer) is) : Describes (.unclosed innermost) is

theorem exists_describes {is : List Instruction} (hunbalanced : ¬ Balanced is) :
    ∃ i : Imbalance, i.Describes is := by
  cases hfollow : followAll [] is with
  | some stack =>
    have hleaves := Leaves.iff_followAll.mpr hfollow
    cases stack with
    | nil => exact absurd hleaves.balanced hunbalanced
    | cons innermost outer => exact ⟨_, .unclosed hleaves⟩
  | none =>
    obtain ⟨before, tag, after, opened, rfl, hbefore, hclose⟩ := exists_close_of_followAll hfollow
    have hleaves := Leaves.iff_followAll.mpr hbefore
    cases opened with
    | nil => exact ⟨_, .strayClose hleaves.balanced tag after⟩
    | cons innermost outer =>
      have hne : innermost ≠ tag := by simpa [follow] using hclose
      exact ⟨_, .wrongClose hleaves hne after⟩

/-! ### What a builder notes -/

namespace Tally

theorem run_leaves {stack : List Text} {is : List Instruction} (h : Leaves stack is) :
    is.foldl step fresh = ⟨stack, none⟩ :=
  run_follow is fresh (Leaves.iff_followAll.mp h)

/-- An imbalance that was noted stays the first. -/
theorem fault_step {t : Tally} {fault : Imbalance} (ht : t.fault = some fault) (i : Instruction) :
    (t.step i).fault = some fault := by
  obtain ⟨opened, noted⟩ := t
  obtain rfl : noted = some fault := ht
  cases i with
  | close tag =>
    cases opened with
    | nil => rfl
    | cons innermost outer =>
      rw [step]
      exact ite_self _
  | _ => rfl

theorem imbalance?_run {t : Tally} {fault : Imbalance} (ht : t.fault = some fault)
    (is : List Instruction) : (is.foldl step t).imbalance? = some fault := by
  induction is generalizing t with
  | nil => rw [List.foldl_nil, imbalance?, ht, Option.some_or]
  | cons i rest ih => exact ih (fault_step ht i)

theorem imbalance?_of_describes {i : Imbalance} {is : List Instruction} (h : i.Describes is) :
    (is.foldl step fresh).imbalance? = some i := by
  cases h with
  | strayClose hbefore tag after =>
    rw [List.foldl_append, run_leaves (.nothing hbefore), List.foldl_cons]
    exact imbalance?_run rfl after
  | @wrongClose before innermost outer hbefore tag hne after =>
    rw [List.foldl_append, run_leaves hbefore, List.foldl_cons]
    exact imbalance?_run (if_neg hne) after
  | unclosed his =>
    rw [run_leaves his]
    rfl

theorem imbalance?_eq_none_iff {is : List Instruction} :
    (is.foldl step fresh).imbalance? = none ↔ Balanced is := by
  constructor
  · intro hnone
    refine Classical.byContradiction fun hunbalanced => ?_
    obtain ⟨i, hi⟩ := exists_describes hunbalanced
    rw [imbalance?_of_describes hi] at hnone
    cases hnone
  · intro hbalanced
    rw [run_leaves (.nothing hbalanced)]
    rfl

theorem imbalance?_eq_some_iff {is : List Instruction} {i : Imbalance} :
    (is.foldl step fresh).imbalance? = some i ↔ i.Describes is := by
  refine ⟨fun hsome => ?_, imbalance?_of_describes⟩
  have hunbalanced : ¬ Balanced is := by
    rw [← imbalance?_eq_none_iff, hsome]
    exact Option.some_ne_none i
  obtain ⟨j, hj⟩ := exists_describes hunbalanced
  rw [imbalance?_of_describes hj] at hsome
  rwa [← Option.some.inj hsome]

end Tally

/-! ### Builders -/

/-- The instructions since the last start anew, after one more call. -/
def Call.extend (is : List Instruction) : Call → List Instruction
  | .instruction i => is ++ [i]
  | .reset => []

/-- The instructions since the last start anew. -/
def sinceReset (calls : List Call) : List Instruction := calls.foldl Call.extend []

/-- What is seen of a builder that follows its instructions, and drops everything when it starts anew, comes
from the instructions since then. -/
theorem view_run {σ τ : Type} {handle : σ → Call → σ} {view : σ → τ} {step : τ → Instruction → τ} {fresh : τ}
    (hstep : ∀ s i, view (handle s (.instruction i)) = step (view s) i)
    (hreset : ∀ s, view (handle s .reset) = fresh) {s : σ} (hs : view s = fresh) (calls : List Call) :
    view (calls.foldl handle s) = (sinceReset calls).foldl step fresh := by
  suffices hrun : ∀ (s : σ) (is : List Instruction), view s = is.foldl step fresh →
      view (calls.foldl handle s) = (calls.foldl Call.extend is).foldl step fresh from
    hrun s [] hs
  induction calls with
  | nil => exact fun _ _ hs => hs
  | cons call rest ih =>
    intro s is hs
    apply ih
    cases call with
    | instruction i => rw [hstep, hs, Call.extend, List.foldl_append, List.foldl_cons, List.foldl_nil]
    | reset => exact hreset s

namespace Writer

/-- The wording of what is wrong with the instructions so far. -/
def err? (w : Writer) : Option Text := w.imbalance?.map message

theorem imbalance?_run (keyAttr : Text) (calls : List Call) :
    (calls.foldl handle (new keyAttr)).imbalance? =
      ((sinceReset calls).foldl Tally.step .fresh).imbalance? := by
  rw [← imbalance?_tally, @view_run _ _ handle tally _ .fresh tally_step (fun _ => rfl) (new keyAttr) rfl]

end Writer

namespace Document

/-- The wording of what is wrong with the instructions so far. -/
def err? (d : Document) : Option Text := d.imbalance?.map message

theorem imbalance?_run (calls : List Call) :
    (calls.foldl handle empty).imbalance? =
      ((sinceReset calls).foldl Tally.step .fresh).imbalance? := by
  rw [← imbalance?_tally, @view_run _ _ handle tally _ .fresh tally_step (fun _ => rfl) empty rfl]

end Document

/-- A wrong closing tag counts, however well the instructions go on, until the builder starts anew. -/
example :
    (crookedCalls.foldl Document.handle .empty).err? =
        some (Text.ofString "dom: close of <ul> while <li> is open") ∧
      ((crookedCalls ++ [Call.reset, .instruction (.open ⟨"p", [], [], []⟩)]).foldl Document.handle
        .empty).err? = some (Text.ofString "dom: <p> is never closed") := by
  decide +kernel

end Html

end Stencil
