import Stencil.Html.Document
import Stencil.Html.Writer
import Stencil.Proofs.Meaning

/-!
# Nesting

Instructions are well nested if a stack of tags follows them: an element is pushed when it is opened, a
closing instruction takes its own tag off, and at the end the stack is empty again. Whatever a template
means leaves every stack as it found it, so the instructions of a compiled program are well nested in
every context, whichever branches are taken and however often a loop runs.

A writer and a document keep such a stack themselves, as the tags of the open elements, and note nothing
as long as the stack follows. Which elements are open and what is noted first take the same course in both,
so that is said once, of a tally of the instructions.
-/

namespace Stencil

namespace Instruction

/-- The tags of the open elements, innermost first, after one more instruction; none if the instruction
closes another element than the innermost. -/
def follow : (stack : List Text) → Instruction → Option (List Text)
  | stack, .open o => some (o.tag :: stack)
  | stack, .void _ => some stack
  | stack, .text _ => some stack
  | innermost :: outer, .close tag => if innermost = tag then some outer else none
  | [], .close _ => none

/-- The tags of the open elements after some instructions. -/
def followAll (stack : List Text) (is : List Instruction) : Option (List Text) :=
  is.foldlM follow stack

/-- Every element is closed, and in order. -/
def WellNested (is : List Instruction) : Prop := followAll [] is = some []

/-- Instructions that leave every stack of open elements as it was. -/
def Neutral (is : List Instruction) : Prop := ∀ stack, followAll stack is = some stack

theorem followAll_append (stack : List Text) (first others : List Instruction) :
    followAll stack (first ++ others) =
      (followAll stack first).bind fun opened => followAll opened others :=
  List.foldlM_append

theorem Neutral.nil : Neutral [] := fun _ => rfl

theorem Neutral.text (value : Text) : Neutral [.text value] := fun _ => rfl

theorem Neutral.void (o : Opening) : Neutral [.void o] := fun _ => rfl

theorem Neutral.append {first others : List Instruction} (hfirst : Neutral first)
    (hothers : Neutral others) : Neutral (first ++ others) := by
  intro stack
  rw [followAll_append, hfirst stack, Option.bind_some, hothers stack]

theorem Neutral.element {inner : List Instruction} (hinner : Neutral inner) (o : Opening) :
    Neutral ([.open o] ++ inner ++ [.close o.tag]) := by
  intro stack
  have hopened : followAll stack [.open o] = some (o.tag :: stack) := rfl
  have hclosed : followAll (o.tag :: stack) [.close o.tag] = some stack := by
    simp [followAll, follow]
  rw [followAll_append, followAll_append, hopened, Option.bind_some, hinner, Option.bind_some,
    hclosed]

theorem Neutral.flatMap {α : Type} {f : α → List Instruction} (hf : ∀ a, Neutral (f a))
    (as : List α) : Neutral (as.flatMap f) := by
  induction as with
  | nil => exact Neutral.nil
  | cons a rest ih =>
    rw [List.flatMap_cons]
    exact (hf a).append ih

end Instruction

namespace Program

open Instruction

mutual

theorem neutral_denote (key : Text) (node : Template.Node) (context : Value) :
    Neutral (denote key node context) := by
  match node with
  | .block children span =>
    rw [denote]
    exact neutral_denoteAll key children context
  | .element name attrs content selfClosing spans =>
    rw [denote]
    cases classify key attrs context with
    | error cause => exact Neutral.nil
    | ok r =>
      cases hvoid : (selfClosing || Markup.isVoidName name) with
      | true => simpa [hvoid] using Neutral.void ⟨name, r.key, r.static, r.dynamic⟩
      | false =>
        simpa [hvoid] using
          (neutral_denoteAll key content context).element ⟨name, r.key, r.static, r.dynamic⟩
  | .text value span =>
    rw [denote]
    exact Neutral.text value
  | .expression path span =>
    rw [denote]
    exact Neutral.text _
  | .conditional test consequent alternate spans =>
    rw [denote]
    split
    · exact neutral_denoteAll key consequent context
    · exact neutral_denoteAlternate key alternate context
  | .iteration collection keyName valueName body spans =>
    rw [denote]
    exact Neutral.flatMap (fun entry => neutral_denoteAll key body _) _
  | .hole => exact Neutral.nil
  | .foreign kind typeName span => exact Neutral.nil

theorem neutral_denoteAlternate (key : Text) (nodes : Option (List Template.Node))
    (context : Value) : Neutral (denoteAlternate key nodes context) := by
  match nodes with
  | none => exact Neutral.nil
  | some nodes =>
    rw [denoteAlternate]
    exact neutral_denoteAll key nodes context

theorem neutral_denoteAll (key : Text) (nodes : List Template.Node) (context : Value) :
    Neutral (denoteAll key nodes context) := by
  match nodes with
  | [] => exact Neutral.nil
  | node :: rest =>
    rw [denoteAll]
    exact (neutral_denote key node context).append (neutral_denoteAll key rest context)

end

end Program

/-! ### Builders follow the stack -/

namespace Html

open Instruction

/-- What a builder notes of its instructions: the tags of the open elements, innermost first, and the first
imbalance. -/
structure Tally where
  opened : List Text
  fault : Option Imbalance

namespace Tally

def fresh : Tally := ⟨[], none⟩

def step (t : Tally) : Instruction → Tally
  | .open o => { t with opened := o.tag :: t.opened }
  | .void _ => t
  | .text _ => t
  | .close tag =>
    match t.opened with
    | [] => { t with fault := t.fault.or (some (.strayClose tag)) }
    | innermost :: outer =>
      ⟨outer, if innermost = tag then t.fault else t.fault.or (some (.wrongClose tag innermost))⟩

def imbalance? (t : Tally) : Option Imbalance := t.fault.or (t.opened.head?.map .unclosed)

/-- Where the stack follows, nothing is noted. -/
theorem step_follow {t : Tally} {i : Instruction} {stack : List Text}
    (hfollow : follow t.opened i = some stack) : t.step i = ⟨stack, t.fault⟩ := by
  obtain ⟨opened, fault⟩ := t
  cases i with
  | close tag =>
    cases opened with
    | nil => cases hfollow
    | cons innermost outer =>
      simp only [follow, Option.ite_none_right_eq_some, Option.some.injEq] at hfollow
      obtain ⟨rfl, rfl⟩ := hfollow
      exact congrArg (Tally.mk outer) (if_pos rfl)
  | _ => exact congrArg (Tally.mk · fault) (Option.some.inj hfollow)

theorem run_follow {stack : List Text} (is : List Instruction) (t : Tally)
    (hfollow : followAll t.opened is = some stack) : is.foldl step t = ⟨stack, t.fault⟩ := by
  induction is generalizing t with
  | nil => exact congrArg (Tally.mk · t.fault) (Option.some.inj hfollow)
  | cons i rest ih =>
    simp only [followAll, List.foldlM_cons, Option.bind_eq_bind, Option.bind_eq_some_iff] at hfollow
    obtain ⟨next, hnext, hrest⟩ := hfollow
    rw [List.foldl_cons, step_follow hnext]
    exact ih ⟨next, t.fault⟩ hrest

/-- What keeps a tally for one instruction keeps it over a run. -/
theorem run_of_step {σ : Type} {step : σ → Instruction → σ} {tally : σ → Tally}
    (hstep : ∀ s i, tally (step s i) = (tally s).step i) (is : List Instruction) (s : σ) :
    tally (is.foldl step s) = is.foldl Tally.step (tally s) := by
  induction is generalizing s with
  | nil => rfl
  | cons i rest ih => rw [List.foldl_cons, ih, hstep, List.foldl_cons]

theorem imbalance?_of_wellNested {is : List Instruction} (hnested : WellNested is) :
    (is.foldl step fresh).imbalance? = none := by
  rw [run_follow is fresh hnested]
  rfl

end Tally

namespace Writer

/-- The tags of the open elements, innermost first. -/
def opened (w : Writer) : List Text := w.frames.map Frame.tag

def tally (w : Writer) : Tally := ⟨w.opened, w.fault⟩

@[simp] theorem opened_add (w : Writer) (n : Node) : (w.add n).opened = w.opened := by
  cases hframes : w.frames with
  | nil => simp [opened, add, hframes]
  | cons f fs => simp [opened, add, hframes]

@[simp] theorem fault_add (w : Writer) (n : Node) : (w.add n).fault = w.fault := by
  cases hframes : w.frames with
  | nil => simp [add, hframes]
  | cons f fs => simp [add, hframes]

theorem tally_add (w : Writer) (n : Node) : (w.add n).tally = w.tally := by
  rw [tally, opened_add, fault_add, tally]

theorem tally_step (w : Writer) (i : Instruction) : (w.step i).tally = w.tally.step i := by
  cases i with
  | «open» o => rfl
  | void o => exact tally_add w _
  | text value => exact tally_add w _
  | close tag =>
    obtain ⟨keyAttr, frames, roots, fault⟩ := w
    cases frames with
    | nil => rfl
    | cons f fs =>
      rw [step, tally_add]
      by_cases htag : f.tag = tag
      · simp [tally, opened, Tally.step, htag]
      · simp [tally, opened, Tally.step, htag, fail]

theorem imbalance?_tally (w : Writer) : w.tally.imbalance? = w.imbalance? := by
  rw [imbalance?, Tally.imbalance?, tally, opened, List.head?_map, Option.map_map]
  rfl

theorem imbalance?_of_wellNested {is : List Instruction} (hnested : WellNested is) (keyAttr : Text) :
    (is.foldl step (new keyAttr)).imbalance? = none := by
  rw [← imbalance?_tally, Tally.run_of_step tally_step]
  exact Tally.imbalance?_of_wellNested hnested

end Writer

namespace Document

def tally (d : Document) : Tally := ⟨d.opened, d.fault⟩

@[simp] theorem opened_add (d : Document) (i : Item) : (d.add i).opened = d.opened := rfl

@[simp] theorem fault_add (d : Document) (i : Item) : (d.add i).fault = d.fault := rfl

theorem tally_step (d : Document) (i : Instruction) : (d.step i).tally = d.tally.step i := by
  cases i with
  | close tag =>
    obtain ⟨items, opened, fault⟩ := d
    cases opened with
    | nil => rfl
    | cons innermost outer =>
      by_cases htag : innermost = tag <;> simp [step, tally, Tally.step, htag, fail]
  | _ => rfl

theorem imbalance?_tally (d : Document) : d.tally.imbalance? = d.imbalance? := rfl

theorem imbalance?_of_wellNested {is : List Instruction} (hnested : WellNested is) :
    (is.foldl step empty).imbalance? = none := by
  rw [← imbalance?_tally, Tally.run_of_step tally_step]
  exact Tally.imbalance?_of_wellNested hnested

end Document

end Html

end Stencil
