import Stencil.Proofs.Acceptance
import Stencil.Proofs.Places

/-!
# Listings show no places

A program keeps the places its operations were compiled from, but they are not compiled from them: a
template without its places is compiled into the program without its places. A listing does not show
them either, so templates that differ in nothing but places have the same listing.
-/

namespace Stencil.Program

open Template (NodeKind)

mutual

/-- An operation without its places. -/
def Op.unplaced : Op → Op
  | .open tag attrs _ => .open tag attrs none
  | .void tag attrs _ => .void tag attrs none
  | .close tag _ => .close tag none
  | .literal value _ => .literal value none
  | .bound path _ => .bound path none
  | .conditional test consequent alternate _ =>
    .conditional test (unplacedOps consequent) (unplacedElse alternate) none
  | .iteration collection key value body _ => .iteration collection key value (unplacedOps body) none

def unplacedElse : Option (List Op) → Option (List Op)
  | none => none
  | some ops => some (unplacedOps ops)

def unplacedOps : List Op → List Op
  | [] => []
  | op :: rest => op.unplaced :: unplacedOps rest

end

theorem unplacedOps_eq_map (ops : List Op) : unplacedOps ops = ops.map Op.unplaced := by
  induction ops with
  | nil => rfl
  | cons op rest ih => rw [unplacedOps, ih, List.map_cons]

/-! ### Listings -/

mutual

theorem opListing_unplaced (depth : Nat) (op : Op) :
    opListing depth op.unplaced = opListing depth op := by
  match op with
  | .open .. | .void .. | .close .. | .literal .. | .bound .. => rfl
  | .conditional test consequent alternate span =>
    rw [Op.unplaced, opListing, opListing, listingAt_unplaced, elseListing_unplaced]
    rfl
  | .iteration collection key value body span =>
    rw [Op.unplaced, opListing, opListing, listingAt_unplaced]
    rfl

theorem elseListing_unplaced (depth : Nat) (alternate : Option (List Op)) :
    elseListing depth (unplacedElse alternate) = elseListing depth alternate := by
  match alternate with
  | none => rfl
  | some ops => rw [unplacedElse, elseListing, elseListing, listingAt_unplaced]

theorem listingAt_unplaced (depth : Nat) (ops : List Op) :
    listingAt depth (unplacedOps ops) = listingAt depth ops := by
  match ops with
  | [] => rfl
  | op :: rest => rw [unplacedOps, listingAt, listingAt, opListing_unplaced, listingAt_unplaced]

end

/-! ### Compiling -/

theorem prune?_unplaced (op : Op) : prune? op.unplaced = (prune? op).map Op.unplaced := by
  cases op with
  | conditional test consequent alternate span =>
    cases consequent with
    | cons op ops =>
      cases alternate with
      | none => rfl
      | some others => cases others <;> rfl
    | nil =>
      cases alternate with
      | none => rfl
      | some others => cases others <;> rfl
  | iteration collection key value body span => cases body <;> rfl
  | _ => rfl

theorem filterMap_prune?_unplaced (ops : List Op) :
    (ops.map Op.unplaced).filterMap prune? = (ops.filterMap prune?).map Op.unplaced := by
  rw [List.filterMap_map, List.map_filterMap]
  congr 1
  funext op
  exact prune?_unplaced op

theorem ofAttrs_unplaced (key : Text) (attrs : List Template.Attr) :
    Attribute.Plan.ofAttrs key (attrs.map Template.Attr.unplaced) =
      Attribute.Plan.ofAttrs key attrs := by
  induction attrs with
  | nil => rfl
  | cons a rest ih =>
    have hentry : Attribute.Entry.ofAttr key a.unplaced = Attribute.Entry.ofAttr key a := rfl
    rw [List.map_cons, Attribute.Plan.ofAttrs, Attribute.Plan.ofAttrs, hentry, ih]

variable {key : Text}

theorem finish_unplaced {parent : NodeKind} {nodes : List Template.Node} {ops program : List Op}
    (hops : compileNodes key parent nodes = .ok ops) (hprogram : finish ops = .ok program)
    (hunplaced : compileNodes key parent (Template.unplacedAll nodes) = .ok (unplacedOps ops)) :
    finish (unplacedOps ops) = .ok (unplacedOps program) := by
  rw [finish_compileNodes hunplaced]
  rw [finish_compileNodes hops] at hprogram
  obtain rfl := Except.ok.inj hprogram
  rw [unplacedOps_eq_map, unplacedOps_eq_map, filterMap_prune?_unplaced]

mutual

theorem compileNode_unplaced {node : Template.Node} {parent : NodeKind} {ops : List Op}
    (hops : compileNode key parent node = .ok ops) :
    compileNode key parent node.unplaced = .ok (unplacedOps ops) := by
  match node with
  | .block children span =>
    rw [compileNode] at hops
    rw [Template.Node.unplaced, compileNode]
    exact compileNodes_unplaced hops
  | .element name attrs content selfClosing spans =>
    rw [Template.Node.unplaced]
    cases hvoid : (selfClosing || Markup.isVoidName name) with
    | true =>
      obtain ⟨plan, hplan, rfl, rfl⟩ := (compileNode_void_eq_ok hvoid).mp hops
      refine (compileNode_void_eq_ok hvoid).mpr ⟨plan, ?_, rfl, rfl⟩
      rw [ofAttrs_unplaced, hplan]
    | false =>
      obtain ⟨plan, inner, hplan, hinner, rfl⟩ := (compileNode_container_eq_ok hvoid).mp hops
      refine (compileNode_container_eq_ok hvoid).mpr
        ⟨plan, unplacedOps inner, ?_, compileNodes_unplaced hinner, ?_⟩
      · rw [ofAttrs_unplaced, hplan]
      · simp [elementOps, unplacedOps_eq_map, Op.unplaced]
  | .text value span =>
    rw [compileNode] at hops
    obtain rfl := Except.ok.inj hops
    rfl
  | .expression path span =>
    obtain ⟨hinline, rfl⟩ := compileNode_expression_eq_ok.mp hops
    exact compileNode_expression_eq_ok.mpr ⟨hinline, rfl⟩
  | .conditional test consequent alternate spans =>
    obtain ⟨inner, first, second, hinner, hfirst, hsecond, rfl⟩ :=
      compileNode_conditional_eq_ok.mp hops
    have hconsequent := compileNodes_unplaced hinner
    exact compileNode_conditional_eq_ok.mpr ⟨_, _, _, hconsequent,
      finish_unplaced hinner hfirst hconsequent, compileAlternate_unplaced hsecond, rfl⟩
  | .iteration collection keyName valueName body spans =>
    obtain ⟨inner, program, hinner, hprogram, rfl⟩ := compileNode_iteration_eq_ok.mp hops
    have hbody := compileNodes_unplaced hinner
    exact compileNode_iteration_eq_ok.mpr ⟨_, _, hbody, finish_unplaced hinner hprogram hbody, rfl⟩
  | .hole => cases hops
  | .foreign kind typeName span => cases hops

theorem compileAlternate_unplaced {alternate : Option (List Template.Node)}
    {program : Option (List Op)} (hprogram : compileAlternate key alternate = .ok program) :
    compileAlternate key (Template.unplacedAlternate alternate) = .ok (unplacedElse program) := by
  match alternate with
  | none =>
    obtain rfl := Except.ok.inj hprogram
    rfl
  | some nodes =>
    obtain ⟨ops, finished, hops, hfinish, rfl⟩ := compileAlternate_some_eq_ok.mp hprogram
    have hnodes := compileNodes_unplaced hops
    exact compileAlternate_some_eq_ok.mpr ⟨_, _, hnodes, finish_unplaced hops hfinish hnodes, rfl⟩

theorem compileNodes_unplaced {nodes : List Template.Node} {parent : NodeKind} {ops : List Op}
    (hops : compileNodes key parent nodes = .ok ops) :
    compileNodes key parent (Template.unplacedAll nodes) = .ok (unplacedOps ops) := by
  match nodes with
  | [] =>
    obtain rfl := Except.ok.inj hops
    rfl
  | node :: rest =>
    obtain ⟨first, others, hfirst, hothers, rfl⟩ := compileNodes_cons_eq_ok.mp hops
    refine compileNodes_cons_eq_ok.mpr
      ⟨_, _, compileNode_unplaced hfirst, compileNodes_unplaced hothers, ?_⟩
    simp [unplacedOps_eq_map]

end

/-- Templates that differ in nothing but places have the same listing. -/
theorem listing_eq_of_unplaced {root root' : Template.Node} {program program' : List Op}
    (hroot : root.unplaced = root'.unplaced) (hprogram : compile key root = .ok program)
    (hprogram' : compile key root' = .ok program') : listing program = listing program' := by
  obtain ⟨ops, hops, hfinish⟩ := compile_eq_ok.mp hprogram
  obtain ⟨ops', hops', hfinish'⟩ := compile_eq_ok.mp hprogram'
  have hsame : unplacedOps ops = unplacedOps ops' := by
    have hunplaced := compileNode_unplaced hops
    rw [hroot, compileNode_unplaced hops'] at hunplaced
    exact (Except.ok.inj hunplaced).symm
  rw [(balanced_compileNode hops).finish_eq] at hfinish
  rw [(balanced_compileNode hops').finish_eq] at hfinish'
  obtain rfl := Except.ok.inj hfinish
  obtain rfl := Except.ok.inj hfinish'
  rw [unplacedOps_eq_map, unplacedOps_eq_map] at hsame
  rw [listing, listing, ← listingAt_unplaced, ← listingAt_unplaced 0 (ops'.filterMap prune?),
    unplacedOps_eq_map, unplacedOps_eq_map, ← filterMap_prune?_unplaced,
    ← filterMap_prune?_unplaced, hsame]

end Stencil.Program
