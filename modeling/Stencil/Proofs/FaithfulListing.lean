import Stencil.Proofs.Listing
import Stencil.Proofs.ListingLines

/-!
# Listings are faithful

A listing shows a program up to the places of its operations and up to the blanks that a spread attribute
may have around its path, and nothing else: programs that were compiled without keys have the same
listing exactly if they are the same but for these. What is not shown does not matter when a program is
run.

The nesting is in the indentation. What follows a program in a listing is indented less, so a program
ends where a line begins too early; a line at the depth of a conditional that is not an operation is the
line of its alternate.
-/

namespace Stencil

/-! ### Tidied attributes -/

namespace Attribute

namespace Entry

theorem tidied_role (e : Entry) : e.tidied.role = e.role := by
  rw [tidied]
  split <;> rfl

theorem IsLegible.toText_tidied {e : Entry} (he : e.IsLegible) : e.tidied.toText = e.toText := by
  by_cases hspread : e.role = .spread
  · obtain ⟨p, hp, -⟩ := he.spread hspread
    rw [tidied, if_pos hspread, toText, toText, hp]
    dsimp only
    rw [if_pos hspread, if_pos hspread]
  · rw [tidied_of_ne hspread]

theorem filter_event_tidied (es : List Entry) :
    (es.map tidied).filter (fun e => e.role = .event) = es.filter fun e => e.role = .event := by
  induction es with
  | nil => rfl
  | cons e es ih =>
    rw [List.map_cons, List.filter_cons, List.filter_cons, ih, tidied_role]
    split
    · rename_i hevent
      rw [tidied_of_ne (by simp [of_decide_eq_true hevent])]
    · rfl

end Entry

theorem Declaration.ofEntry_tidied (context : Value) (e : Entry) :
    ofEntry context e.tidied = ofEntry context e := by
  by_cases hspread : e.role = .spread
  · rw [Entry.tidied, if_pos hspread, ofEntry, ofEntry]
    simp only [hspread]
  · rw [Entry.tidied_of_ne hspread]

namespace Plan

theorem size_tidied (p : Plan) : p.tidied.size = p.size := by
  rw [size, size, tidied, List.length_map]

theorem IsLegible.toText_tidied {p : Plan} (hp : p.IsLegible) : p.tidied.toText = p.toText := by
  have hentries : (p.entries.map Entry.tidied).map Entry.toText = p.entries.map Entry.toText := by
    rw [List.map_map]
    apply List.map_congr_left
    intro e he
    exact (hp.entries e he).toText_tidied
  rw [toText, toText, tidied, hentries]

/-- The name of a spread attribute has no part in what the attributes are. -/
theorem evaluate_tidied (p : Plan) (context : Value) : p.tidied.evaluate context = p.evaluate context := by
  have hdeclarations : p.tidied.declarations context = p.declarations context := by
    rw [declarations, declarations, tidied, List.flatMap_map]
    apply congrArg (List.flatMap · _)
    funext e
    exact Declaration.ofEntry_tidied context e
  have hhandlers : p.tidied.handlers context = p.handlers context := by
    rw [handlers, handlers, tidied, Entry.filter_event_tidied]
  rw [evaluate, evaluate, hdeclarations, hhandlers]
  rfl

end Plan

end Attribute

namespace Program

open Template (NodeKind)

/-! ### Programs as they are listed -/

mutual

/-- An operation without its places, its attributes tidied. -/
def Op.plain : Op → Op
  | .open tag attrs _ => .open tag attrs.tidied none
  | .void tag attrs _ => .void tag attrs.tidied none
  | .close tag _ => .close tag none
  | .literal value _ => .literal value none
  | .bound path _ => .bound path none
  | .conditional test consequent alternate _ =>
    .conditional test (plainOps consequent) (plainElse alternate) none
  | .iteration collection key value body _ => .iteration collection key value (plainOps body) none

def plainElse : Option (List Op) → Option (List Op)
  | none => none
  | some ops => some (plainOps ops)

def plainOps : List Op → List Op
  | [] => []
  | op :: rest => op.plain :: plainOps rest

end

/-! ### Compiled programs are legible -/

theorem LegibleIn.append {first others : List Op} (hfirst : LegibleIn first)
    (hothers : LegibleIn others) : LegibleIn (first ++ others) := by
  induction first with
  | nil => exact hothers
  | cons op rest ih => exact ⟨hfirst.1, ih hfirst.2⟩

theorem Op.IsLegible.prune {op kept : Op} (hop : op.IsLegible) (hprune : prune? op = some kept) :
    kept.IsLegible := by
  cases op with
  | conditional test consequent alternate span =>
    obtain ⟨_, rfl⟩ := prune?_conditional_eq_some.mp hprune
    refine ⟨hop.1, hop.2.1, ?_⟩
    cases huseful : usefulAlternate alternate with
    | none => trivial
    | some ops =>
      obtain ⟨rfl, _⟩ := usefulAlternate_eq_some.mp huseful
      exact hop.2.2
  | iteration collection key value body span =>
    obtain ⟨_, rfl⟩ := prune?_iteration_eq_some.mp hprune
    exact hop
  | _ =>
    obtain rfl := Option.some.inj hprune
    exact hop

theorem LegibleIn.prune {ops : List Op} (hops : LegibleIn ops) :
    LegibleIn (ops.filterMap prune?) := by
  induction ops with
  | nil => trivial
  | cons op rest ih =>
    rw [List.filterMap_cons]
    split
    · exact ih hops.2
    · rename_i kept hprune
      exact ⟨hops.1.prune hprune, ih hops.2⟩

theorem LegibleIn.finish {ops program : List Op} (hops : LegibleIn ops)
    (hprogram : Program.finish ops = .ok program) : LegibleIn program := by
  rw [(finish_eq_ok.mp hprogram).1]
  exact hops.prune

mutual

theorem compileNode_legible {node : Template.Node} {parent : NodeKind} {ops : List Op}
    (hnode : node.IsLegible) (hops : compileNode [] parent node = .ok ops) : LegibleIn ops := by
  match node with
  | .block children span =>
    rw [compileNode] at hops
    exact compileNodes_legible hnode hops
  | .element name attrs content selfClosing spans =>
    obtain ⟨hname, hattrs, hcontent⟩ := hnode
    cases hvoid : (selfClosing || Markup.isVoidName name) with
    | true =>
      obtain ⟨plan, hplan, -, rfl⟩ := (compileNode_void_eq_ok hvoid).mp hops
      exact ⟨⟨hname, Attribute.Plan.ofAttrs_legible hattrs hplan⟩, trivial⟩
    | false =>
      obtain ⟨plan, inner, hplan, hinner, rfl⟩ := (compileNode_container_eq_ok hvoid).mp hops
      refine LegibleIn.append ⟨⟨hname, Attribute.Plan.ofAttrs_legible hattrs hplan⟩, ?_⟩ ⟨hname, trivial⟩
      exact compileNodes_legible hcontent hinner
  | .text value span =>
    rw [compileNode] at hops
    obtain rfl := Except.ok.inj hops
    exact ⟨trivial, trivial⟩
  | .expression path span =>
    obtain ⟨-, rfl⟩ := compileNode_expression_eq_ok.mp hops
    exact ⟨hnode, trivial⟩
  | .conditional test consequent alternate spans =>
    obtain ⟨inner, first, second, hinner, hfirst, hsecond, rfl⟩ :=
      compileNode_conditional_eq_ok.mp hops
    exact ⟨⟨hnode.1, (compileNodes_legible hnode.2.1 hinner).finish hfirst,
      compileAlternate_legible hnode.2.2 hsecond⟩, trivial⟩
  | .iteration collection keyName valueName body spans =>
    obtain ⟨inner, program, hinner, hprogram, rfl⟩ := compileNode_iteration_eq_ok.mp hops
    obtain ⟨hcollection, hkey, hvalue, hbody⟩ := hnode
    exact ⟨⟨hcollection, Template.nameOr_isVariable Template.isVariable_defaultNames.1 hkey,
      Template.nameOr_isVariable Template.isVariable_defaultNames.2 hvalue,
      (compileNodes_legible hbody hinner).finish hprogram⟩, trivial⟩
  | .hole => cases hops
  | .foreign kind typeName span => cases hops

theorem compileAlternate_legible {nodes : Option (List Template.Node)} {alternate : Option (List Op)}
    (hnodes : Template.LegibleAlternate nodes) (halternate : compileAlternate [] nodes = .ok alternate) :
    LegibleElse alternate := by
  match nodes with
  | none =>
    obtain rfl := Except.ok.inj halternate
    trivial
  | some nodes =>
    obtain ⟨ops, program, hops, hprogram, rfl⟩ := compileAlternate_some_eq_ok.mp halternate
    exact (compileNodes_legible hnodes hops).finish hprogram

theorem compileNodes_legible {nodes : List Template.Node} {parent : NodeKind} {ops : List Op}
    (hnodes : Template.LegibleIn nodes) (hops : compileNodes [] parent nodes = .ok ops) :
    LegibleIn ops := by
  match nodes with
  | [] =>
    obtain rfl := Except.ok.inj hops
    trivial
  | node :: rest =>
    obtain ⟨first, others, hfirst, hothers, rfl⟩ := compileNodes_cons_eq_ok.mp hops
    exact (compileNode_legible hnodes.1 hfirst).append (compileNodes_legible hnodes.2 hothers)

end

theorem exists_root {o : Options} {text : Text} {program : List Op}
    (hprogram : Stencil.compile o text = .ok program) :
    ∃ root, parse o text = .ok root ∧ compile o.key root = .ok program := by
  rw [Stencil.compile] at hprogram
  split at hprogram
  · cases hprogram
  · rename_i root hroot
    split at hprogram
    · cases hprogram
    · rename_i found hcompile
      obtain rfl := Except.ok.inj hprogram
      exact ⟨root, hroot, hcompile⟩

/-- A program that was compiled from a source without keys is legible. -/
theorem legible_of_compiled {o : Options} (hkey : o.key = []) {text : Text} {program : List Op}
    (hprogram : Stencil.compile o text = .ok program) : LegibleIn program := by
  obtain ⟨root, hroot, hcompile⟩ := exists_root hprogram
  rw [hkey] at hcompile
  obtain ⟨ops, hops, hfinish⟩ := compile_eq_ok.mp hcompile
  exact (compileNode_legible (parse_legible hroot) hops).finish hfinish

/-! ### Indentation -/

/-- How many blanks a text begins with. -/
def blanks (t : Text) : Nat := (t.takeWhile (· == 0x20)).length

/-- A line at a depth that begins with something else than a blank. -/
theorem blanks_indent (depth : Nat) {b : UInt8} (hb : b ≠ 0x20) (t : Text) :
    blanks (Instruction.indent depth ++ b :: t) = 2 * depth := by
  have hindent : Instruction.indent depth = List.replicate (2 * depth) 0x20 := by
    induction depth with
    | zero => rfl
    | succ depth ih =>
      change Text.ofString "  " ++ Instruction.indent depth = _
      rw [ih, Nat.mul_succ, Nat.add_comm, ← List.replicate_append_replicate]
      rfl
  have hstop : (b == 0x20) = false := beq_false_of_ne hb
  rw [blanks, hindent, List.takeWhile_append_of_pos]
  · rw [List.takeWhile_cons, hstop]
    simp
  · intro a ha
    rw [List.eq_of_mem_replicate ha]
    rfl

/-- What may follow a program at a depth: nothing, or a line that is indented less. -/
def Returns (depth : Nat) (t : Text) : Prop := t = [] ∨ blanks t < 2 * depth

/-- What may follow an operation at a depth: what follows its program, or the line of another
operation. -/
def Follows (depth : Nat) (t : Text) : Prop :=
  Returns depth t ∨ ∃ b u, t = Instruction.indent depth ++ b :: u ∧ b ≠ 0x20 ∧ b ≠ 0x65

/-- The lines below the line of an operation. -/
def below (depth : Nat) : Op → Text
  | .conditional _ consequent alternate _ =>
    listingAt (depth + 1) consequent ++ elseListing depth alternate
  | .iteration _ _ _ body _ => listingAt (depth + 1) body
  | _ => []

theorem opListing_eq (depth : Nat) (op : Op) :
    opListing depth op = Instruction.indent depth ++ (op.toText ++ 0x0A :: below depth op) := by
  cases op with
  | conditional test consequent alternate span =>
    rw [opListing, below]
    simp only [List.append_assoc]
    rfl
  | iteration collection key value body span =>
    rw [opListing, below]
    simp only [List.append_assoc]
    rfl
  | _ => exact List.append_assoc _ _ [0x0A]

/-- The line of an operation begins neither with a blank nor as the line of an alternate does. -/
theorem exists_opListing (depth : Nat) (op : Op) :
    ∃ b u, opListing depth op = Instruction.indent depth ++ b :: u ∧ b ≠ 0x20 ∧ b ≠ 0x65 := by
  obtain ⟨b, u, htext, hb⟩ := op.exists_toText
  refine ⟨b, u ++ 0x0A :: below depth op, ?_, hb⟩
  rw [opListing_eq, htext, List.cons_append]

theorem follows_listingAt {depth : Nat} (ops : List Op) {t : Text} (ht : Returns depth t) :
    Follows depth (listingAt depth ops ++ t) := by
  cases ops with
  | nil => exact .inl ht
  | cons op rest =>
    obtain ⟨b, u, hlisting, hb⟩ := exists_opListing depth op
    refine .inr ⟨b, u ++ (listingAt depth rest ++ t), ?_, hb⟩
    rw [listingAt, hlisting, List.append_assoc, List.append_assoc, List.cons_append]

theorem Follows.returns {depth : Nat} {t : Text} (ht : Follows depth t) : Returns (depth + 1) t := by
  rcases ht with (hnil | hless) | ⟨b, u, rfl, hb, -⟩
  · exact .inl hnil
  · exact .inr (by omega)
  · rw [Returns, blanks_indent depth hb]
    exact .inr (by omega)

theorem returns_else {depth : Nat} (alternate : Option (List Op)) {t : Text} (ht : Follows depth t) :
    Returns (depth + 1) (elseListing depth alternate ++ t) := by
  cases alternate with
  | none => exact ht.returns
  | some ops =>
    right
    rw [elseListing, List.append_assoc, List.append_assoc]
    change blanks (Instruction.indent depth ++ 0x65 :: _) < _
    rw [blanks_indent depth (by decide)]
    omega

/-- No operation stands where a program has ended. -/
theorem Returns.ne_opListing {depth : Nat} {s : Text} (hs : Returns depth s) (op : Op) (t : Text) :
    s ≠ opListing depth op ++ t := by
  obtain ⟨b, u, hlisting, hb, -⟩ := exists_opListing depth op
  rintro rfl
  rw [hlisting, List.append_assoc, List.cons_append] at hs
  rcases hs with hnil | hless
  · exact absurd (List.append_eq_nil_iff.mp hnil).2 (List.cons_ne_nil b _)
  · rw [blanks_indent depth hb] at hless
    omega

/-- No alternate begins where an operation is done. -/
theorem Follows.ne_else {depth : Nat} {s : Text} (hs : Follows depth s) (t : Text) :
    s ≠ Instruction.indent depth ++ (Text.ofString "else\n" ++ t) := by
  rintro rfl
  rcases hs with (hnil | hless) | ⟨b, u, heq, -, hb⟩
  · exact absurd (List.append_eq_nil_iff.mp hnil).2 (List.cons_ne_nil 0x65 _)
  · change blanks (Instruction.indent depth ++ 0x65 :: _) < _ at hless
    rw [blanks_indent depth (by decide)] at hless
    omega
  · exact hb (List.cons.inj (List.append_cancel_left heq)).1.symm

/-! ### Telling listings apart -/

/-- The first line of an operation determines what it shows, whatever comes below. -/
theorem headline_of_opListing {op op' : Op} (hop : op.IsLegible) (hop' : op'.IsLegible) {depth : Nat}
    {s t : Text} (heq : opListing depth op ++ s = opListing depth op' ++ t) :
    op.headline = op'.headline ∧ below depth op ++ s = below depth op' ++ t := by
  have hline : ∀ {op : Op}, op.IsLegible → ∀ b ∈ op.toText, (b == 0x0A) = false := by
    intro op hop b hb
    apply beq_false_of_ne
    rintro rfl
    exact Op.lineFeed_not_mem_toText hop hb
  rw [opListing_eq, opListing_eq, List.append_assoc, List.append_assoc, List.append_assoc,
    List.append_assoc] at heq
  obtain ⟨htext, hrest⟩ := Text.append_inj_of_halts (hline hop) (hline hop')
    (Text.halts_cons rfl _) (Text.halts_cons rfl _) (List.append_cancel_left heq)
  exact ⟨Op.toText_inj hop hop' htext, (List.cons.inj hrest).2⟩

-- The rests are carried along: each part of a listing ends where the condition on what follows it says
-- that no other line of the same part can stand.
mutual

/-- The lines of an operation determine it and where they end. -/
theorem opListing_append_inj {op op' : Op} (hop : op.IsLegible) (hop' : op'.IsLegible) {depth : Nat}
    {s t : Text} (hs : Follows depth s) (ht : Follows depth t)
    (heq : opListing depth op ++ s = opListing depth op' ++ t) : op.plain = op'.plain ∧ s = t := by
  obtain ⟨hheadline, hbelow⟩ := headline_of_opListing hop hop' heq
  cases op with
  | conditional test consequent alternate span =>
    cases op' with
    | conditional test' consequent' alternate' span' =>
      obtain ⟨rfl, -⟩ := Op.conditional.inj hheadline
      rw [below, below, List.append_assoc, List.append_assoc] at hbelow
      obtain ⟨hconsequent, helse⟩ := listingAt_append_inj hop.2.1 hop'.2.1 (returns_else alternate hs)
        (returns_else alternate' ht) hbelow
      obtain ⟨halternate, hst⟩ := elseListing_append_inj hop.2.2 hop'.2.2 hs ht helse
      rw [Op.plain, Op.plain, hconsequent, halternate]
      exact ⟨rfl, hst⟩
    | _ => cases hheadline
  | iteration collection key value body span =>
    cases op' with
    | iteration collection' key' value' body' span' =>
      obtain ⟨rfl, rfl, rfl, -⟩ := Op.iteration.inj hheadline
      obtain ⟨hbody, hst⟩ := listingAt_append_inj hop.2.2.2 hop'.2.2.2 hs.returns ht.returns hbelow
      rw [Op.plain, Op.plain, hbody]
      exact ⟨rfl, hst⟩
    | _ => cases hheadline
  | _ =>
    -- What has no lines below it is what its line shows.
    cases op' with
    | conditional => cases hheadline
    | iteration => cases hheadline
    | _ => exact ⟨hheadline, hbelow⟩

theorem elseListing_append_inj {alternate alternate' : Option (List Op)}
    (halternate : LegibleElse alternate) (halternate' : LegibleElse alternate') {depth : Nat}
    {s t : Text} (hs : Follows depth s) (ht : Follows depth t)
    (heq : elseListing depth alternate ++ s = elseListing depth alternate' ++ t) :
    plainElse alternate = plainElse alternate' ∧ s = t := by
  match alternate, alternate' with
  | none, none => exact ⟨rfl, heq⟩
  | none, some ops =>
    rw [elseListing, elseListing, List.append_assoc, List.append_assoc] at heq
    exact absurd heq (hs.ne_else _)
  | some ops, none =>
    rw [elseListing, elseListing, List.append_assoc, List.append_assoc] at heq
    exact absurd heq.symm (ht.ne_else _)
  | some ops, some ops' =>
    rw [elseListing, elseListing, List.append_assoc _ _ s, List.append_assoc _ _ t] at heq
    obtain ⟨hops, hst⟩ := listingAt_append_inj halternate halternate' hs.returns ht.returns
      (List.append_cancel_left heq)
    rw [plainElse, plainElse, hops]
    exact ⟨rfl, hst⟩

/-- The lines of a program determine it and where they end. -/
theorem listingAt_append_inj {ops ops' : List Op} (hops : LegibleIn ops) (hops' : LegibleIn ops')
    {depth : Nat} {s t : Text} (hs : Returns depth s) (ht : Returns depth t)
    (heq : listingAt depth ops ++ s = listingAt depth ops' ++ t) :
    plainOps ops = plainOps ops' ∧ s = t := by
  match ops, ops' with
  | [], [] => exact ⟨rfl, heq⟩
  | [], op :: rest =>
    rw [listingAt, listingAt, List.append_assoc] at heq
    exact absurd heq (hs.ne_opListing op _)
  | op :: rest, [] =>
    rw [listingAt, listingAt, List.append_assoc] at heq
    exact absurd heq.symm (ht.ne_opListing op _)
  | op :: rest, op' :: rest' =>
    rw [listingAt, listingAt, List.append_assoc, List.append_assoc] at heq
    obtain ⟨hop, hmore⟩ := opListing_append_inj hops.1 hops'.1 (follows_listingAt rest hs)
      (follows_listingAt rest' ht) heq
    obtain ⟨hrest, hst⟩ := listingAt_append_inj hops.2 hops'.2 hs ht hmore
    rw [plainOps, plainOps, hop, hrest]
    exact ⟨rfl, hst⟩

end

/-! ### What a listing leaves out -/

theorem elementText_tidied {attrs : Attribute.Plan} (hattrs : attrs.IsLegible) (tag : Text) :
    Op.elementText tag attrs.tidied = Op.elementText tag attrs := by
  rw [Op.elementText, Op.elementText, attrs.size_tidied, hattrs.toText_tidied]

theorem Op.toText_plain {op : Op} (hop : op.IsLegible) : op.plain.toText = op.toText := by
  rw [toText_eq, toText_eq]
  cases op with
  | «open» tag attrs span =>
    change _ ++ 0x20 :: elementText tag attrs.tidied = _
    rw [elementText_tidied hop.2]
    rfl
  | void tag attrs span =>
    change _ ++ 0x20 :: elementText tag attrs.tidied = _
    rw [elementText_tidied hop.2]
    rfl
  | _ => rfl

mutual

theorem opListing_plain {op : Op} (hop : op.IsLegible) (depth : Nat) :
    opListing depth op.plain = opListing depth op := by
  have hbelow : below depth op.plain = below depth op := by
    match op with
    | .conditional test consequent alternate span =>
      rw [Op.plain, below, below, listingAt_plain hop.2.1, elseListing_plain hop.2.2]
    | .iteration collection key value body span =>
      rw [Op.plain, below, below, listingAt_plain hop.2.2.2]
    | .open .. | .void .. | .close .. | .literal .. | .bound .. => rfl
  rw [opListing_eq, opListing_eq, Op.toText_plain hop, hbelow]

theorem elseListing_plain {alternate : Option (List Op)} (halternate : LegibleElse alternate)
    (depth : Nat) : elseListing depth (plainElse alternate) = elseListing depth alternate := by
  match alternate with
  | none => rfl
  | some ops => rw [plainElse, elseListing, elseListing, listingAt_plain halternate]

theorem listingAt_plain {ops : List Op} (hops : LegibleIn ops) (depth : Nat) :
    listingAt depth (plainOps ops) = listingAt depth ops := by
  match ops with
  | [] => rfl
  | op :: rest =>
    rw [plainOps, listingAt, listingAt, opListing_plain hops.1, listingAt_plain hops.2]

end

mutual

theorem runOp_plain (op : Op) (context : Value) : runOp op.plain context = runOp op context := by
  match op with
  | .open tag attrs span =>
    rw [Op.plain, runOp, runOp, opening, opening, attrs.evaluate_tidied]
  | .void tag attrs span =>
    rw [Op.plain, runOp, runOp, opening, opening, attrs.evaluate_tidied]
  | .close .. | .literal .. | .bound .. => rfl
  | .conditional test consequent alternate span =>
    rw [Op.plain, runOp, runOp, run_plain, runAlternate_plain]
  | .iteration collection key value body span =>
    rw [Op.plain, runOp, runOp]
    apply congrArg (List.flatMap · _)
    funext entry
    exact run_plain body _

theorem runAlternate_plain (alternate : Option (List Op)) (context : Value) :
    runAlternate (plainElse alternate) context = runAlternate alternate context := by
  match alternate with
  | none => rfl
  | some ops => exact run_plain ops context

/-- A program is run as it is listed. -/
theorem run_plain (ops : List Op) (context : Value) : run (plainOps ops) context = run ops context := by
  match ops with
  | [] => rfl
  | op :: rest => rw [plainOps, run, run, runOp_plain, run_plain]

end

theorem exists_program {o : Options} {text : Text} (h : (Stencil.compile o text).isOk = true) :
    ∃ program, Stencil.compile o text = .ok program := by
  cases hcompile : Stencil.compile o text with
  | error e =>
    rw [hcompile] at h
    cases h
  | ok program => exact ⟨program, rfl⟩

/-- Programs that were compiled without keys have the same listing exactly if they are the same but for
places and for the blanks around the paths of spread attributes, and then they are run alike. -/
theorem listing_determines_program {o o' : Options} (hkey : o.key = []) (hkey' : o'.key = [])
    {text text' : Text} {program program' : List Op} (hprogram : Stencil.compile o text = .ok program)
    (hprogram' : Stencil.compile o' text' = .ok program') :
    (listing program = listing program' ↔ plainOps program = plainOps program') ∧
      (listing program = listing program' → ∀ context, run program context = run program' context) := by
  have hlegible := legible_of_compiled hkey hprogram
  have hlegible' := legible_of_compiled hkey' hprogram'
  have hinj : listing program = listing program' → plainOps program = plainOps program' := by
    intro heq
    have hends : listingAt 0 program ++ [] = listingAt 0 program' ++ [] := congrArg (· ++ []) heq
    exact (listingAt_append_inj hlegible hlegible' (.inl rfl) (.inl rfl) hends).1
  refine ⟨⟨hinj, ?_⟩, ?_⟩
  · intro hplain
    rw [listing, listing, ← listingAt_plain hlegible, ← listingAt_plain hlegible', hplain]
  · intro heq context
    rw [← run_plain program, ← run_plain program', hinj heq]

/-- Rows that are open or closed. -/
def rowsSource : Text :=
  "@for (row of rows) \x7b@if (row.open) \x7b<li class=\"a b\" ...row>\x7b\x7brow.title\x7d\x7d</li>\x7d@else \x7b<hr>\x7d\x7d"

/-- The same rows, written more loosely. -/
def looseRowsSource : Text :=
  "@for ( row  of rows ) \x7b @if (row.open) \x7b<li class='a b' ...\u2003row >\x7b\x7b row.title \x7d\x7d</li> \x7d
  @else \x7b <hr/><!-- closed --> \x7d \x7d"

theorem rows_listed_alike : ∃ program program',
    Stencil.compile .default rowsSource = .ok program ∧
      Stencil.compile ⟨"rows.html", false, []⟩ looseRowsSource = .ok program' ∧
      listing program = listing program' ∧ plainOps program = plainOps program' ∧
      ∀ context, run program context = run program' context := by
  obtain ⟨program, hprogram⟩ := @exists_program .default rowsSource (by decide +kernel)
  obtain ⟨program', hprogram'⟩ := @exists_program ⟨"rows.html", false, []⟩ looseRowsSource (by decide +kernel)
  have hlistings : (Stencil.compile .default rowsSource).toOption.map listing =
      (Stencil.compile ⟨"rows.html", false, []⟩ looseRowsSource).toOption.map listing := by
    decide +kernel
  rw [hprogram, hprogram'] at hlistings
  have hlisting : listing program = listing program' := Option.some.inj hlistings
  have hfaithful := listing_determines_program rfl rfl hprogram hprogram'
  exact ⟨program, program', hprogram, hprogram', hlisting, hfaithful.1.mp hlisting, hfaithful.2 hlisting⟩

/-- The attributes of the first operation, if it opens an element. -/
def firstPlan? : List Op → Option Attribute.Plan
  | .open _ attrs _ :: _ => some attrs
  | _ => none

/-- A blank between a spread mark and its path is not listed, but it is part of the attribute. -/
theorem spread_blank_not_listed : ∃ program program',
    Stencil.compile .default "<a ...x></a>" = .ok program ∧
      Stencil.compile .default "<a ...\u2003x></a>" = .ok program' ∧
      listing program = listing program' ∧ unplacedOps program ≠ unplacedOps program' := by
  obtain ⟨program, hprogram⟩ := @exists_program .default "<a ...x></a>" (by decide +kernel)
  obtain ⟨program', hprogram'⟩ := @exists_program .default "<a ...\u2003x></a>" (by decide +kernel)
  refine ⟨program, program', hprogram, hprogram', ?_, ?_⟩
  · have hlistings : (Stencil.compile .default "<a ...x></a>").toOption.map listing =
        (Stencil.compile .default "<a ...\u2003x></a>").toOption.map listing := by decide +kernel
    rw [hprogram, hprogram'] at hlistings
    exact Option.some.inj hlistings
  · intro hsame
    have hplans : (Stencil.compile .default "<a ...x></a>").toOption.map (firstPlan? ∘ unplacedOps) ≠
        (Stencil.compile .default "<a ...\u2003x></a>").toOption.map (firstPlan? ∘ unplacedOps) := by
      decide +kernel
    rw [hprogram, hprogram'] at hplans
    exact hplans (congrArg (fun ops => some (firstPlan? ops)) hsame)

end Program

end Stencil
