import Stencil.Proofs.Meaning

/-!
# Loops need no guard

A loop over nothing does nothing, so a test of its own collection around a loop should make no difference. It makes
none if every value that counts as false has no entries. The two questions are asked of a value in different ways:
whether it counts as true is asked of the value itself, its entries are looked for behind references. They agree
because a reference counts as true whatever it leads to.

`guarded_loop_redundant` carries this over to the programs that the loop and the guarded loop are compiled to.
-/

namespace Stencil

namespace Value

/-- A value that counts as false has nothing to be visited. -/
theorem entries_of_not_isTruthy {v : Value} (hv : v.isTruthy = false) : v.entries = [] := by
  cases v with
  | list kind items =>
    have hitems : items = [] := by simpa [isTruthy] using hv
    rw [hitems]
    rfl
  | map es =>
    have hes : es = [] := by simpa [isTruthy] using hv
    rw [hes]
    rfl
  | dict kind es =>
    have hes : es = [] := by simpa [isTruthy] using hv
    simp [hes, entries, followed, byText]
  | table type es =>
    have hes : es = [] := by simpa [isTruthy] using hv
    simp [hes, entries, followed, byText]
  -- A reference counts as true, even if what it leads to does not.
  | ref target => cases hv
  | _ => rfl

end Value

namespace Program

variable {key : Text}

/-- What a loop means does not change when it is only reached if its collection counts as true. -/
theorem denote_guarded (path : Path) (keyName valueName : Text) (body : List Template.Node)
    (spans : Template.IterationSpans) (guardSpans : Template.ConditionalSpans) (context : Value) :
    denote key (.conditional path [.iteration path keyName valueName body spans] none guardSpans) context =
      denote key (.iteration path keyName valueName body spans) context := by
  rw [denote, denoteAll, denoteAll, List.append_nil, denoteAlternate]
  cases htruthy : (Value.resolve path context).isTruthy with
  | true => rfl
  | false =>
    rw [denote, Value.entries_of_not_isTruthy htruthy]
    rfl

/-- A body that is accepted by itself is accepted as the body of a loop, wherever the loop stands. -/
theorem exists_compileNode_iteration {body : List Template.Node} {span : Option Span} {bodyProgram : List Op}
    (hbody : compile key (.block body span) = .ok bodyProgram) (parent : Template.NodeKind) (path : Path)
    (keyName valueName : Text) (spans : Template.IterationSpans) :
    ∃ ops, compileNode key parent (.iteration path keyName valueName body spans) = .ok ops := by
  obtain ⟨inner, hinner, hprogram⟩ := compile_eq_ok.mp hbody
  rw [compileNode] at hinner
  exact ⟨_, compileNode_iteration_eq_ok.mpr ⟨inner, bodyProgram, hinner, hprogram, rfl⟩⟩

theorem exists_compile_conditional {node : Template.Node} {ops : List Op}
    (hnode : compileNode key .block node = .ok ops) (test : Path) (spans : Template.ConditionalSpans) :
    ∃ program, compile key (.conditional test [node] none spans) = .ok program := by
  have hnodes : compileNodes key .block [node] = .ok ops :=
    compileNodes_cons_eq_ok.mpr ⟨ops, [], hnode, rfl, List.append_nil ops⟩
  have hconsequent := (balanced_compileNodes hnodes).finish_eq
  exact ⟨_, compile_of_compileNode (compileNode_conditional_eq_ok.mpr ⟨ops, _, none, hnodes, hconsequent, rfl, rfl⟩)⟩

/-- A body that is accepted by itself is accepted as the body of a loop, with and without a guard, and the loop with
the guard gives the same instructions as the loop without, in every context: those of the body for each entry of
the collection. A guard cannot keep an entry from being visited, since a value that counts as false has none. -/
theorem guarded_loop_redundant (key : Text) (path : Path) (keyName valueName : Text) (body : List Template.Node)
    (span : Option Span) (spans : Template.IterationSpans) (guardSpans : Template.ConditionalSpans)
    (bodyProgram : List Op) (hbody : compile key (.block body span) = .ok bodyProgram) :
    (∀ v : Value, v.isTruthy = false → v.entries = []) ∧
      ∃ loop guarded, compile key (.iteration path keyName valueName body spans) = .ok loop ∧
        compile key (.conditional path [.iteration path keyName valueName body spans] none guardSpans) = .ok guarded ∧
        ∀ context, run guarded context = run loop context ∧
          run loop context = (Value.resolve path context).entries.flatMap fun entry =>
            run bodyProgram (.overlay context (some (loopBindings keyName valueName entry))) := by
  obtain ⟨ops, hops⟩ := exists_compileNode_iteration hbody .none path keyName valueName spans
  obtain ⟨inside, hinside⟩ := exists_compileNode_iteration hbody .block path keyName valueName spans
  obtain ⟨guarded, hguarded⟩ := exists_compile_conditional hinside path guardSpans
  have hloop := compile_of_compileNode hops
  refine ⟨fun v => Value.entries_of_not_isTruthy, _, guarded, hloop, hguarded, fun context => ⟨?_, ?_⟩⟩
  · rw [run_compiled hguarded, run_compiled hloop, denote_guarded]
  · have hmeaning : ∀ c, run bodyProgram c = denoteAll key body c := by
      intro c
      rw [run_compiled hbody, denote]
    simp only [run_compiled hloop, denote, hmeaning]

/-- The rows of a list, with the number of each. -/
def numberedRows : List Template.Node :=
  [.element "li" [⟨"id", .path, "__key__", ⟨none, none, none⟩⟩] [.expression ["row", "title"] none] false
    ⟨none, none, none, none⟩]

def numberedRowsProgram : List Op :=
  [.open "li" ⟨none, [⟨.static, "id", .bound ["__key__"]⟩]⟩ none, .bound ["row", "title"] none, .close "li" none]

theorem numberedRows_guard_redundant :
    compile [] (.block numberedRows none) = .ok numberedRowsProgram ∧
      ∃ loop guarded,
        compile [] (.iteration ["rows"] [] "row" numberedRows ⟨none, none⟩) = .ok loop ∧
        compile [] (.conditional ["rows"] [.iteration ["rows"] [] "row" numberedRows ⟨none, none⟩] none
          ⟨none, none, none⟩) = .ok guarded ∧
        run guarded (.map [("rows", .dict .any [])]) = run loop (.map [("rows", .dict .any [])]) ∧
        run guarded (.map [("rows", .ref (.list .any [.text "a", .null]))]) =
          run loop (.map [("rows", .ref (.list .any [.text "a", .null]))]) := by
  have hbody : compile [] (.block numberedRows none) = .ok numberedRowsProgram := rfl
  obtain ⟨_, loop, guarded, hloop, hguarded, hruns⟩ :=
    guarded_loop_redundant [] ["rows"] [] "row" numberedRows none ⟨none, none⟩ ⟨none, none, none⟩ _ hbody
  exact ⟨hbody, loop, guarded, hloop, hguarded, (hruns _).1, (hruns _).1⟩

end Program

end Stencil
