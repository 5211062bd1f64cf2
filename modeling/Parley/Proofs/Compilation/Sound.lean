import Parley.Proofs.Draft.Sound

/-!
# Compiled graphs are sound

A script that compiles has been read statement by statement into a draft, and its
graph is that of the draft once all its branches are closed.  So whatever every
step keeps is true of the graph.
-/

namespace Parley

open Parley.Script

variable {σ : Type} {registry : Registry σ} {store : Store} {script : List String} {graph : Graph}

/-- The variables and commands that the calls of a script are checked against. -/
def scopeOf (registry : Registry σ) (store : Store) (script : List String) : Scope :=
  Scope.ofWorld registry (compile registry store script).store

/-- The statements of a script. -/
def statementsOf (script : List String) : List Statement :=
  Statement.all (script.map String.toList)

/-- The graph of a script, if it compiles. -/
def compiledGraph (registry : Registry σ) (store : Store) (script : List String) : Graph :=
  (compile registry store script).graph.toOption.getD Graph.empty

/-- The commands of a host that adds none of its own and keeps no state. -/
def hostless : Registry Unit := Registry.builtin

theorem compile_eq_ok_compiledGraph
    (compiles : (compile registry store script).graph.toOption.isSome = true) :
    (compile registry store script).graph = .ok (compiledGraph registry store script) := by
  unfold compiledGraph
  rcases outcome : (compile registry store script).graph with diagnostic | graph
  · rw [outcome] at compiles
    cases compiles
  · rfl

/-- A script that compiles has been read into a draft of its graph. -/
theorem exists_draft_of_compile
    (compiled : (compile registry store script).graph = .ok graph) :
    ∃ draft, Draft.empty.stepAll (scopeOf registry store script) (statementsOf script) =
        .ok draft ∧
      graph = draft.closeDialogue.graph := by
  obtain ⟨draft, read, finished⟩ := bind_eq_ok_iff.mp compiled
  exact ⟨draft, read, (Draft.finish_eq_ok_iff.mp finished).1⟩

/-- Every call of a compiled graph was checked, and every branch that is named
exists. -/
theorem sound_of_compile (compiled : (compile registry store script).graph = .ok graph) :
    graph.Sound (scopeOf registry store script) := by
  obtain ⟨draft, read, rfl⟩ := exists_draft_of_compile compiled
  exact (Draft.Sound.empty.stepAll read).closeDialogue.graph

/-- Every branch of a compiled graph has an arm without conditions. -/
theorem exhaustive_of_compile (compiled : (compile registry store script).graph = .ok graph)
    {id : BranchIndex} (known : id < graph.branches.size) :
    (graph.branch id).isExhaustive = true := by
  obtain ⟨draft, read, rfl⟩ := exists_draft_of_compile compiled
  exact (Draft.Sound.empty.stepAll read).exhaustive_closeDialogue id known

/-- Every branch of a compiled graph ends with its only arm without conditions. -/
theorem exists_default_of_compile (compiled : (compile registry store script).graph = .ok graph)
    {id : BranchIndex} (known : id < graph.branches.size) :
    ∃ earlier last, (graph.branch id).arms = earlier ++ [last] ∧ last.conditions = [] ∧
      ∀ arm ∈ earlier, arm.conditions ≠ [] :=
  ((sound_of_compile compiled).branches id known).exists_default
    (exhaustive_of_compile compiled known)

end Parley
