import Parley.Proofs.Compilation.Sound
import Parley.Proofs.Draft.Arms
import Parley.Proofs.Draft.Contents

/-!
# A graph holds what its script says

Compiling loses nothing and makes nothing twice.  The spoken lines of a graph are those of the
script, its choices are the options, its branches have the arms, all in the order of the script,
and its dialogues are those that say something or branch.  What else there is are relays and the
arms without conditions that lead to them.
-/

namespace Parley

open Parley.Script

variable {σ : Type} {registry : Registry σ} {store : Store} {script : List String} {graph : Graph}

/-- The arms of a script are the arms of the branches of a graph, where `owner` tells to which
branch each arm belongs. -/
structure DividesArms (scope : Scope) (statements : List Statement) (graph : Graph)
    (owner : Nat → BranchIndex) : Prop where
  /-- The first arms belong to the branches one by one. -/
  opened : (placesOf statements .ifArm statements.length).map owner =
    List.range graph.branches.size
  /-- A further arm belongs to a branch that an earlier first arm of its dialogue has opened at its
  indentation. -/
  extended : ∀ place ∈ placesOf statements .elseArm statements.length,
    ∃ opening ∈ placesOf statements .ifArm statements.length, opening < place ∧
      owner opening = owner place ∧ indentAt statements opening = indentAt statements place ∧
      SameDialogue statements opening place
  /-- A branch begins with the arm that has opened it. -/
  first : ∀ (id : BranchIndex) (place : Nat),
    (placesOf statements .ifArm statements.length)[id]? = some place →
      (armsOf statements owner id statements.length).head? = some place
  /-- The arms of a branch ask for what the script asks for, in its order; one without conditions
  comes last, unless the script has it. -/
  asked : ∀ id < graph.branches.size, ∃ guards,
    (armsOf statements owner id statements.length).mapM (guardAt scope statements) = .ok guards ∧
      (graph.branch id).arms.map Arm.conditions = guards ++ if [] ∈ guards then [] else [[]]

/-- A graph says, offers and asks for what statements do, in their order. -/
structure Contains (scope : Scope) (statements : List Statement) (graph : Graph) : Prop where
  said : Draft.linesOf scope statements = .ok graph.said
  offered : Draft.choicesOf scope statements = .ok graph.offered
  arms : ∃ owner, DividesArms scope statements graph owner
  entries : ∀ title, (∃ line, graph.entries.get? title = some line) ↔
    ∃ place, Draft.BeginsAt statements title place ∧
      (constructAt statements (place + 1) = some .speech ∨
        constructAt statements (place + 1) = some .ifArm)

theorem dividesArms_of_stepAll {scope : Scope} {statements : List Statement} {final : Draft}
    (read : Draft.empty.stepAll scope statements = .ok final) :
    DividesArms scope statements final.closeDialogue.graph (armedAt scope statements) := by
  have whole := draftAfter_length read
  have nested : (draftAfter scope statements statements.length).Nested := nested_draftAfter _
  have size : final.closeDialogue.graph.branches.size = final.graph.branches.size :=
    Draft.closeDialogue_keeps (fun closed => closed.graph.branches.size)
      Draft.size_branches_completeBranch final
  have within := Nat.le_refl statements.length
  refine ⟨?_, ?_, fun id place opens => head?_armsOf read within opens, ?_⟩
  · rw [map_armedAt_placesOf read within, whole, size]
  · intro place member
    obtain ⟨inside, further⟩ := List.mem_filter.mp member
    obtain ⟨opening, before, opens, same, level, dialogue⟩ :=
      exists_opening read (of_decide_eq_true further)
    refine ⟨opening, List.mem_filter.mpr ⟨?_, decide_eq_true opens⟩, before, same, level, dialogue⟩
    exact List.mem_range.mpr (Nat.lt_trans before (List.mem_range.mp inside))
  · intro id known
    obtain ⟨guards, readGuards, has⟩ := exists_guards read within id
    rw [whole] at has nested
    have closed := has.of_closes (nested.branches.imp fun both => both.1) final.closes_closeDialogue
    refine ⟨guards, readGuards, ?_⟩
    rcases closed with same | ⟨same, asks, -⟩
    · obtain ⟨arm, member, none⟩ := (Branch.isExhaustive_iff _).mp
        ((Draft.Sound.empty.stepAll read).exhaustive_closeDialogue id known)
      have complete : [] ∈ guards := by
        rw [← same, ← none]
        exact List.mem_map_of_mem member
      rw [same, if_pos complete, List.append_nil]
    · rw [same, if_neg asks]

/-- Compiling loses nothing and makes nothing twice. -/
theorem contains_of_compile (compiled : (compile registry store script).graph = .ok graph) :
    Contains (scopeOf registry store script) (statementsOf script) graph := by
  obtain ⟨final, read, rfl⟩ := exists_draft_of_compile compiled
  obtain ⟨lines, choices, readLines, readChoices, contents⟩ := Draft.contents_of_stepAll read
  rw [← final.contents_closeDialogue] at contents
  have said : final.closeDialogue.graph.said = lines := congrArg Prod.fst contents
  have offered : final.closeDialogue.graph.offered = choices := congrArg Prod.snd contents
  refine ⟨said ▸ readLines, offered ▸ readChoices, ⟨_, dividesArms_of_stepAll read⟩, ?_⟩
  intro title
  have entries := Draft.closeDialogue_keeps (fun draft => draft.graph.entries)
    Draft.entries_completeBranch final
  have begun := Draft.exists_entry_iff_beginsAt read (Nat.le_refl _) title
  rw [draftAfter_length read] at begun
  rw [entries, begun]
  constructor
  · rintro ⟨place, -, begins, opens⟩
    exact ⟨place, begins, opens⟩
  · rintro ⟨place, begins, opens⟩
    refine ⟨place, ?_, begins, opens⟩
    have found : ∃ construct, constructAt (statementsOf script) (place + 1) = some construct :=
      opens.elim (fun same => ⟨_, same⟩) fun same => ⟨_, same⟩
    obtain ⟨construct, same⟩ := found
    obtain ⟨statement, there, -⟩ := Option.map_eq_some_iff.mp same
    exact (List.getElem?_eq_some_iff.mp there).1

/-- A dialogue that is never begun, and one with an option that has no body and a branch without
an arm that is taken in any case. -/
def crossroads : List String :=
  ["- Empty", "- D", "A: hello", "> Stay", "> (if $met == true) Go", "\tB: bye", "A: well",
    "(if $met == true)", "\tA: again", "(else if 1 == 2)", "\tA: never", "A: end"]

/-- Two relays are made, for the option and for the branch, and the branch gets a third arm. -/
theorem contains_of_crossroads :
    let store := NameMap.ofList [("met", .boolean false)]
    let graph := compiledGraph hostless store crossroads
    (compile hostless store crossroads).graph = .ok graph ∧ graph.lines.size = 8 ∧
      graph.said.length = 6 ∧ graph.offered.map Choice.text = ["Stay", "Go"] ∧
      (graph.branch 0).arms.map (fun arm => arm.conditions.length) = [1, 1, 0] ∧
      graph.titles = ["D"] ∧
      Contains (scopeOf hostless store crossroads) (statementsOf crossroads) graph := by
  intro store graph
  have compiled : (compile hostless store crossroads).graph = .ok graph := by
    apply compile_eq_ok_compiledGraph
    decide +kernel
  exact ⟨compiled, by decide +kernel, by decide +kernel, by decide +kernel, by decide +kernel,
    by decide +kernel, contains_of_compile compiled⟩

end Parley
