import Parley.Proofs.Compilation.Relays
import Parley.Proofs.Compilation.Watch
import Parley.Proofs.Draft.Reached
import Parley.Proofs.Session.Integrity

/-!
# Compiled scripts are intact

Compiling a script looks up only nodes that are there, whether the script is right or wrong.
Every place that a compiled graph names is that of a node, and each of its choices is offered
once, under the line to which it belongs.  So playing it, too, looks up only what is there.
-/

namespace Parley

open Parley.Script

variable {scope : Scope} {statements : List Statement} {final : Draft}

/-- The choices under a line of a finished draft are those that belong to it, in the order of
their creation. -/
theorem listsChoices_of_stepAll (read : Draft.empty.stepAll scope statements = .ok final) :
    final.closeDialogue.graph.ListsChoices := by
  refine .of_mem_iff (fun id choice => ?_) fun id => ?_
  · rw [choices_line_final read, List.mem_map]
    constructor
    · rintro ⟨place, isRoot, rfl⟩
      obtain ⟨member, rooted⟩ := List.mem_filter.mp isRoot
      have within := List.mem_range.mp member
      have isRoot := of_decide_eq_true rooted
      have option := constructAt_of_rootAt isRoot
      have offered := choiceAt_lt_choiceAt read option within (Nat.le_refl _)
      have last : choiceAt scope statements statements.length =
          final.closeDialogue.graph.choices.size := by
        rw [choiceAt, draftAfter_length read, final.graphChoices_closeDialogue]
      rw [last] at offered
      have root := root_choice_final read option within
      rw [isRoot] at root
      exact ⟨offered, Option.some.inj root⟩
    · rintro ⟨known, rfl⟩
      obtain ⟨place, within, -, same, root⟩ := exists_rootAt_final read known
      refine ⟨place, List.mem_filter.mpr ⟨List.mem_range.mpr within, ?_⟩, same⟩
      exact decide_eq_true root
  · rw [choices_line_final read, List.pairwise_map]
    refine (List.pairwise_lt_range.filter _).imp_of_mem ?_
    intro early late first second before
    obtain ⟨-, rooted⟩ := List.mem_filter.mp first
    obtain ⟨member, -⟩ := List.mem_filter.mp second
    have option := constructAt_of_rootAt (of_decide_eq_true rooted)
    exact choiceAt_lt_choiceAt read option before (Nat.le_of_lt (List.mem_range.mp member))

variable {σ : Type} {registry : Registry σ} {store : Store} {script : List String} {graph : Graph}

/-- Every place that a compiled graph names is that of a node. -/
theorem intact_of_compile (compiled : (compile registry store script).graph = .ok graph) :
    graph.Intact := by
  obtain ⟨final, read, same⟩ := exists_draft_of_compile compiled
  have within : graph.Within := same ▸ within_of_stepAll read
  have pass : graph.RelaysPass := same ▸ Draft.relaysPass_of_stepAll read
  have entries : ∀ title id, final.closeDialogue.graph.entries.get? title = some id →
      id < final.closeDialogue.graph.lines.size := by
    intro title id found
    have begun := lt_size_of_beginsBlock read (Nat.le_refl _) id
    rw [draftAfter_length read] at begun
    rw [Draft.closeDialogue_keeps (fun draft => draft.graph.entries) Draft.entries_completeBranch
      final] at found
    exact Nat.lt_of_lt_of_le (begun (.entry title found)) (Draft.Extends.closeDialogue final).size
  exact {
    entries := same ▸ entries
    next := within.next
    branch := within.branch
    choices := within.choices
    arm := fun id target leads => (pass.arm id target leads).known
    choiceNext := fun id target leads => (pass.choice id target leads).known
    choiceBranch := within.choiceBranch
    root := fun id present => (speaks_root_of_compile compiled present).lt_size }

/-- Compiling any script finds every node that it looks up or changes, on success and on failure.
The graph of a script that compiles names only places of nodes, and it offers each choice once,
under its root, and in the order of creation.  However it is played, in the commands and the
world of the session or in any others, walks and operations find every node that they look up. -/
theorem integrity_of_compile (registry : Registry σ) (store : Store) (script : List String) :
    Watch.presentNodes.compile? registry store script = some (compile registry store script) ∧
    ∀ graph, (compile registry store script).graph = .ok graph →
      graph.Intact ∧ graph.ListsChoices ∧
      ∀ {τ : Type} (commands : Registry τ) (world : World τ) (moves : List (Move τ)),
        let session := (Session.ofGraph graph commands world).afterMoves moves
        session.Intact ∧
        (∀ {ρ : Type} (others : Registry ρ) (elsewhere : World ρ),
          session.graph.WalksWithin others elsewhere) ∧
        ∀ operation, session.operate? operation = some (session.operate operation) := by
  constructor
  · exact Watch.Lenient.presentNodes.compile? registry store script
  · intro graph compiled
    have intact := intact_of_compile compiled
    obtain ⟨final, read, same⟩ := exists_draft_of_compile compiled
    refine ⟨intact, same ▸ listsChoices_of_stepAll read, fun commands world moves => ?_⟩
    have played := (Session.Intact.ofGraph intact commands world).afterMoves moves
    exact ⟨played, fun others elsewhere => played.graph.walksWithin others elsewhere,
      fun operation => (played.operate? operation).found⟩

/-- A line with two options, of which the first holds a branch and a way back. -/
def wayBack : List String :=
  ["- Hub", "A: root", "> ask", "\tA: well", "\t(if $met == true)", "\t\tA: again <-", "> leave",
    "A: bye"]

/-- A line whose return markers lead further than there are options around it. -/
def tooFarBack : List String :=
  ["- Hub", "A: root", "> ask", "\tA: well <- <-"]

/-- The first script compiles, and the player chooses the option that leads back.  The second
script fails with its last line in the middle of being linked. -/
theorem integrity_of_way_back :
    let world : World Unit := ⟨NameMap.ofList [("met", .boolean true)], ()⟩
    let graph := compiledGraph hostless world.store wayBack
    let session := (Session.ofGraph graph hostless world).afterMoves
      [.operate (.start "Hub"), .operate .next]
    (graph.Intact ∧ graph.ListsChoices ∧ (graph.line 0).choices = [0, 1] ∧
      (graph.choice 0).root = 0 ∧ (graph.line 2).next = some 0) ∧
    (session.pending?.map List.length = some 2 ∧
      session.operate? (.choose 0) = some (session.operate (.choose 0)) ∧
      (session.operate (.choose 0)).2.position = .reached 1) ∧
    Watch.presentNodes.compile? hostless .empty tooFarBack =
        some (compile hostless .empty tooFarBack) ∧
      (compile hostless .empty tooFarBack).graph.toOption = none := by
  intro world graph session
  have compiled : (compile hostless world.store wayBack).graph = .ok graph := by
    apply compile_eq_ok_compiledGraph
    decide +kernel
  obtain ⟨-, integrity⟩ := integrity_of_compile hostless world.store wayBack
  obtain ⟨intact, lists, plays⟩ := integrity graph compiled
  obtain ⟨-, -, operates⟩ := plays hostless world [.operate (.start "Hub"), .operate .next]
  exact ⟨⟨intact, lists, by decide +kernel, by decide +kernel, by decide +kernel⟩,
    ⟨by decide +kernel, operates (.choose 0), by decide +kernel⟩,
    (integrity_of_compile hostless .empty tooFarBack).1, by decide +kernel⟩

end Parley
