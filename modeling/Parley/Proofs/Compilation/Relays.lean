import Parley.Proofs.Compilation.Rejoining
import Parley.Proofs.Draft.Borders
import Parley.Proofs.Draft.Relays
import Parley.Proofs.Session.Arrivals

/-!
# The relays of a compiled script are harmless

A relay of a compiled graph only passes on.  It has a branch only where a dialogue begins, and
then nothing leads back to it.  So however a compiled script is played, and with whatever
commands and variables, a walk crosses two relays at most, and none is ever given up.
-/

namespace Parley

open Parley.Script

variable {σ : Type} {registry : Registry σ} {store : Store} {script : List String} {graph : Graph}

/-- Choices are offered under spoken lines. -/
theorem speaks_root_of_compile (compiled : (compile registry store script).graph = .ok graph)
    {choice : ChoiceIndex} (known : choice < graph.choices.size) :
    graph.Speaks (graph.choice choice).root := by
  obtain ⟨final, read, rfl⟩ := exists_draft_of_compile compiled
  obtain ⟨place, -, option, -, root⟩ := exists_rootAt_final read known
  obtain ⟨spoken, -, plain, rooted, -⟩ := exists_rootAt read option
  rw [rooted] at root
  rw [← Option.some.inj root]
  exact isRelay_lineAt compiled plain.constructAt_eq

/-- A relay of a compiled graph says, does and offers nothing, and it hands on to a spoken line
or to nothing.  It has a branch only if a dialogue begins with it, and then no link leads to it.
So however the graph is played, in the commands and the world of the session or in any others, a
walk crosses two relays at most and is never given up. -/
theorem walksShort_of_compile (compiled : (compile registry store script).graph = .ok graph) :
    (∀ id, (graph.line id).isRelay = true →
      (graph.line id).speaker = none ∧ (graph.line id).commands = [] ∧
        (graph.line id).choices = [] ∧
        (∀ target, (graph.line id).next = some target → graph.Speaks target) ∧
        ∀ branch, (graph.line id).branch = some branch →
          (∃ title, graph.entries.get? title = some id) ∧ ¬ graph.IsTarget id) ∧
    ∀ {τ : Type} (commands : Registry τ) (world : World τ) (moves : List (Move τ)),
      let session := (Session.ofGraph graph commands world).afterMoves moves
      (∀ {ρ : Type} (others : Registry ρ) (elsewhere : World ρ),
        session.graph.WalksShort others elsewhere) ∧
      ∀ operation, Arrives (session.operate operation).1 := by
  have pass : graph.RelaysPass := by
    obtain ⟨final, read, rfl⟩ := exists_draft_of_compile compiled
    exact Draft.relaysPass_of_stepAll read
  constructor
  · intro id relay
    obtain ⟨speaker, commands, choices⟩ := pass.bare id relay
    refine ⟨speaker, commands, choices, pass.next id, fun branch branched => ?_⟩
    have roots : ∀ choice < graph.choices.size, graph.Speaks (graph.choice choice).root :=
      fun _ known => speaks_root_of_compile compiled known
    exact ⟨pass.entry id branch relay branched, pass.not_isTarget roots relay branched⟩
  · intro τ commands world moves session
    have same := (Session.ofGraph graph commands world).remembers_afterMoves moves
    have played : session.graph.RelaysPass := pass.remembers same
    exact ⟨fun others elsewhere => played.walksShort others elsewhere,
      Session.arrives_operate (played.walksShort session.registry session.world)⟩

/-- A dialogue that begins with a branch for want of a line, and whose branch has no body for
want of an `else`. -/
def twoRelays : List String :=
  ["- D", "(if $met == true)", "\tA: again", "A: end"]

/-- At the start of the dialogue two relays are crossed: the one with the branch, to which
nothing leads, and the one in its place without conditions. -/
theorem walksShort_of_two_relays :
    let world : World Unit := ⟨NameMap.ofList [("met", .boolean false)], ()⟩
    let graph := compiledGraph hostless world.store twoRelays
    graph.entries.get? "D" = some 0 ∧ (graph.line 0).isRelay = true ∧
      (graph.line 0).branch = some 0 ∧ ¬ graph.IsTarget 0 ∧
      graph.crossed hostless (some 0) world = [0, 2] ∧
      ((Session.ofGraph graph hostless world).afterMoves
        [.operate (.start "D")]).position = .reached 3 ∧
      graph.WalksShort hostless world := by
  intro world graph
  have compiled : (compile hostless world.store twoRelays).graph = .ok graph := by
    apply compile_eq_ok_compiledGraph
    decide +kernel
  obtain ⟨relays, walks⟩ := walksShort_of_compile compiled
  have relay : (graph.line 0).isRelay = true := by decide +kernel
  have branched : (graph.line 0).branch = some 0 := by decide +kernel
  obtain ⟨-, -, -, -, branches⟩ := relays 0 relay
  obtain ⟨short, -⟩ := walks hostless world []
  exact ⟨by decide +kernel, relay, branched, (branches 0 branched).2, by decide +kernel,
    by decide +kernel, short hostless world⟩

end Parley
