import Parley.Proofs.Compilation.Sound
import Parley.Proofs.Session.Effects

/-!
# The variables of a compiled script change by its assignments alone

A condition of a script is read as a call or as a comparison, never as an assignment,
whatever commands it is checked against.  So wherever a compiled script is played with the
built-in assignment, looking for the way through it leaves the variables alone, and only the
commands that an operation runs change them.
-/

namespace Parley

variable {σ τ : Type} {registry : Registry σ} {store : Store} {script : List String}
  {graph : Graph}

/-- No condition of a compiled graph is an assignment. -/
theorem testsOnly_of_compile (compiled : (compile registry store script).graph = .ok graph) :
    graph.TestsOnly := by
  have sound := sound_of_compile compiled
  constructor
  · intro id arm member condition asked
    by_cases known : id < graph.branches.size
    · exact ((sound.branches id known).conditions arm member condition asked).tests
    · rw [Graph.branch_eq_armless _ (Nat.le_of_not_lt known)] at member
      cases member
  · exact fun id condition asked => ((sound.choices id).conditions condition asked).tests

/-- However a compiled script is played, and with whatever commands and variables: as long as
the assignment is the built-in one, the variables change only by the assignments among the
commands of one line, or of the choice that is made, that complete. -/
theorem changesByCommands_of_compile
    (compiled : (compile registry store script).graph = .ok graph) {commands : Registry τ}
    {world : World τ} {moves : List (Move τ)} {session : Session τ}
    (played : session = (Session.ofGraph graph commands world).afterMoves moves)
    (has : session.registry.HasAssignment) : session.ChangesByCommands := by
  apply Session.changesByCommands _ has
  rw [played]
  have same := (Session.ofGraph graph commands world).remembers_afterMoves moves
  exact (testsOnly_of_compile compiled).remembers same

/-- Commands of a host that can do nothing but fail. -/
def fragileRegistry : Registry Unit :=
  Registry.builtin.register "Break" [] none fun _ host => (.error "no", host)

/-- A dialogue that fails between two assignments. -/
def fragileScript : List String :=
  ["- Shop", "(if $gold == 1)", "\tKeeper: Poor. ($gold = 2; Break(); $gold = 3)"]

/-- Starting the dialogue changes nothing.  The line sets what it sets before it fails. -/
theorem changesByCommands_of_failing_line :
    let world : World Unit := ⟨NameMap.ofList [("gold", .integer 1)], ()⟩
    let graph := compiledGraph fragileRegistry world.store fragileScript
    let session := ((Session.ofGraph graph fragileRegistry world).start "Shop").2
    session.ChangesByCommands ∧ session.world.store = world.store ∧
      session.next.2.world.store = world.store.insert "gold" (.integer 2) := by
  intro world graph session
  have compiled : (compile fragileRegistry world.store fragileScript).graph = .ok graph := by
    apply compile_eq_ok_compiledGraph
    decide +kernel
  have has : session.registry.HasAssignment := by
    have same : session.registry = fragileRegistry := Session.registry_start _ "Shop"
    rw [same]
    exact Registry.hasAssignment_builtin.register [] none _ (by decide)
  have played : session = (Session.ofGraph graph fragileRegistry world).afterMoves
      [.operate (.start "Shop")] := rfl
  have changes : session.ChangesByCommands := changesByCommands_of_compile compiled played has
  have started : session.world.store = world.store :=
    (Session.ofGraph graph fragileRegistry world).store_start (testsOnly_of_compile compiled)
      (Registry.hasAssignment_builtin.register [] none _ (by decide)) "Shop"
  have ⟨placed, done⟩ : session.position = .reached 1 ∧
      session.registry.completed (session.graph.line 1).commands session.world =
        [⟨Command.assignName, [.reference "gold", .literal (.integer 2)]⟩] := by
    decide +kernel
  have runs : session.running? = some (1, session.world) := by
    simp only [Session.running?, placed]
  refine ⟨changes, started, ?_⟩
  rw [changes.next, runs]
  dsimp only
  rw [done, started]
  rfl

end Parley
