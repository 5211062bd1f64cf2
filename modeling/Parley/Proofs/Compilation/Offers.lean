import Parley.Proofs.Compilation.Integrity
import Parley.Proofs.Session.Openings
import Parley.Proofs.Session.Placement

/-!
# The offers of a compiled script

Where a compiled script is played, each choice stands under one line and is listed there once,
in the order of the script.  So a session is always where it can be, and whatever line it shows,
it offers the choices under it that are open.
-/

namespace Parley

variable {σ τ : Type} {registry : Registry σ} {store : Store} {script : List String}
  {graph : Graph}

/-- The choices under a line are listed in the order of the script. -/
theorem ordered_choices_of_compile (compiled : (compile registry store script).graph = .ok graph)
    (id : LineIndex) : (graph.line id).choices.Pairwise (· < ·) := by
  obtain ⟨final, read, rfl⟩ := exists_draft_of_compile compiled
  exact (listsChoices_of_stepAll read).ordered id

/-- However a compiled script is played, and with whatever commands and variables: the session
is idle exactly if no dialogue is named, the line that it is at is spoken, and the choices that
wait are some of those under that line, counted from zero.  Whenever it shows another line, it
offers those choices of the line all of whose conditions hold as they are evaluated then, in the
order of the script, and it shows the line without choices exactly if there is none. -/
theorem wellPlaced_listsOpen_of_compile (compiled : (compile registry store script).graph = .ok graph)
    {commands : Registry τ} {world : World τ} {moves : List (Move τ)} {session : Session τ}
    (played : session = (Session.ofGraph graph commands world).afterMoves moves) :
    session.WellPlaced ∧
      (∀ id, (session.graph.line id).choices.Pairwise (· < ·)) ∧
      (session.pending? = none → ∀ output after, session.next = (.ok output, after) →
        output ≠ .finished → ∃ id world, session.ListsOpen output after id world) := by
  subst played
  have same := (Session.ofGraph graph commands world).remembers_afterMoves moves
  have ordered : ∀ id, (((Session.ofGraph graph commands world).afterMoves moves).graph.line
      id).choices.Pairwise (· < ·) := by
    intro id
    rw [same.line]
    exact ordered_choices_of_compile compiled id
  refine ⟨(Session.WellPlaced.ofGraph graph commands world).afterMoves moves, ordered, ?_⟩
  intro free output after went more
  exact Session.exists_listsOpen (fun id => (ordered id).imp Nat.ne_of_lt) free went more

/-- Commands of a host whose coin shows its other side whenever it is tossed. -/
def coinRegistry : Registry Bool :=
  Registry.builtin.register "Heads" [] (some .boolean)
    fun _ heads => (.ok (some (.boolean heads)), !heads)

/-- A line with three choices, of which two are up to the coin. -/
def coinScript : List String :=
  ["- Toss", "A: Well?", "> (if Heads()) Again", "> (if Heads()) Double", "> Leave"]

/-- Of two choices that ask the same question the first is open and the second is not, since the
coin is tossed for each. -/
theorem wellPlaced_listsOpen_of_coin :
    let graph := compiledGraph coinRegistry .empty coinScript
    let begun := Session.ofGraph graph coinRegistry ⟨.empty, true⟩
    let session := begun.afterMoves [.operate (.start "Toss")]
    session.WellPlaced ∧ session.next.1 = .ok (.choices ⟨"A", "Well?", "neutral"⟩
        [⟨0, 0, "Again", false⟩, ⟨1, 2, "Leave", false⟩]) ∧
      ∃ id world, session.showing? = some (id, world) ∧ session.openUnder id world = [0, 2] := by
  intro graph begun session
  have compiled : (compile coinRegistry .empty coinScript).graph = .ok graph := by
    apply compile_eq_ok_compiledGraph
    decide +kernel
  have played : session = begun.afterMoves [.operate (.start "Toss")] := rfl
  have shown : session.next.1 = .ok (.choices ⟨"A", "Well?", "neutral"⟩
      [⟨0, 0, "Again", false⟩, ⟨1, 2, "Leave", false⟩]) := by
    decide +kernel
  obtain ⟨well, -, lists⟩ := wellPlaced_listsOpen_of_compile compiled played
  obtain ⟨id, world, opens⟩ := lists (by decide +kernel) _ _ (Prod.ext shown rfl) (by simp)
  exact ⟨well, shown, id, world, opens.showing, (opens.choices _ _ rfl).symm⟩

end Parley
