import Parley.Proofs.Compilation.Sound
import Parley.Proofs.Draft.Forward
import Parley.Proofs.Session.Forward

/-!
# Dialogues without return markers end

In a compiled graph only return markers lead back.  Where no line has any, a session presents
ever later lines from the start of a dialogue on, whatever choices are made and whatever the
host changes in between; so it ends or fails once it has presented as many lines as there are.
-/

namespace Parley

open Parley.Script

/-- No line carries a return marker. -/
def Unmarked (statements : List Statement) : Prop :=
  ∀ place count, Marks statements place count → count = 0

variable {σ : Type} {registry : Registry σ} {store : Store} {script : List String} {graph : Graph}

/-- Every link of a compiled graph leads to a later line, but for the successors of marked
lines.  Without marked lines, what is presented until a dialogue is started again are ever later
lines, no more than there are in the graph, and who asks for more than that finds the end of the
dialogue or a fault. -/
theorem forward_of_compile (compiled : (compile registry store script).graph = .ok graph) :
    graph.Forward (IsMarkedLine (scopeOf registry store script) (statementsOf script)) ∧
    (Unmarked (statementsOf script) →
      ∀ {τ : Type} (commands : Registry τ) (world : World τ) (earlier later : List (Move τ)),
        (∀ move ∈ later, move.starts = false) →
        let session := (Session.ofGraph graph commands world).afterMoves earlier
        (session.presented later).Pairwise (· < ·) ∧
          (session.presented later).length ≤ graph.lines.size ∧
          (graph.lines.size < session.asked later → session.stopped later = true)) := by
  obtain ⟨final, read, rfl⟩ := exists_draft_of_compile compiled
  have forward := forward_of_stepAll read
  refine ⟨forward, fun unmarked τ commands world earlier later stay => ?_⟩
  intro session
  have runsForward : final.closeDialogue.graph.RunsForward := by
    refine ⟨fun id target linked => ?_, forward.into⟩
    rcases forward.next id target linked with later | ⟨place, count, marks, marked, -⟩
    · exact Or.inl later
    · exact absurd (unmarked place count marks) (Nat.ne_of_gt marked)
  have start : (Session.ofGraph final.closeDialogue.graph commands world).Ahead 0 :=
    ⟨runsForward, True.intro⟩
  have ahead : session.Ahead 0 := start.afterMoves earlier
  have lines : session.graph.lines = final.closeDialogue.graph.lines :=
    (Session.remembers_afterMoves _ earlier).lines
  obtain ⟨ordered, within⟩ := ahead.presented stay
  rw [lines] at within
  have few := length_le_of_ordered ordered within
  refine ⟨ordered, few, fun more => ?_⟩
  rcases stops : session.stopped later with _ | _
  · have asked := ahead.asked_le stops
    omega
  · rfl

/-- A line with two options, of which one has a body. -/
def twoOptions : List String :=
  ["- D", "A: root", "> go", "\tA: inner", "> stop", "A: end"]

/-- With the first option all lines are presented in their order, and then the dialogue ends. -/
theorem forward_of_two_options :
    let session := (Session.ofGraph (compiledGraph hostless .empty twoOptions) hostless
      ⟨.empty, ()⟩).move (.operate (.start "D"))
    let moves : List (Move Unit) := [.operate .next, .operate (.choose 0), .operate .next,
      .operate .next, .operate .next, .operate .next]
    session.presented moves = [0, 1, 3] ∧ (session.presented moves).Pairwise (· < ·) ∧
      session.stopped moves = true := by
  intro session moves
  have compiled : (compile hostless .empty twoOptions).graph =
      .ok (compiledGraph hostless .empty twoOptions) := by
    apply compile_eq_ok_compiledGraph
    decide +kernel
  have unmarked : Unmarked (statementsOf twoOptions) := by
    rintro place count ⟨statement, speech, found, -, readSpeech, rfl⟩
    have none : (statementsOf twoOptions).all fun statement =>
        (Speech.read statement.content).toOption.all fun speech => speech.returnDepth == 0 := by
      decide +kernel
    have plain := List.all_eq_true.mp none statement (List.mem_of_getElem? found)
    rw [readSpeech] at plain
    simpa [Except.toOption] using plain
  have stay : ∀ move ∈ moves, move.starts = false := by
    simp [moves, Move.starts]
  obtain ⟨ordered, -, stops⟩ := (forward_of_compile compiled).2 unmarked hostless ⟨.empty, ()⟩
    [.operate (.start "D")] moves stay
  exact ⟨by decide +kernel, ordered, stops (by decide +kernel)⟩

end Parley
