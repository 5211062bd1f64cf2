import Parley.Proofs.Graph.Marks
import Parley.Session

/-!
# What a host may do with a session

A host starts dialogues, asks what is shown next, makes choices and sets
variables, in any order.  Each of these is an operation, and playing a session is
a run of operations.  An operation that fails is part of the run like any other.
In between, a host may put other commands and another world in place.

Whatever a host does, only which choices have been made changes in the graph that is played.
-/

namespace Parley

/-- What a host may ask of a session. -/
inductive Operation where
  | start (title : String)
  | next
  | choose (index : Nat)
  | restart
  | finish
  /-- Set a variable. -/
  | set (name : String) (value : Value)
  deriving DecidableEq

namespace Session

variable {σ : Type}

/-- Carry out an operation; it gives what is shown, if it shows anything. -/
def operate (session : Session σ) : Operation → Except Fault (Option Output) × Session σ
  | .start title => ((session.start title).1.map fun _ => none, (session.start title).2)
  | .next => (session.next.1.map some, session.next.2)
  | .choose index => ((session.choose index).1.map fun _ => none, (session.choose index).2)
  | .restart => (session.restart.1.map fun _ => none, session.restart.2)
  | .finish => (.ok none, session.finish)
  | .set name value => (.ok none, session.setVariable name value)

/-- The session after a run of operations. -/
def after (session : Session σ) : List Operation → Session σ
  | [] => session
  | operation :: rest => (session.operate operation).2.after rest

/-- A run of operations each of which meets a requirement where its turn comes. -/
def RunMeets (required : Session σ → Operation → Prop) :
    Session σ → List Operation → Prop
  | _, [] => True
  | session, operation :: rest =>
      required session operation ∧ RunMeets required (session.operate operation).2 rest

/-- What every operation keeps, a run keeps. -/
theorem after_induction {property : Session σ → Prop}
    {required : Session σ → Operation → Prop}
    (step : ∀ session operation, property session → required session operation →
      property (session.operate operation).2)
    {session : Session σ} {operations : List Operation}
    (meets : RunMeets required session operations) (holds : property session) :
    property (session.after operations) := by
  induction operations generalizing session with
  | nil => exact holds
  | cons operation rest ih =>
      obtain ⟨first, others⟩ := meets
      exact ih others (step session operation holds first)

/-- A run of operations meets what every operation meets everywhere. -/
theorem runMeets_of_forall {required : Session σ → Operation → Prop}
    (everywhere : ∀ session operation, required session operation) (session : Session σ)
    (operations : List Operation) : RunMeets required session operations := by
  induction operations generalizing session with
  | nil => exact True.intro
  | cons operation rest ih => exact ⟨everywhere session operation, ih _⟩

/-! ## What changes in the graph -/

variable (session : Session σ)

theorem graph_present (line : LineIndex) : (session.present line).2.graph = session.graph := by
  simp only [present]
  repeat' split
  all_goals rfl

theorem graph_arrive (line : LineIndex) : (session.arrive line).2.graph = session.graph := by
  simp only [arrive]
  split
  · rfl
  · exact graph_present _ line

theorem graph_leave (line : LineIndex) : (session.leave line).2.graph = session.graph := by
  simp only [leave]
  split
  · rfl
  · rfl
  · exact graph_arrive _ _

theorem graph_next : session.next.2.graph = session.graph := by
  unfold next
  split
  · rfl
  · rfl
  · rfl
  · exact session.graph_leave _
  · exact session.graph_arrive _
  · exact session.graph_present _

theorem graph_start (title : String) : (session.start title).2.graph = session.graph := by
  simp only [start]
  repeat' split
  all_goals rfl

theorem graph_restart : session.restart.2.graph = session.graph := by
  unfold restart
  split
  · exact session.graph_start _
  · rfl

theorem remembers_choose (index : Nat) :
    session.graph.Remembers (session.choose index).2.graph := by
  simp only [choose]
  split
  · exact .refl _
  · split
    · exact .refl _
    · split <;> exact session.graph.remembers_select session.registry _ session.world

/-- An operation remembers at most that a choice was made. -/
theorem remembers_operate (operation : Operation) :
    session.graph.Remembers (session.operate operation).2.graph := by
  cases operation with
  | start title => exact .of_eq (session.graph_start title)
  | next => exact .of_eq session.graph_next
  | choose index => exact session.remembers_choose index
  | restart => exact .of_eq session.graph_restart
  | finish => exact .refl _
  | set name value => exact .refl _

theorem remembers_after (operations : List Operation) :
    session.graph.Remembers (session.after operations).graph := by
  induction operations generalizing session with
  | nil => exact .refl _
  | cons operation rest ih => exact (session.remembers_operate operation).trans (ih _)

/-! ## Moves -/

end Session

/-- What may happen to a session: the host carries out an operation, or it puts other commands
and another world in place. -/
inductive Move (σ : Type) where
  | operate (operation : Operation)
  | update (registry : Registry σ) (world : World σ)

namespace Session

variable {σ : Type}

/-- The session after a move. -/
def move (session : Session σ) : Move σ → Session σ
  | .operate operation => (session.operate operation).2
  | .update registry world => { session with registry := registry, world := world }

/-- The session after some moves. -/
def afterMoves (session : Session σ) (moves : List (Move σ)) : Session σ :=
  moves.foldl move session

variable (session : Session σ)

theorem afterMoves_append (earlier later : List (Move σ)) :
    session.afterMoves (earlier ++ later) = (session.afterMoves earlier).afterMoves later :=
  List.foldl_append

theorem remembers_move (move : Move σ) : session.graph.Remembers (session.move move).graph := by
  cases move with
  | operate operation => exact session.remembers_operate operation
  | update registry world => exact .refl _

/-- However a graph is played, only which choices have been made changes in it. -/
theorem remembers_afterMoves (moves : List (Move σ)) :
    session.graph.Remembers (session.afterMoves moves).graph := by
  induction moves generalizing session with
  | nil => exact .refl _
  | cons move rest ih => exact (session.remembers_move move).trans (ih _)

end Session

end Parley
