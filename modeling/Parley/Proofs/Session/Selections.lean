import Parley.Proofs.Compilation.Sound
import Parley.Proofs.Session.Effects

/-!
# Which choices have been made

A choice is marked when it is picked: when it is one of those offered and all of its commands
run.  What follows may still fail; the choice has been made all the same.  Nothing else marks a
choice, nothing takes a mark away, and nothing else in the graph that is played changes.
-/

namespace Parley

variable {σ : Type}

namespace Graph

variable {graph : Graph} {id : ChoiceIndex}

theorem selected_markSelected_iff (known : id < graph.choices.size) (made : ChoiceIndex) :
    ((graph.markSelected made).choice id).selected = true ↔
      (graph.choice id).selected = true ∨ made = id := by
  rw [markSelected, choice_modifyChoice_eq]
  split
  · rename_i same
    simp [same.1]
  · rename_i other
    have other : made ≠ id := fun same => other ⟨same, known⟩
    simp [other]

/-- A choice is marked once its commands have run. -/
theorem selected_select_iff (known : id < graph.choices.size) (registry : Registry σ)
    (made : ChoiceIndex) (world : World σ) :
    ((graph.select registry made world).graph.choice id).selected = true ↔
      (graph.choice id).selected = true ∨
        (made = id ∧ (registry.runAll (graph.choice made).commands world).1 = .ok ()) := by
  simp only [select]
  split
  · rename_i ran
    simp [ran]
  · rename_i ran
    rw [selected_markSelected_iff known, ran]
    simp

end Graph

namespace Session

/-- Asking for the choice at a place picks a choice: it is the one that is offered there, and
all of its commands run. -/
def Picks (session : Session σ) (index : Nat) (id : ChoiceIndex) : Prop :=
  (∃ offer, session.offered? index = some offer ∧ offer.choice = id) ∧
    (session.registry.runAll (session.graph.choice id).commands session.world).1 = .ok ()

/-- Asking for a choice makes the one that is offered at the place, if there is one. -/
theorem graph_choose (session : Session σ) (index : Nat) :
    (session.choose index).2.graph =
      match session.offered? index with
      | some offer => (session.graph.select session.registry offer.choice session.world).graph
      | none => session.graph := by
  unfold choose offered?
  rcases session.pending? with _ | offers
  · rfl
  · dsimp only [Option.bind_some]
    rcases offers[index]? with _ | offer
    · rfl
    · dsimp only
      split <;> rfl

variable {session : Session σ} {id : ChoiceIndex}

theorem selected_choose_iff (known : id < session.graph.choices.size) (index : Nat) :
    ((session.choose index).2.graph.choice id).selected = true ↔
      (session.graph.choice id).selected = true ∨ session.Picks index id := by
  rw [graph_choose, Picks]
  rcases session.offered? index with _ | offer
  · simp
  · dsimp only
    rw [Graph.selected_select_iff known]
    constructor
    · rintro (already | ⟨rfl, ran⟩)
      · exact Or.inl already
      · exact Or.inr ⟨⟨offer, rfl, rfl⟩, ran⟩
    · rintro (already | ⟨⟨_, ⟨⟩, rfl⟩, ran⟩)
      · exact Or.inl already
      · exact Or.inr ⟨rfl, ran⟩

/-- A move marks what it picks and no other choice. -/
theorem selected_move_iff (known : id < session.graph.choices.size) (move : Move σ) :
    ((session.move move).graph.choice id).selected = true ↔
      (session.graph.choice id).selected = true ∨
        ∃ index, move = .operate (.choose index) ∧ session.Picks index id := by
  have kept : ∀ {after : Session σ}, after.graph = session.graph →
      (∀ index, move ≠ .operate (.choose index)) →
        ((after.graph.choice id).selected = true ↔ (session.graph.choice id).selected = true ∨
          ∃ index, move = .operate (.choose index) ∧ session.Picks index id) := by
    intro after same other
    simp [same, other]
  rcases move with (title | _ | index | _ | _ | ⟨name, value⟩) | ⟨registry, world⟩
  · exact kept (session.graph_start title) (by simp)
  · exact kept session.graph_next (by simp)
  · show (((session.choose index).2.graph.choice id).selected = true ↔ _)
    rw [selected_choose_iff known]
    simp
  · exact kept session.graph_restart (by simp)
  · exact kept rfl (by simp)
  · exact kept rfl (by simp)
  · exact kept rfl (by simp)

/-- After some moves a choice is marked exactly if it was before or one of the moves picked it. -/
theorem selected_afterMoves_iff (known : id < session.graph.choices.size)
    (moves : List (Move σ)) :
    ((session.afterMoves moves).graph.choice id).selected = true ↔
      (session.graph.choice id).selected = true ∨
        ∃ earlier index later, moves = earlier ++ .operate (.choose index) :: later ∧
          (session.afterMoves earlier).Picks index id := by
  induction moves generalizing session with
  | nil => simp [afterMoves]
  | cons move rest ih =>
      have size := (session.remembers_move move).size
      have others := ih (size ▸ known)
      have first := selected_move_iff known move
      show ((((session.move move).afterMoves rest).graph.choice id).selected = true ↔ _)
      rw [others, first]
      constructor
      · rintro ((already | ⟨index, rfl, picks⟩) | ⟨earlier, index, later, rfl, picks⟩)
        · exact Or.inl already
        · exact Or.inr ⟨[], index, rest, rfl, picks⟩
        · exact Or.inr ⟨move :: earlier, index, later, rfl, picks⟩
      · rintro (already | ⟨_ | ⟨head, earlier⟩, index, later, split, picks⟩)
        · exact Or.inl (Or.inl already)
        · cases split
          exact Or.inl (Or.inr ⟨index, rfl, picks⟩)
        · cases split
          exact Or.inr ⟨earlier, index, later, rfl, picks⟩

/-- A choice that has been made stays made. -/
theorem selected_afterMoves (moves : List (Move σ))
    (already : (session.graph.choice id).selected = true) :
    ((session.afterMoves moves).graph.choice id).selected = true := by
  by_cases known : id < session.graph.choices.size
  · exact (selected_afterMoves_iff known moves).mpr (Or.inl already)
  · rw [Graph.choice_eq_fresh _ (Nat.le_of_not_lt known)] at already
    cases already

/-- However a graph is played, it stays what it was but for the marks of its choices.  No mark is
ever taken away, and a choice is marked exactly if it was at first or was picked since then,
whether or not there was a line to go on with. -/
theorem selected_iff_exists_picks (session : Session σ) (moves : List (Move σ)) :
    session.graph.Remembers (session.afterMoves moves).graph ∧
    (∀ later id, ((session.afterMoves moves).graph.choice id).selected = true →
      ((session.afterMoves (moves ++ later)).graph.choice id).selected = true) ∧
    ∀ id < session.graph.choices.size,
      ((session.afterMoves moves).graph.choice id).selected = true ↔
        (session.graph.choice id).selected = true ∨
          ∃ earlier index later, moves = earlier ++ .operate (.choose index) :: later ∧
            (session.afterMoves earlier).Picks index id := by
  refine ⟨session.remembers_afterMoves moves, fun later id marked => ?_, fun id known => ?_⟩
  · rw [afterMoves_append]
    exact selected_afterMoves later marked
  · exact selected_afterMoves_iff known moves

end Session

/-- Commands of a host that has a test which cannot be carried out. -/
def untestableRegistry : Registry Unit :=
  Registry.builtin.register "Test" [] (some .boolean) fun _ host => (.error "no", host)

/-- A choice whose only line is behind such a test.  It is made, although there is no going on
from it, and it has been made when the dialogue is left and started again. -/
theorem selected_of_failing_continuation :
    let graph := compiledGraph untestableRegistry .empty
      ["- D", "A: root", "> go", "\t(if Test())", "\t\tA: body"]
    let session := Session.ofGraph graph untestableRegistry ⟨.empty, ()⟩
    let moves : List (Move Unit) := [.operate (.start "D"), .operate .next, .operate (.choose 0)]
    let later : List (Move Unit) := [.operate .finish, .operate (.start "D")]
    ((session.afterMoves [.operate (.start "D"), .operate .next]).choose 0).1 =
        .error (.commandFailed "Test" "no") ∧
      (session.graph.choice 0).selected = false ∧
      ((session.afterMoves moves).graph.choice 0).selected = true ∧
      ((session.afterMoves (moves ++ later)).graph.choice 0).selected = true := by
  intro graph session moves later
  obtain ⟨-, stays, made⟩ := session.selected_iff_exists_picks moves
  have picks : (session.afterMoves [.operate (.start "D"), .operate .next]).Picks 0 0 :=
    ⟨⟨⟨0, 0, "go", false⟩, by decide +kernel, rfl⟩, by decide +kernel⟩
  have marked : ((session.afterMoves moves).graph.choice 0).selected = true :=
    (made 0 (by decide +kernel)).mpr (Or.inr ⟨_, 0, [], rfl, picks⟩)
  exact ⟨by decide +kernel, by decide +kernel, marked, stays later 0 marked⟩

end Parley
