import Parley.Proofs.Session.Effects
import Parley.Proofs.Session.Forward

/-!
# Which choices are offered

When a line is shown, the conditions of its choices are evaluated, choice by choice and each
choice up to its first condition that is false or fails.  An evaluation may change the state of
the host and so what comes of the next, but every choice that a line lists once is tested once.
The choices that are offered are those all of whose conditions held then, in their order, and
the line is shown without choices if there is none.
-/

namespace Parley

variable {σ : Type}

/-- A condition of a choice as it was evaluated. -/
structure Evaluation where
  choice : ChoiceIndex
  /-- The place of the condition among those of the choice. -/
  place : Nat
  outcome : Except Fault Bool
  deriving DecidableEq

namespace Registry

variable (registry : Registry σ)

/-- What comes of conditions that are evaluated in order, up to the first that is false or
fails. -/
def outcomes : List Call → World σ → List (Except Fault Bool)
  | [], _ => []
  | condition :: rest, world =>
      match registry.holds condition world with
      | (.ok true, after) => .ok true :: outcomes rest after
      | (outcome, _) => [outcome]

/-- All conditions hold exactly if each is evaluated and is true. -/
theorem allHold_eq_true_iff (conditions : List Call) (world : World σ) :
    (registry.allHold conditions world).1 = .ok true ↔
      ∀ place < conditions.length, (registry.outcomes conditions world)[place]? = some (.ok true) := by
  induction conditions generalizing world with
  | nil => simp
  | cons condition rest ih =>
      unfold allHold outcomes
      rcases registry.holds condition world with ⟨fault | (_ | _), after⟩
      · refine iff_of_false (by simp) fun all => ?_
        cases all 0 (Nat.succ_pos _)
      · refine iff_of_false (by simp) fun all => ?_
        cases all 0 (Nat.succ_pos _)
      · dsimp only
        rw [ih after]
        constructor
        · rintro others (_ | place) within
          · rfl
          · exact others place (Nat.lt_of_succ_lt_succ within)
        · intro all place within
          exact all (place + 1) (Nat.succ_lt_succ within)

end Registry

namespace Graph

variable (graph : Graph) (registry : Registry σ)

/-- The evaluations of the conditions of some choices, of one choice after the other, up to the
first that fails. -/
def evaluations : List ChoiceIndex → World σ → List Evaluation
  | [], _ => []
  | id :: rest, world =>
      (registry.outcomes (graph.choice id).conditions world).mapIdx (⟨id, ·, ·⟩) ++
        match graph.canChoose registry id world with
        | (.error _, _) => []
        | (.ok _, after) => evaluations rest after

/-- All conditions of a choice were evaluated and were true. -/
def Holds (trace : List Evaluation) (id : ChoiceIndex) : Prop :=
  ∀ place < (graph.choice id).conditions.length, ⟨id, place, .ok true⟩ ∈ trace

instance (trace : List Evaluation) (id : ChoiceIndex) : Decidable (graph.Holds trace id) :=
  inferInstanceAs (Decidable (∀ place < (graph.choice id).conditions.length, _ ∈ trace))

variable {graph registry}

theorem choice_mem_of_evaluations {choices : List ChoiceIndex} {world : World σ}
    {evaluation : Evaluation} (member : evaluation ∈ graph.evaluations registry choices world) :
    evaluation.choice ∈ choices := by
  induction choices generalizing world with
  | nil => cases member
  | cons id rest ih =>
      rcases List.mem_append.mp member with own | other
      · obtain ⟨place, _, rfl⟩ := List.mem_mapIdx.mp own
        exact List.mem_cons_self
      · split at other
        · cases other
        · exact List.mem_cons_of_mem id (ih other)

/-- Whether a choice holds is found where it is tested first, if it is tested once. -/
theorem holds_evaluations_cons_self {id : ChoiceIndex} {rest : List ChoiceIndex}
    (once : id ∉ rest) (world : World σ) :
    graph.Holds (graph.evaluations registry (id :: rest) world) id ↔
      (graph.canChoose registry id world).1 = .ok true := by
  rw [canChoose, registry.allHold_eq_true_iff, Holds]
  refine forall₂_congr fun place _ => ?_
  rw [evaluations, List.mem_append, List.mem_mapIdx]
  constructor
  · rintro (⟨at', known, same⟩ | other)
    · injection same with _ places outcomes
      subst places
      rw [List.getElem?_eq_getElem known, outcomes]
    · split at other
      · cases other
      · exact absurd (choice_mem_of_evaluations other) once
  · intro found
    obtain ⟨known, held⟩ := List.getElem?_eq_some_iff.mp found
    exact Or.inl ⟨place, known, by rw [held]⟩

/-- The test of another choice does not matter to whether a choice holds. -/
theorem holds_evaluations_cons_of_ne {id other : ChoiceIndex} {rest : List ChoiceIndex}
    {world after : World σ} {available : Bool} (different : other ≠ id)
    (tested : graph.canChoose registry id world = (.ok available, after)) :
    graph.Holds (graph.evaluations registry (id :: rest) world) other ↔
      graph.Holds (graph.evaluations registry rest after) other := by
  refine forall₂_congr fun place _ => ?_
  rw [evaluations, tested, List.mem_append, List.mem_mapIdx]
  constructor
  · rintro (⟨_, _, same⟩ | later)
    · injection same with choices
      exact absurd choices.symm different
    · exact later
  · exact Or.inr

end Graph

namespace Session

/-- Of choices that are listed once, those are available all of whose conditions held when they
were evaluated. -/
theorem openChoices_eq_filter {graph : Graph} {registry : Registry σ}
    {choices available : List ChoiceIndex} {world after : World σ} (once : choices.Nodup)
    (opened : openChoices graph registry choices world = (.ok available, after)) :
    available = choices.filter fun id =>
      graph.Holds (graph.evaluations registry choices world) id := by
  induction choices generalizing world available with
  | nil =>
      cases opened
      rfl
  | cons id rest ih =>
      obtain ⟨new, once⟩ := List.nodup_cons.mp once
      have first : graph.Holds (graph.evaluations registry (id :: rest) world) id ↔ _ :=
        Graph.holds_evaluations_cons_self new world
      unfold openChoices at opened
      split at opened
      · cases opened
      · rename_i isOpen between tested
        split at opened
        · cases opened
        · rename_i others last openedRest
          cases opened
          have later : ∀ other ∈ rest,
              decide (graph.Holds (graph.evaluations registry (id :: rest) world) other) =
                decide (graph.Holds (graph.evaluations registry rest between) other) := by
            intro other member
            have different : other ≠ id := fun same => new (same ▸ member)
            exact decide_eq_decide.mpr (Graph.holds_evaluations_cons_of_ne different tested)
          rw [tested] at first
          rw [List.filter_cons, List.filter_congr later, ← ih once openedRest]
          cases isOpen <;> simp [first]

/-- The line that a session shows next, and the world that its commands have left, in which the
conditions of its choices are evaluated. -/
def showing? (session : Session σ) : Option (LineIndex × World σ) :=
  match session.position with
  | .ready id => some (id, session.world)
  | _ => session.running?.bind fun (id, world) =>
      match session.registry.runAll (session.graph.line id).commands world with
      | (.ok (), world) => some (id, world)
      | (.error _, _) => none

/-- The choices under a line that are open in a world: all of their conditions hold when the
choices are tested there. -/
def openUnder (session : Session σ) (id : LineIndex) (world : World σ) : List ChoiceIndex :=
  (session.graph.line id).choices.filter fun choice =>
    session.graph.Holds
      (session.graph.evaluations session.registry (session.graph.line id).choices world) choice

/-- What a session shows next is a line with the choices that are open, if there are any, and
without choices if there is none. -/
structure ListsOpen (session : Session σ) (output : Output) (after : Session σ)
    (id : LineIndex) (world : World σ) : Prop where
  showing : session.showing? = some (id, world)
  presented : ({ session with world := world, position := .ready id } : Session σ).present id =
    (.ok output, after)
  shown : after.position.shown? = some id
  line : (∃ view, output = .line view) ↔ session.openUnder id world = []
  choices : ∀ view offers, output = .choices view offers →
    offers.map Offer.choice = session.openUnder id world

variable {session after : Session σ} {output : Output} {id : LineIndex} {world : World σ}

/-- A line is presented with the choices that are open. -/
theorem listsOpen_of_present (once : (session.graph.line id).choices.Nodup)
    (presented : ({ session with world := world, position := .ready id } : Session σ).present id =
      (.ok output, after))
    (showing : session.showing? = some (id, world)) :
    session.ListsOpen output after id world := by
  have went := presented
  simp only [present] at went
  split at went
  · cases went
  · rename_i available last opened
    have isOpen : available = session.openUnder id world := openChoices_eq_filter once opened
    split at went
    · cases went
    · split at went
      · rename_i empty
        cases went
        have none : session.openUnder id world = [] := isOpen ▸ List.isEmpty_iff.mp empty
        exact ⟨showing, presented, rfl, by simp [none], by simp⟩
      · rename_i some
        split at went
        · cases went
        · rename_i offers offered
          cases went
          have listed : offers.map Offer.choice = session.openUnder id world :=
            (choices_of_offersOf offered).1.trans isOpen
          have some : session.openUnder id world ≠ [] := by
            rintro none
            exact some (List.isEmpty_iff.mpr (isOpen.trans none))
          refine ⟨showing, presented, rfl, by simp [some], ?_⟩
          rintro _ _ ⟨⟩
          exact listed

theorem listsOpen_of_arrive (once : ∀ id, (session.graph.line id).choices.Nodup)
    (running : session.running? = some (id, world)) (notReady : ∀ id, session.position ≠ .ready id)
    (arrived : ({ session with world := world, position := .reached id } : Session σ).arrive id =
      (.ok output, after)) :
    ∃ id world, session.ListsOpen output after id world := by
  simp only [arrive] at arrived
  split at arrived
  · cases arrived
  · rename_i last ran
    refine ⟨id, last, listsOpen_of_present (once id) arrived ?_⟩
    unfold showing?
    split
    · rename_i ready
      exact absurd ready (notReady _)
    · simp [running, ran]

/-- Unless a choice is pending, a session that shows a line offers those of its choices that are
open. -/
theorem exists_listsOpen (once : ∀ id, (session.graph.line id).choices.Nodup)
    (free : session.pending? = none) (went : session.next = (.ok output, after))
    (more : output ≠ .finished) : ∃ id world, session.ListsOpen output after id world := by
  unfold next at went
  split at went <;> rename_i here
  · cases went
  · cases went
    exact absurd rfl more
  · simp [pending?, here] at free
  · unfold leave at went
    split at went
    · cases went
    · cases went
      exact absurd rfl more
    · rename_i next between walked
      have running : session.running? = some (next, between) := by
        simp only [running?, here, walked]
      exact listsOpen_of_arrive once running (by simp [here]) went
  · rename_i reached
    have running : session.running? = some (reached, session.world) := by
      simp only [running?, here]
    refine listsOpen_of_arrive once running (by simp [here]) ?_
    rw [← here]
    exact went
  · rename_i ready
    have showing : session.showing? = some (ready, session.world) := by
      simp only [showing?, here]
    refine ⟨ready, session.world, listsOpen_of_present (once ready) ?_ showing⟩
    rw [← here]
    exact went

end Session

end Parley
