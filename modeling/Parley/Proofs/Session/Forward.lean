import Parley.Proofs.Graph.Forward
import Parley.Proofs.Session.Operation

/-!
# Playing forward

Where every link leads forward, a walk never goes back.  So what a session presents until a
dialogue is started again are ever later lines, whatever the host does in between, and once
there is no later line the session ends or fails.
-/

namespace Parley

variable {σ : Type}

/-- Whether a move starts a dialogue. -/
def Move.starts : Move σ → Bool
  | .operate (.start _) | .operate .restart => true
  | _ => false

/-- The line that is shown at a position. -/
def Position.shown? : Position → Option LineIndex
  | .shown line | .choosing line _ _ => some line
  | _ => none

namespace Session

/-- Whether a move asks for more than the choices that are pending. -/
def asks (session : Session σ) : Move σ → Bool
  | .operate .next => session.pending?.isNone
  | _ => false

/-- Whether a move that asks for more finds the end of the dialogue or fails. -/
def stops (session : Session σ) (move : Move σ) : Bool :=
  session.asks move && match session.next.1 with
    | .ok .finished | .error _ => true
    | .ok (.line _) | .ok (.choices _ _) => false

/-- The line that a move presents, if it presents one. -/
def presents (session : Session σ) (move : Move σ) : Option LineIndex :=
  if session.asks move && !session.stops move then session.next.2.position.shown? else none

/-- The lines that moves present, in order. -/
def presented (session : Session σ) : List (Move σ) → List LineIndex
  | [] => []
  | move :: rest => (session.presents move).toList ++ (session.move move).presented rest

/-- How many moves ask for more. -/
def asked (session : Session σ) : List (Move σ) → Nat
  | [] => 0
  | move :: rest => (session.asks move).toNat + (session.move move).asked rest

/-- Whether one of some moves finds the end of the dialogue or fails. -/
def stopped (session : Session σ) : List (Move σ) → Bool
  | [] => false
  | move :: rest => session.stops move || (session.move move).stopped rest

end Session

/-- The lines that may come next from a position are spoken and no earlier than a bound. -/
def Position.IsAhead (graph : Graph) (bound : Nat) : Position → Prop
  | .idle | .finished => True
  | .reached line | .ready line => bound ≤ line ∧ (graph.line line).isRelay = false
  | .shown line => bound ≤ line + 1
  | .choosing line _ offers =>
      bound ≤ line + 1 ∧ ∀ offer ∈ offers, offer.choice ∈ (graph.line line).choices

namespace Session

/-- A session on a graph whose links lead forward, which has no line before a bound ahead of
it. -/
structure Ahead (bound : Nat) (session : Session σ) : Prop where
  forward : session.graph.RunsForward
  position : session.position.IsAhead session.graph bound

/-- What comes of going on in a session on a graph, which has no line before a bound ahead of
it. -/
inductive GoesOn (graph : Graph) (bound : Nat) : Except Fault Output × Session σ → Prop where
  /-- It shows a spoken line that is no earlier, and then only later lines are ahead of it. -/
  | shows {output : Output} {after : Session σ} {line : LineIndex} (more : output ≠ .finished)
      (same : after.graph = graph) (shown : after.position.shown? = some line)
      (later : bound ≤ line) (spoken : (graph.line line).isRelay = false)
      (ahead : after.position.IsAhead graph (line + 1)) : GoesOn graph bound (.ok output, after)
  /-- The dialogue is over. -/
  | ends {after : Session σ} (same : after.graph = graph)
      (ahead : after.position.IsAhead graph bound) : GoesOn graph bound (.ok .finished, after)
  | fails {fault : Fault} {after : Session σ} (same : after.graph = graph)
      (ahead : after.position.IsAhead graph bound) : GoesOn graph bound (.error fault, after)

variable {session : Session σ} {bound : Nat} {id : LineIndex}

/-- The choices that are available are some of those to be shown, in their order. -/
theorem sublist_of_openChoices {graph : Graph} {registry : Registry σ} {choices available :
    List ChoiceIndex} {world after : World σ}
    (opened : openChoices graph registry choices world = (.ok available, after)) :
    available.Sublist choices := by
  induction choices generalizing world after available with
  | nil =>
      cases opened
      exact .slnil
  | cons first rest ih =>
      unfold openChoices at opened
      split at opened
      · cases opened
      · split at opened
        · cases opened
        · rename_i openedRest
          cases opened
          split
          · exact (ih openedRest).cons_cons first
          · exact (ih openedRest).cons first

/-- The choices that are available are offered one by one, in their order, and counted. -/
theorem choices_of_offersOf {graph : Graph} {store : Store} {available : List ChoiceIndex}
    {offers : List Offer} (offered : offersOf graph store available = .ok offers) :
    offers.map Offer.choice = available ∧
      offers.map Offer.index = List.range available.length := by
  have from' : ∀ (start : Nat) (available : List ChoiceIndex) (offers : List Offer),
      ((available.zipIdx start).mapM fun place => offerOf graph store place.1 place.2) =
          .ok offers →
        offers.map Offer.choice = available ∧
          offers.map Offer.index = List.range' start available.length := by
    intro start available
    induction available generalizing start with
    | nil =>
        intro offers done
        cases done
        exact ⟨rfl, rfl⟩
    | cons id rest ih =>
        intro offers done
        obtain ⟨first, others, made, rest', rfl⟩ := mapM_cons_eq_ok_iff.mp done
        obtain ⟨choices, indices⟩ := ih (start + 1) others rest'
        obtain ⟨text, -, same⟩ := bind_eq_ok_iff.mp made
        cases same
        rw [List.map_cons, List.map_cons, choices, indices]
        exact ⟨rfl, rfl⟩
  rw [List.range_eq_range']
  exact from' 0 available offers offered

/-- Only choices that are available are offered. -/
theorem mem_of_offersOf {graph : Graph} {store : Store} {available : List ChoiceIndex}
    {offers : List Offer} (offered : offersOf graph store available = .ok offers) :
    ∀ offer ∈ offers, offer.choice ∈ available := by
  intro offer member
  rw [← (choices_of_offersOf offered).1]
  exact List.mem_map_of_mem member

/-- Presenting a line shows it, or the position stays. -/
theorem goesOn_present (position : session.position.IsAhead session.graph bound)
    (later : bound ≤ id) (spoken : (session.graph.line id).isRelay = false) :
    GoesOn session.graph bound (session.present id) := by
  unfold present
  dsimp only
  split
  · exact .fails rfl position
  · rename_i available world opened
    split
    · exact .fails rfl position
    · split
      · exact .shows (by simp) rfl rfl later spoken (Nat.le_refl _)
      · split
        · exact .fails rfl position
        · rename_i offers offered
          refine .shows (by simp) rfl rfl later spoken ⟨Nat.le_refl _, fun offer member => ?_⟩
          exact (sublist_of_openChoices opened).subset (mem_of_offersOf offered offer member)

theorem goesOn_arrive (position : session.position.IsAhead session.graph bound)
    (later : bound ≤ id) (spoken : (session.graph.line id).isRelay = false) :
    GoesOn session.graph bound (session.arrive id) := by
  unfold arrive
  split
  · exact .fails rfl position
  · rename_i world _
    let ready : Session σ := { session with world := world, position := .ready id }
    have isReady : ready.position.IsAhead ready.graph bound := ⟨later, spoken⟩
    exact goesOn_present isReady later spoken

/-- Going on from a line leads to a later one. -/
theorem goesOn_leave (forward : session.graph.RunsForward)
    (position : session.position.IsAhead session.graph bound) (passed : bound ≤ id + 1) :
    GoesOn session.graph bound (session.leave id) := by
  unfold leave
  split
  · exact .fails rfl position
  · exact .ends rfl True.intro
  · rename_i next world left
    have spoken := Graph.speaks_of_follow left
    have later : bound ≤ next := Nat.le_trans passed (Graph.lt_of_afterLine forward left)
    let reached : Session σ := { session with world := world, position := .reached next }
    have isReached : reached.position.IsAhead reached.graph bound := ⟨later, spoken⟩
    exact goesOn_arrive isReached later spoken

/-- What is shown next, unless a choice is pending, is a line that was ahead. -/
theorem Ahead.goesOn (ahead : session.Ahead bound) (free : session.pending? = none) :
    GoesOn session.graph bound session.next := by
  have position := ahead.position
  unfold next
  split
  · exact .fails rfl position
  · exact .ends rfl position
  · rename_i chooses
    rw [pending?, chooses] at free
    cases free
  · rename_i shown
    rw [shown] at position
    exact goesOn_leave ahead.forward ahead.position position
  · rename_i reached
    rw [reached] at position
    exact goesOn_arrive ahead.position position.1 position.2
  · rename_i ready
    rw [ready] at position
    exact goesOn_present ahead.position position.1 position.2

/-! ## Moves -/

/-- Making a choice leads to a later line. -/
theorem Ahead.choose (ahead : session.Ahead bound) (index : Nat) :
    (session.choose index).2.Ahead bound := by
  unfold Session.choose
  split
  · exact ahead
  · rename_i offers pending
    split
    · exact ahead
    · rename_i offer offered
      have grown : ∀ {graph : Graph}, graph = session.graph ∨
          graph = session.graph.markSelected offer.choice → graph.RunsForward ∧
            (∀ id, graph.line id = session.graph.line id) := by
        rintro graph (rfl | rfl)
        · exact ⟨ahead.forward, fun _ => rfl⟩
        · exact ⟨ahead.forward.grow (Graph.grows_markSelected _ _ _), fun _ => rfl⟩
      obtain ⟨forward, lines⟩ := grown
        (session.graph.select_graph session.registry offer.choice session.world)
      have position := ahead.position
      unfold pending? at pending
      split at pending
      · rename_i line view offers' chooses
        cases pending
        rw [chooses] at position
        dsimp only
        split
        · refine ⟨forward, ?_⟩
          show session.position.IsAhead _ bound
          rw [chooses]
          refine ⟨position.1, fun other member => ?_⟩
          rw [lines]
          exact position.2 other member
        · rename_i next made
          refine ⟨forward, ?_⟩
          rcases next with _ | next
          · exact True.intro
          · have after := Graph.lt_of_select ahead.forward
              (position.2 offer (List.mem_of_getElem? offered)) made
            refine ⟨Nat.le_trans position.1 after, ?_⟩
            rw [lines]
            exact Graph.speaks_of_select made
      · cases pending

/-- Starting a dialogue, any line may be ahead. -/
theorem Ahead.start (ahead : session.Ahead 0) (title : String) :
    (session.start title).2.Ahead 0 := by
  unfold Session.start
  split
  · exact ahead
  · split
    · exact ⟨ahead.forward, ahead.position⟩
    · rename_i first world walked
      refine ⟨ahead.forward, ?_⟩
      rcases first with _ | first
      · exact True.intro
      · exact ⟨Nat.zero_le first, Graph.speaks_of_firstSpoken walked⟩

/-- What is ahead of a later bound is ahead of an earlier one. -/
theorem Ahead.mono (ahead : session.Ahead bound) {lower : Nat} (le : lower ≤ bound) :
    session.Ahead lower := by
  refine ⟨ahead.forward, ?_⟩
  have position := ahead.position
  rcases placed : session.position with _ | line | line | line | ⟨line, view, offers⟩ | _
  all_goals rw [placed] at position
  · exact True.intro
  · exact ⟨Nat.le_trans le position.1, position.2⟩
  · exact ⟨Nat.le_trans le position.1, position.2⟩
  · exact Nat.le_trans le position
  · exact ⟨Nat.le_trans le position.1, position.2⟩
  · exact True.intro

/-- While a choice is pending, asking for more changes nothing. -/
theorem next_of_pending {offers : List Offer} (pending : session.pending? = some offers) :
    session.next.2 = session := by
  unfold pending? at pending
  split at pending
  · rename_i chooses
    simp [next, chooses]
  · cases pending

/-- A move that asks for more presents a line, or it stops. -/
theorem Ahead.presents_or_stops (ahead : session.Ahead bound) {move : Move σ}
    (asks : session.asks move = true) :
    (session.presents move).isSome = true ∨ session.stops move = true := by
  rcases stops : session.stops move with _ | _
  · left
    have free : session.pending? = none := by
      unfold Session.asks at asks
      split at asks
      · simpa using asks
      · cases asks
    rw [presents, if_pos (by simp [asks, stops])]
    have goesOn := ahead.goesOn free
    rcases outcome : session.next with ⟨result, after⟩
    rw [outcome] at goesOn
    cases goesOn with
    | shows more same shown later spoken position => rw [shown]; rfl
    | ends same position => simp [Session.stops, asks, outcome] at stops
    | fails same position => simp [Session.stops, asks, outcome] at stops
  · exact Or.inr rfl

/-- Asking for more presents a line that was ahead, and then only later lines are. -/
theorem Ahead.next (ahead : session.Ahead bound) :
    (session.next.2).Ahead ((session.presents (.operate .next)).elim bound (· + 1)) ∧
      ∀ line, session.presents (.operate .next) = some line →
        bound ≤ line ∧ line < session.graph.lines.size := by
  rcases free : session.pending? with _ | offers
  · have asks : session.asks (.operate .next) = true := by simp [Session.asks, free]
    have goesOn := ahead.goesOn free
    rcases outcome : session.next with ⟨result, after⟩
    rw [outcome] at goesOn
    cases goesOn with
    | @shows output _ line more same shown later spoken position =>
        have runs : session.stops (.operate .next) = false := by
          cases output <;> simp_all [Session.stops]
        have presents : session.presents (.operate .next) = some line := by
          rw [Session.presents, if_pos (by simp [asks, runs]), outcome]
          exact shown
        rw [presents]
        refine ⟨⟨same ▸ ahead.forward, same ▸ position⟩, ?_⟩
        rintro _ ⟨⟩
        exact ⟨later, Graph.Speaks.lt_size spoken⟩
    | ends same position =>
        have presents : session.presents (.operate .next) = none := by
          simp [Session.presents, Session.stops, outcome]
        rw [presents]
        exact ⟨⟨same ▸ ahead.forward, same ▸ position⟩, fun _ shown => by cases shown⟩
    | fails same position =>
        have presents : session.presents (.operate .next) = none := by
          simp [Session.presents, Session.stops, outcome]
        rw [presents]
        exact ⟨⟨same ▸ ahead.forward, same ▸ position⟩, fun _ shown => by cases shown⟩
  · have presents : session.presents (.operate .next) = none := by
      simp [Session.presents, Session.asks, free]
    rw [presents, next_of_pending free]
    exact ⟨ahead, fun _ shown => by cases shown⟩

/-- A move that starts no dialogue presents a line that was ahead, if any, and then only later
lines are. -/
theorem Ahead.move (ahead : session.Ahead bound) {move : Move σ} (stays : move.starts = false) :
    (session.move move).Ahead ((session.presents move).elim bound (· + 1)) ∧
      ∀ line, session.presents move = some line →
        bound ≤ line ∧ line < session.graph.lines.size := by
  have silent : session.asks move = false → session.presents move = none := by
    intro silent
    simp [Session.presents, silent]
  rcases move with (title | _ | index | _ | _ | ⟨name, value⟩) | ⟨registry, world⟩
  · cases stays
  · exact ahead.next
  · rw [silent rfl]
    exact ⟨ahead.choose index, fun _ shown => by cases shown⟩
  · cases stays
  · rw [silent rfl]
    exact ⟨⟨ahead.forward, True.intro⟩, fun _ shown => by cases shown⟩
  · rw [silent rfl]
    exact ⟨⟨ahead.forward, ahead.position⟩, fun _ shown => by cases shown⟩
  · rw [silent rfl]
    exact ⟨⟨ahead.forward, ahead.position⟩, fun _ shown => by cases shown⟩

/-- Whatever happens to a session, its links lead forward and its choices are those of its
line. -/
theorem Ahead.any_move (ahead : session.Ahead 0) (move : Move σ) : (session.move move).Ahead 0 := by
  rcases starts : move.starts with _ | _
  · exact (ahead.move starts).1.mono (Nat.zero_le _)
  · rcases move with (title | _ | index | _ | _ | ⟨name, value⟩) | ⟨registry, world⟩
    · exact ahead.start title
    · cases starts
    · cases starts
    · show session.restart.2.Ahead 0
      unfold restart
      split
      · exact ahead.start _
      · exact ahead
    all_goals cases starts

theorem Ahead.afterMoves (ahead : session.Ahead 0) (moves : List (Move σ)) :
    (session.afterMoves moves).Ahead 0 := by
  induction moves generalizing session with
  | nil => exact ahead
  | cons move rest ih => exact ih (ahead.any_move move)

/-- Until a dialogue is started, ever later lines are presented. -/
theorem Ahead.presented (ahead : session.Ahead bound) {moves : List (Move σ)}
    (stay : ∀ move ∈ moves, move.starts = false) :
    (session.presented moves).Pairwise (· < ·) ∧
      ∀ line ∈ session.presented moves, bound ≤ line ∧ line < session.graph.lines.size := by
  induction moves generalizing session bound with
  | nil => exact ⟨List.Pairwise.nil, fun _ member => by cases member⟩
  | cons move rest ih =>
      obtain ⟨aheadAfter, presents⟩ := ahead.move (stay move List.mem_cons_self)
      obtain ⟨ordered, later⟩ := ih aheadAfter fun other member =>
        stay other (List.mem_cons_of_mem move member)
      rw [(session.remembers_move move).lines] at later
      rw [Session.presented]
      rcases first : session.presents move with _ | line
      · rw [first] at later
        exact ⟨ordered, later⟩
      · obtain ⟨noEarlier, known⟩ := presents line first
        rw [first] at later
        constructor
        · exact List.Pairwise.cons (fun other member => (later other member).1) ordered
        · intro other member
          rcases List.mem_cons.mp member with rfl | member
          · exact ⟨noEarlier, known⟩
          · obtain ⟨after, there⟩ := later other member
            exact ⟨Nat.le_trans noEarlier (Nat.le_of_succ_le after), there⟩

/-- As long as nothing stops, each move that asks for more presents a line. -/
theorem Ahead.asked_le (ahead : session.Ahead 0) {moves : List (Move σ)}
    (runs : session.stopped moves = false) :
    session.asked moves ≤ (session.presented moves).length := by
  induction moves generalizing session with
  | nil => exact Nat.le_refl _
  | cons move rest ih =>
      rw [Session.stopped, Bool.or_eq_false_iff] at runs
      have restAsked := ih (ahead.any_move move) runs.2
      rw [Session.asked, Session.presented, List.length_append]
      apply Nat.add_le_add _ restAsked
      rcases asks : session.asks move with _ | _
      · exact Nat.zero_le _
      · rcases ahead.presents_or_stops asks with presents | stops
        · obtain ⟨line, shown⟩ := Option.isSome_iff_exists.mp presents
          rw [shown]
          exact Nat.le_refl _
        · rw [runs.1] at stops
          cases stops

end Session

/-- Of ever later places below a bound there are no more than the bound. -/
theorem length_le_of_ordered {places : List Nat} {start bound : Nat}
    (ordered : places.Pairwise (· < ·)) (within : ∀ place ∈ places, start ≤ place ∧ place < bound) :
    places.length ≤ bound - start := by
  induction places generalizing start with
  | nil => exact Nat.zero_le _
  | cons place rest ih =>
      obtain ⟨noEarlier, below⟩ := within place List.mem_cons_self
      have later : ∀ other ∈ rest, place + 1 ≤ other ∧ other < bound :=
        fun other member => ⟨List.rel_of_pairwise_cons ordered member,
          (within other (List.mem_cons_of_mem place member)).2⟩
      have restLength := ih (List.Pairwise.of_cons ordered) later
      rw [List.length_cons]
      omega

end Parley
