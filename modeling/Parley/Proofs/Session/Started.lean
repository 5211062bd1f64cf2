import Parley.Proofs.Session.Failures
import Parley.Proofs.Session.Integrity
import Parley.Proofs.Session.Placement
import Parley.Proofs.Session.Safe

/-!
# Sessions in a dialogue

From the start of a dialogue until it is left, a session on an intact graph can show what comes
next, start again and make any of the choices that it offers, and it does not object to any of
that.  What can still fail is a call, a text with a variable that is not defined, or a walk; and
after that, too, the session is in its dialogue.
-/

namespace Parley

variable {σ : Type}

/-! ## How showing a line can fail -/

theorem isOfWalk_of_fillPlaceholders {store : Store} {text : String} {fault : Fault}
    (failed : fillPlaceholders store text = .error fault) : fault.IsOfWalk := by
  obtain ⟨name, rfl, -⟩ := fillPlaceholders_eq_error failed
  exact .call (.undefined name)

namespace Session

variable {session : Session σ} {fault : Fault}

theorem isOfWalk_of_openChoices {graph : Graph} {registry : Registry σ}
    {choices : List ChoiceIndex} {world : World σ}
    (failed : (openChoices graph registry choices world).1 = .error fault) : fault.IsOfWalk := by
  induction choices generalizing world with
  | nil => cases failed
  | cons id rest ih =>
      simp only [openChoices] at failed
      split at failed
      · rename_i tested
        cases failed
        exact .call (Registry.isOfCall_of_allHold (congrArg Prod.fst tested))
      · split at failed
        · rename_i opened
          cases failed
          exact ih (congrArg Prod.fst opened)
        · cases failed

theorem isOfWalk_of_present {line : LineIndex}
    (failed : (session.present line).1 = .error fault) : fault.IsOfWalk := by
  simp only [present] at failed
  split at failed
  · rename_i opened
    cases failed
    exact isOfWalk_of_openChoices (congrArg Prod.fst opened)
  · split at failed
    · rename_i viewed
      cases failed
      exact isOfWalk_of_fillPlaceholders (viewOf_eq_error viewed)
    · split at failed
      · cases failed
      · split at failed
        · rename_i offered
          cases failed
          obtain ⟨choice, -, unfilled⟩ := offersOf_eq_error offered
          exact isOfWalk_of_fillPlaceholders unfilled
        · cases failed

theorem isOfWalk_of_arrive {line : LineIndex}
    (failed : (session.arrive line).1 = .error fault) : fault.IsOfWalk := by
  simp only [arrive] at failed
  split at failed
  · rename_i ran
    cases failed
    exact .call (Registry.isOfCall_of_runAll (congrArg Prod.fst ran))
  · exact isOfWalk_of_present failed

theorem isOfWalk_of_leave {line : LineIndex}
    (failed : (session.leave line).1 = .error fault) : fault.IsOfWalk := by
  simp only [leave] at failed
  split at failed
  · rename_i walked
    cases failed
    exact Graph.isOfWalk_of_follow (congrArg Prod.fst walked)
  · cases failed
  · exact isOfWalk_of_arrive failed

/-- Where a dialogue has been started, there is something to show, unless a call, a text or a
walk fails. -/
theorem isOfWalk_of_next (active : session.position ≠ .idle)
    (failed : session.next.1 = .error fault) : fault.IsOfWalk := by
  unfold next at failed
  split at failed
  · rename_i idle
    exact absurd idle active
  · cases failed
  · cases failed
  · exact isOfWalk_of_leave failed
  · exact isOfWalk_of_arrive failed
  · exact isOfWalk_of_present failed

/-! ## The dialogue that is played -/

variable (session)

theorem dialogue_present (line : LineIndex) :
    (session.present line).2.dialogue = session.dialogue := by
  simp only [present]
  repeat' split
  all_goals rfl

theorem dialogue_arrive (line : LineIndex) :
    (session.arrive line).2.dialogue = session.dialogue := by
  simp only [arrive]
  split
  · rfl
  · exact dialogue_present _ line

theorem dialogue_leave (line : LineIndex) :
    (session.leave line).2.dialogue = session.dialogue := by
  simp only [leave]
  split
  · rfl
  · rfl
  · exact dialogue_arrive _ _

theorem dialogue_next : session.next.2.dialogue = session.dialogue := by
  unfold next
  split
  · rfl
  · rfl
  · rfl
  · exact session.dialogue_leave _
  · exact session.dialogue_arrive _
  · exact session.dialogue_present _

theorem dialogue_choose (index : Nat) : (session.choose index).2.dialogue = session.dialogue := by
  simp only [choose]
  repeat' split
  all_goals rfl

/-- A dialogue of the graph is played. -/
def IsNamed (session : Session σ) : Prop :=
  ∃ title, session.dialogue = some title ∧ session.objectionTo? title = none

variable {session} {after : Session σ}

theorem IsNamed.of_dialogue_eq (named : session.IsNamed)
    (same : after.dialogue = session.dialogue) (graph : session.graph.Remembers after.graph) :
    after.IsNamed := by
  obtain ⟨title, played, known⟩ := named
  refine ⟨title, same.trans played, ?_⟩
  unfold objectionTo?
  rw [graph.entries]
  exact known

theorem isNamed_of_start {title : String} (started : session.start title = (.ok (), after)) :
    after.IsNamed := by
  have known : session.objectionTo? title = none := by
    rcases objection : session.objectionTo? title with _ | fault
    · rfl
    · cases ((session.failsInPlace_start title).objects fault objection).symm.trans started
  have graph := session.graph_start title
  rw [started] at graph
  refine ⟨title, ?_, ?_⟩
  · simp only [start] at started
    split at started
    · cases started
    · split at started
      · cases started
      · cases started
        rfl
  · unfold objectionTo? at known ⊢
    rw [graph]
    exact known

theorem IsNamed.start (named : session.IsNamed) (title : String) :
    (session.start title).2.IsNamed := by
  rcases outcome : session.start title with ⟨fault | _, after⟩
  · simp only [Session.start] at outcome
    split at outcome
    · cases outcome
      exact named
    · split at outcome
      · cases outcome
        exact named
      · cases outcome
  · exact isNamed_of_start outcome

theorem IsNamed.restart (named : session.IsNamed) : session.restart.2.IsNamed := by
  obtain ⟨title, played, -⟩ := id named
  simp only [Session.restart, played]
  exact named.start title

/-! ## Sessions in a dialogue -/

/-- A session that has found its place in a dialogue of an intact graph. -/
structure Started (session : Session σ) : Prop where
  intact : session.Intact
  placed : session.WellPlaced
  named : session.IsNamed

/-- An attempt at an operation finds what it needs and leaves a session in a dialogue; if it
fails, then in a call, in a text or on a walk. -/
structure Continues {α : Type} (attempt : Option (Except Fault α × Session σ))
    (result : Except Fault α × Session σ) : Prop where
  found : attempt = some result
  started : result.2.Started
  fails : ∀ fault, result.1 = .error fault → fault.IsOfWalk

/-- A session in which a dialogue has been started is in it. -/
theorem started_of_start {title : String} (intact : session.Intact)
    (placed : session.WellPlaced) (started : session.start title = (.ok (), after)) :
    after.Started := by
  have same : (session.start title).2 = after := congrArg Prod.snd started
  exact ⟨same ▸ (intact.start? title).intact, same ▸ placed.start title, isNamed_of_start started⟩

namespace Started

variable (started : session.Started)

include started

theorem position_ne_idle : session.position ≠ .idle := by
  intro idle
  obtain ⟨title, played, -⟩ := started.named
  rw [started.placed.idle.mp idle] at played
  cases played

theorem withWorld (world : World σ) : { session with world := world }.Started where
  intact := started.intact.withWorld world
  placed := started.placed.withWorld world
  named := started.named

/-- The choices that a session offers are counted from zero, and there is one at least. -/
theorem isMenu_of_pending {offers : List Offer} (pending : session.pending? = some offers) :
    offers ≠ [] ∧ offers.map Offer.index = List.range offers.length := by
  have placed := started.placed.placed
  unfold pending? at pending
  split at pending
  · rename_i here
    cases pending
    rw [here] at placed
    exact ⟨placed.2.offered, placed.2.counted⟩
  · cases pending

theorem next : Continues session.next? session.next where
  found := started.intact.next?.found
  started := ⟨started.intact.next?.intact, started.placed.next,
    started.named.of_dialogue_eq session.dialogue_next (.of_eq session.graph_next)⟩
  fails _ failed := isOfWalk_of_next started.position_ne_idle failed

theorem restart : Continues session.restart? session.restart where
  found := started.intact.restart?.found
  started := ⟨started.intact.restart?.intact, started.placed.restart, started.named.restart⟩
  fails fault failed := by
    obtain ⟨title, played, known⟩ := started.named
    have fine : session.objection? .restart = none := by
      simp only [objection?, played]
      exact known
    exact (session.failsInPlace_restart.fails fine fault failed).1

/-- Any of the choices that are offered can be made. -/
theorem choose {offers : List Offer} {index : Nat} (pending : session.pending? = some offers)
    (within : index < offers.length) :
    Continues (session.choose? index) (session.choose index) where
  found := (started.intact.choose? index).found
  started := ⟨(started.intact.choose? index).intact, started.placed.choose index,
    started.named.of_dialogue_eq (session.dialogue_choose index) (session.remembers_choose index)⟩
  fails fault failed := by
    have fine : session.objection? (.choose index) = none := by
      simp only [objection?, pending, List.getElem?_eq_getElem within]
    exact ((session.failsInPlace_choose index).fails fine fault failed).1

/-- Until it leaves its dialogue, a session stays in one, whatever else a host does. -/
theorem move {move : Move σ} (stays : move ≠ .operate .finish) : (session.move move).Started := by
  rcases move with (title | _ | index | _ | _ | ⟨name, value⟩) | ⟨registry, world⟩
  · exact ⟨(started.intact.start? title).intact, started.placed.start title,
      started.named.start title⟩
  · exact started.next.started
  · exact ⟨(started.intact.choose? index).intact, started.placed.choose index,
      started.named.of_dialogue_eq (session.dialogue_choose index)
        (session.remembers_choose index)⟩
  · exact started.restart.started
  · exact absurd rfl stays
  · exact started.withWorld _
  · exact ⟨⟨started.intact.graph, started.intact.position⟩,
      ⟨started.placed.idle, started.placed.placed⟩, started.named⟩

theorem afterMoves {moves : List (Move σ)}
    (stay : ∀ move ∈ moves, move ≠ .operate .finish) : (session.afterMoves moves).Started := by
  induction moves generalizing session with
  | nil => exact started
  | cons move rest ih =>
      exact ih (started.move (stay move List.mem_cons_self)) fun other member =>
        stay other (List.mem_cons_of_mem move member)

end Started

/-! ## What is shown -/

theorem pending?_of_present {id : LineIndex} {view : View} {offers : List Offer}
    (shown : session.present id = (.ok (.choices view offers), after)) :
    after.pending? = some offers := by
  simp only [present] at shown
  split at shown
  · cases shown
  · split at shown
    · cases shown
    · split at shown
      · cases shown
      · split at shown
        · cases shown
        · cases shown
          rfl

theorem pending?_of_arrive {id : LineIndex} {view : View} {offers : List Offer}
    (shown : session.arrive id = (.ok (.choices view offers), after)) :
    after.pending? = some offers := by
  simp only [arrive] at shown
  split at shown
  · cases shown
  · exact pending?_of_present shown

/-- The choices that are shown are those that the session then waits for. -/
theorem pending?_of_next {view : View} {offers : List Offer}
    (shown : session.next = (.ok (.choices view offers), after)) :
    after.pending? = some offers := by
  unfold next at shown
  split at shown
  · cases shown
  · cases shown
  · rename_i here
    cases shown
    simp only [pending?, here]
  · simp only [leave] at shown
    split at shown
    · cases shown
    · cases shown
    · exact pending?_of_arrive shown
  · exact pending?_of_arrive shown
  · exact pending?_of_present shown

end Session

end Parley
