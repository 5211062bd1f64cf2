import Parley.Proofs.Graph.Integrity
import Parley.Proofs.Session.Forward

/-!
# Playing looks up only what is there

A session remembers the places of a line and of the choices offered under it.  Here its
operations are carried out in attempts: each has to find the nodes that it looks up.  On an
intact graph the places that a session remembers are those of nodes, however it is played, so
every attempt comes out, and it comes out as it does without checking.
-/

namespace Parley

variable {σ : Type}

/-- What a position remembers is there. -/
def Position.IsWithin (graph : Graph) : Position → Prop
  | .idle | .finished => True
  | .reached line | .ready line | .shown line => line < graph.lines.size
  | .choosing line _ offers =>
      line < graph.lines.size ∧ ∀ offer ∈ offers, offer.choice < graph.choices.size

/-- Which choices have been made is no matter of what is there. -/
theorem Position.IsWithin.remembers {before after : Graph} {position : Position}
    (within : position.IsWithin before) (same : before.Remembers after) :
    position.IsWithin after := by
  cases position with
  | idle | finished => trivial
  | reached line | ready line | shown line =>
      rw [IsWithin, same.lines]
      exact within
  | choosing line view offers =>
      rw [IsWithin, same.lines, same.size]
      exact within

namespace Session

/-! ## Playing in attempts -/

/-- Start a dialogue from its first line, if the walk from there finds what it needs. -/
def start? (session : Session σ) (title : String) : Option (Except Fault Unit × Session σ) :=
  match session.graph.entry title with
  | .error fault => some (.error fault, session)
  | .ok entry => do
      match ← session.graph.firstSpoken? session.registry (some entry) session.world with
      | (.error fault, world) => return (.error fault, { session with world := world })
      | (.ok first, world) =>
          return (.ok (),
            { session with
              world := world
              dialogue := some title
              position := Position.ofWalk first })

/-- Start the current dialogue again, in attempts. -/
def restart? (session : Session σ) : Option (Except Fault Unit × Session σ) :=
  match session.dialogue with
  | some title => session.start? title
  | none => some (.error (.session .notStarted), session)

/-- Make a choice that is there. -/
def choose? (session : Session σ) (index : Nat) : Option (Except Fault Unit × Session σ) :=
  match session.pending? with
  | none => some (.error (.session .noChoicePending), session)
  | some offers =>
      match offers[index]? with
      | none => some (.error (.session (.choiceOutOfRange index offers.length)), session)
      | some offer => do
          let selection ← session.graph.select? session.registry offer.choice session.world
          let session := { session with graph := selection.graph, world := selection.world }
          match selection.outcome with
          | .error fault => return (.error fault, session)
          | .ok next => return (.ok (), { session with position := Position.ofWalk next })

/-- The choices that are available, if they are there. -/
def openChoices? (graph : Graph) (registry : Registry σ) :
    List ChoiceIndex → World σ → Option (Except Fault (List ChoiceIndex) × World σ)
  | [], world => some (.ok [], world)
  | id :: rest, world => do
      match ← graph.canChoose? registry id world with
      | (.error fault, world) => return (.error fault, world)
      | (.ok available, world) =>
          match ← openChoices? graph registry rest world with
          | (.error fault, world) => return (.error fault, world)
          | (.ok others, world) =>
              return (.ok (if available then id :: others else others), world)

/-- A choice that is there as it is shown at a place. -/
def offerOf? (graph : Graph) (store : Store) (id : ChoiceIndex) (index : Nat) :
    ExceptT Fault Option Offer := do
  let choice ← graph.choice? id
  let text ← fillPlaceholders store choice.text
  return ⟨index, id, text, choice.selected⟩

/-- Choices that are there as they are shown. -/
def offersOf? (graph : Graph) (store : Store) (available : List ChoiceIndex) :
    ExceptT Fault Option (List Offer) :=
  available.zipIdx.mapM fun (id, index) => offerOf? graph store id index

/-- Show a line that is there. -/
def present? (session : Session σ) (id : LineIndex) :
    Option (Except Fault Output × Session σ) := do
  let line ← session.graph.line? id
  match ← openChoices? session.graph session.registry line.choices session.world with
  | (.error fault, world) => return (.error fault, { session with world := world })
  | (.ok available, world) =>
      let session := { session with world := world }
      match viewOf world.store line with
      | .error fault => return (.error fault, session)
      | .ok view =>
          if available.isEmpty then
            return (.ok (.line view), { session with position := .shown id })
          else
            match ← (offersOf? session.graph world.store available).run with
            | .error fault => return (.error fault, session)
            | .ok offers =>
                return (.ok (.choices view offers),
                  { session with position := .choosing id view offers })

/-- Run the commands of a line that is there and show it. -/
def arrive? (session : Session σ) (id : LineIndex) :
    Option (Except Fault Output × Session σ) := do
  let line ← session.graph.line? id
  match session.registry.runAll line.commands session.world with
  | (.error fault, world) => return (.error fault, { session with world := world })
  | (.ok (), world) =>
      let ready := { session with world := world, position := .ready id }
      ready.present? id

/-- Go on from a line that is there. -/
def leave? (session : Session σ) (id : LineIndex) :
    Option (Except Fault Output × Session σ) := do
  match ← session.graph.afterLine? session.registry id session.world with
  | (.error fault, world) => return (.error fault, { session with world := world })
  | (.ok none, world) =>
      return (.ok .finished, { session with world := world, position := .finished })
  | (.ok (some next), world) =>
      let reached := { session with world := world, position := .reached next }
      reached.arrive? next

/-- What the session shows next, in attempts. -/
def next? (session : Session σ) : Option (Except Fault Output × Session σ) :=
  match session.position with
  | .idle => some (.error (.session .notStarted), session)
  | .finished => some (.ok .finished, session)
  | .choosing _ view offers => some (.ok (.choices view offers), session)
  | .shown id => session.leave? id
  | .reached id => session.arrive? id
  | .ready id => session.present? id

/-- Carry out an operation in attempts. -/
def operate? (session : Session σ) :
    Operation → Option (Except Fault (Option Output) × Session σ)
  | .start title => do
      let (outcome, after) ← session.start? title
      return (outcome.map fun _ => none, after)
  | .next => do
      let (outcome, after) ← session.next?
      return (outcome.map some, after)
  | .choose index => do
      let (outcome, after) ← session.choose? index
      return (outcome.map fun _ => none, after)
  | .restart => do
      let (outcome, after) ← session.restart?
      return (outcome.map fun _ => none, after)
  | .finish => some (.ok none, session.finish)
  | .set name value => some (.ok none, session.setVariable name value)

/-! ## The attempts come out -/

/-- The graph of a session is intact, and what the session remembers is there. -/
structure Intact (session : Session σ) : Prop where
  graph : session.graph.Intact
  position : session.position.IsWithin session.graph

/-- An attempt at an operation finds what it needs and leaves a session that is intact. -/
structure Comes {α : Type} (attempt : Option (Except Fault α × Session σ))
    (result : Except Fault α × Session σ) : Prop where
  found : attempt = some result
  intact : result.2.Intact

/-- What an operation gives does not matter to what it finds. -/
theorem Comes.map {α β : Type} {attempt : Option (Except Fault α × Session σ)}
    {result : Except Fault α × Session σ} (comes : Comes attempt result) (change : α → β) :
    Comes (do
      let (outcome, after) ← attempt
      return (outcome.map change, after)) (result.1.map change, result.2) where
  found := by
    rw [comes.found]
    rfl
  intact := comes.intact

theorem openChoices?_eq_some {graph : Graph} (registry : Registry σ) {choices : List ChoiceIndex}
    (present : ∀ id ∈ choices, id < graph.choices.size) (world : World σ) :
    openChoices? graph registry choices world = some (openChoices graph registry choices world) := by
  induction choices generalizing world with
  | nil => rfl
  | cons id rest ih =>
      have others := ih fun other member => present other (List.mem_cons_of_mem id member)
      have first := Graph.Intact.canChoose?_eq_some registry (present id List.mem_cons_self) world
      simp only [openChoices?, openChoices, first, Option.bind_eq_bind, Option.bind_some]
      rcases graph.canChoose registry id world with ⟨fault | available, between⟩
      · rfl
      · simp only [others, Option.bind_some]
        rcases openChoices graph registry rest between with ⟨fault | found, last⟩ <;> rfl

theorem offersOf?_eq_some {graph : Graph} (store : Store) {available : List ChoiceIndex}
    (present : ∀ id ∈ available, id < graph.choices.size) :
    (offersOf? graph store available).run = some (offersOf graph store available) := by
  have all : Finds (fun _ => True) (offersOf? graph store available)
      (offersOf graph store available) := by
    refine .mapM fun place member => ?_
    have known := present place.1 (List.fst_mem_of_mem_zipIdx member)
    refine .lookUp (Graph.choice?_eq_some known) ?_
    exact .bind (.read _) fun text _ => .ok trivial
  exact all.found

namespace Intact

/-- A session that has not begun. -/
theorem ofGraph {graph : Graph} (intact : graph.Intact) (registry : Registry σ)
    (world : World σ) : (Session.ofGraph graph registry world).Intact :=
  ⟨intact, trivial⟩

variable {session : Session σ} (intact : session.Intact)

include intact

theorem withWorld (world : World σ) : { session with world := world }.Intact :=
  ⟨intact.graph, intact.position⟩

theorem withPosition (world : World σ) (dialogue : Option String) {position : Position}
    (within : position.IsWithin session.graph) :
    { session with world := world, dialogue := dialogue, position := position }.Intact :=
  ⟨intact.graph, within⟩

theorem present? {id : LineIndex} (present : id < session.graph.lines.size) :
    Comes (session.present? id) (session.present id) := by
  have listed := intact.graph.choices id
  have opens := openChoices?_eq_some session.registry listed session.world
  unfold Session.present? Session.present
  simp only [Graph.line?_eq_some present, opens, Option.bind_eq_bind, Option.bind_some]
  rcases opened : openChoices session.graph session.registry (session.graph.line id).choices
    session.world with ⟨fault | available, world⟩
  · exact ⟨rfl, intact.withWorld world⟩
  · dsimp only
    have known : ∀ choice ∈ available, choice < session.graph.choices.size :=
      fun choice member => listed choice ((sublist_of_openChoices opened).subset member)
    rcases viewOf world.store (session.graph.line id) with fault | view
    · exact ⟨rfl, intact.withWorld world⟩
    · dsimp only
      split
      · exact ⟨rfl, intact.withPosition world _ present⟩
      · simp only [offersOf?_eq_some world.store known, Option.bind_some]
        rcases offered : offersOf session.graph world.store available with fault | offers
        · exact ⟨rfl, intact.withWorld world⟩
        · refine ⟨rfl, intact.withPosition world _ ⟨present, fun offer member => ?_⟩⟩
          exact known offer.choice (mem_of_offersOf offered offer member)

theorem arrive? {id : LineIndex} (present : id < session.graph.lines.size) :
    Comes (session.arrive? id) (session.arrive id) := by
  unfold Session.arrive? Session.arrive
  simp only [Graph.line?_eq_some present, Option.bind_eq_bind, Option.bind_some]
  rcases session.registry.runAll (session.graph.line id).commands session.world with
    ⟨fault | done, world⟩
  · exact ⟨rfl, intact.withWorld world⟩
  · have ready : { session with world := world, position := .ready id }.Intact :=
      intact.withPosition world session.dialogue present
    exact ready.present? present

theorem leave? {id : LineIndex} (present : id < session.graph.lines.size) :
    Comes (session.leave? id) (session.leave id) := by
  obtain ⟨found, leads⟩ := intact.graph.afterLine? session.registry present session.world
  unfold Session.leave? Session.leave
  simp only [found, Option.bind_eq_bind, Option.bind_some]
  rcases ran : session.graph.afterLine session.registry id session.world with
    ⟨fault | next, world⟩
  · exact ⟨rfl, intact.withWorld world⟩
  · rw [ran] at leads
    rcases next with _ | next
    · exact ⟨rfl, intact.withPosition world _ trivial⟩
    · have known := leads next rfl
      have reached : { session with world := world, position := .reached next }.Intact :=
        intact.withPosition world session.dialogue known
      exact reached.arrive? known

theorem next? : Comes session.next? session.next := by
  have position := intact.position
  unfold Session.next? Session.next
  rcases placed : session.position with _ | id | id | id | ⟨id, view, offers⟩ | _ <;>
    rw [placed] at position
  · exact ⟨rfl, intact⟩
  · exact intact.arrive? position
  · exact intact.present? position
  · exact intact.leave? position
  · exact ⟨rfl, intact⟩
  · exact ⟨rfl, intact⟩

theorem start? (title : String) : Comes (session.start? title) (session.start title) := by
  unfold Session.start? Session.start Graph.entry
  rcases entered : session.graph.entries.get? title with _ | entry
  · exact ⟨rfl, intact⟩
  · have known : ∀ id, some entry = some id → id < session.graph.lines.size := by
      rintro id ⟨rfl⟩
      exact intact.graph.entries title entry entered
    obtain ⟨found, leads⟩ := intact.graph.firstSpoken? session.registry known session.world
    simp only [found, Option.bind_eq_bind, Option.bind_some]
    rcases ran : session.graph.firstSpoken session.registry (some entry) session.world with
      ⟨fault | first, world⟩
    · exact ⟨rfl, intact.withWorld world⟩
    · rw [ran] at leads
      refine ⟨rfl, intact.withPosition world (some title) ?_⟩
      rcases first with _ | first
      · trivial
      · exact leads first rfl

theorem restart? : Comes session.restart? session.restart := by
  unfold Session.restart? Session.restart
  rcases session.dialogue with _ | title
  · exact ⟨rfl, intact⟩
  · exact intact.start? title

theorem choose? (index : Nat) : Comes (session.choose? index) (session.choose index) := by
  unfold Session.choose? Session.choose
  rcases waits : session.pending? with _ | offers
  · exact ⟨rfl, intact⟩
  · rcases offered : offers[index]? with _ | offer
    · simp only [offered]
      exact ⟨rfl, intact⟩
    · have present : offer.choice < session.graph.choices.size := by
        have within := intact.position
        unfold pending? at waits
        split at waits
        · rename_i placed
          cases waits
          rw [placed] at within
          exact within.2 offer (List.mem_of_getElem? offered)
        · cases waits
      obtain ⟨found, selected, leads⟩ :=
        intact.graph.select? session.registry present session.world
      have same := session.graph.remembers_select session.registry offer.choice session.world
      simp only [offered, found, Option.bind_eq_bind, Option.bind_some]
      rcases made : (session.graph.select session.registry offer.choice session.world).outcome with
        fault | next
      · exact ⟨rfl, selected, intact.position.remembers same⟩
      · refine ⟨rfl, selected, ?_⟩
        rcases next with _ | next
        · trivial
        · show next < (session.graph.select session.registry offer.choice session.world).graph.lines.size
          rw [same.lines]
          exact leads next made

/-- Whatever a session is asked to do, it finds every node that it needs, and it stays intact. -/
theorem operate? (operation : Operation) :
    Comes (session.operate? operation) (session.operate operation) := by
  cases operation with
  | start title => exact (intact.start? title).map _
  | next => exact intact.next?.map _
  | choose index => exact (intact.choose? index).map _
  | restart => exact intact.restart?.map _
  | finish => exact ⟨rfl, intact.graph, trivial⟩
  | set name value => exact ⟨rfl, intact.graph, intact.position⟩

omit intact in
/-- However a session is played, it stays intact. -/
theorem afterMoves (intact : session.Intact) (moves : List (Move σ)) :
    (session.afterMoves moves).Intact := by
  induction moves generalizing session with
  | nil => exact intact
  | cons move rest ih =>
      apply ih
      cases move with
      | operate operation => exact (intact.operate? operation).intact
      | update registry world => exact ⟨intact.graph, intact.position⟩

end Intact

end Session

end Parley
