import Parley.Compilation
import Parley.Placeholder
import Parley.Graph.Follow

/-!
# Sessions

A session plays the dialogues of one graph.  Its position says where it is: at a
line whose commands have not run yet, at a line whose commands have run but that
could not be shown yet, at a line that has been shown, or at a line that waits
for a choice.  Once all commands of a line have run they do not run again, even
if showing the line fails and is tried again.

Every operation gives an outcome and the session afterwards.  One that fails may
have changed variables and host state as far as its calls went, but the position
stays where the failure happened.
-/

namespace Parley

/-- A line as it is shown, with placeholders filled in. -/
structure View where
  speaker : String
  text : String
  expression : String
  deriving DecidableEq, Repr

/-- A choice as it is shown. -/
structure Offer where
  /-- The place among the choices that are shown. -/
  index : Nat
  choice : ChoiceIndex
  text : String
  selected : Bool
  deriving DecidableEq, Repr

/-- What a session shows next. -/
inductive Output where
  | line (view : View)
  | choices (view : View) (offers : List Offer)
  | finished
  deriving DecidableEq, Repr

/-- Where a session is. -/
inductive Position where
  /-- No dialogue has been started. -/
  | idle
  /-- At a line whose commands have not run. -/
  | reached (line : LineIndex)
  /-- At a line whose commands have run but that has not been shown. -/
  | ready (line : LineIndex)
  /-- At a line that has been shown without choices. -/
  | shown (line : LineIndex)
  /-- At a line that has been shown with choices. -/
  | choosing (line : LineIndex) (view : View) (offers : List Offer)
  /-- The dialogue is over. -/
  | finished
  deriving DecidableEq, Repr

namespace Position

/-- The position after a walk: the line it ended on, or the end. -/
def ofWalk : Option LineIndex → Position
  | some line => reached line
  | none => finished

/-- Whether a dialogue is being played. -/
def isActive : Position → Bool
  | idle | finished => false
  | _ => true

end Position

/-- A graph that is played, with the commands and the world it is played in. -/
structure Session (σ : Type) where
  graph : Graph
  registry : Registry σ
  world : World σ
  /-- The dialogue that was started. -/
  dialogue : Option String
  position : Position

namespace Session

variable {σ : Type}

/-- A session in which nothing has been started. -/
def ofGraph (graph : Graph) (registry : Registry σ) (world : World σ) : Session σ :=
  ⟨graph, registry, world, none, .idle⟩

/-- Whether a dialogue is being played. -/
def isActive (session : Session σ) : Bool :=
  session.position.isActive

/-- The choices that are offered, if the session waits for one. -/
def pending? (session : Session σ) : Option (List Offer) :=
  match session.position with
  | .choosing _ _ offers => some offers
  | _ => none

/-- Start a dialogue from its first line, in place of any other. -/
def start (session : Session σ) (title : String) : Except Fault Unit × Session σ :=
  match session.graph.entry title with
  | .error fault => (.error fault, session)
  | .ok entry =>
      match session.graph.firstSpoken session.registry (some entry) session.world with
      | (.error fault, world) => (.error fault, { session with world := world })
      | (.ok first, world) =>
          (.ok (),
            { session with
              world := world
              dialogue := some title
              position := Position.ofWalk first })

/-- Start the current dialogue again. -/
def restart (session : Session σ) : Except Fault Unit × Session σ :=
  match session.dialogue with
  | some title => session.start title
  | none => (.error (.session .notStarted), session)

/-- Leave the dialogue. -/
def finish (session : Session σ) : Session σ :=
  { session with dialogue := none, position := .idle }

/-- Make the choice at a place among those offered. -/
def choose (session : Session σ) (index : Nat) : Except Fault Unit × Session σ :=
  match session.pending? with
  | none => (.error (.session .noChoicePending), session)
  | some offers =>
      match offers[index]? with
      | none => (.error (.session (.choiceOutOfRange index offers.length)), session)
      | some offer =>
          let selection := session.graph.select session.registry offer.choice session.world
          let session := { session with graph := selection.graph, world := selection.world }
          match selection.outcome with
          | .error fault => (.error fault, session)
          | .ok next => (.ok (), { session with position := Position.ofWalk next })

/-- The choices that are available, up to the first whose conditions fail to be
evaluated. -/
def openChoices (graph : Graph) (registry : Registry σ) :
    List ChoiceIndex → World σ → Except Fault (List ChoiceIndex) × World σ
  | [], world => (.ok [], world)
  | id :: rest, world =>
      match graph.canChoose registry id world with
      | (.error fault, world) => (.error fault, world)
      | (.ok available, world) =>
          match openChoices graph registry rest world with
          | (.error fault, world) => (.error fault, world)
          | (.ok others, world) => (.ok (if available then id :: others else others), world)

/-- A line as it is shown. -/
def viewOf (store : Store) (line : Line) : Except Fault View := do
  let text ← fillPlaceholders store (line.text.getD "")
  return ⟨line.speaker.getD "", text, line.expression⟩

/-- A choice as it is shown at a place. -/
def offerOf (graph : Graph) (store : Store) (id : ChoiceIndex) (index : Nat) :
    Except Fault Offer := do
  let choice := graph.choice id
  let text ← fillPlaceholders store choice.text
  return ⟨index, id, text, choice.selected⟩

/-- Choices as they are shown, counted from zero. -/
def offersOf (graph : Graph) (store : Store) (available : List ChoiceIndex) :
    Except Fault (List Offer) :=
  available.zipIdx.mapM fun (id, index) => offerOf graph store id index

/-- Show a line whose commands have run. -/
def present (session : Session σ) (id : LineIndex) : Except Fault Output × Session σ :=
  let line := session.graph.line id
  match openChoices session.graph session.registry line.choices session.world with
  | (.error fault, world) => (.error fault, { session with world := world })
  | (.ok available, world) =>
      let session := { session with world := world }
      match viewOf world.store line with
      | .error fault => (.error fault, session)
      | .ok view =>
          if available.isEmpty then
            (.ok (.line view), { session with position := .shown id })
          else
            match offersOf session.graph world.store available with
            | .error fault => (.error fault, session)
            | .ok offers =>
                (.ok (.choices view offers),
                  { session with position := .choosing id view offers })

/-- Run the commands of a line and show it. -/
def arrive (session : Session σ) (id : LineIndex) : Except Fault Output × Session σ :=
  match session.registry.runAll (session.graph.line id).commands session.world with
  | (.error fault, world) => (.error fault, { session with world := world })
  | (.ok (), world) =>
      { session with world := world, position := .ready id }.present id

/-- Go on from a line that has been shown. -/
def leave (session : Session σ) (id : LineIndex) : Except Fault Output × Session σ :=
  match session.graph.afterLine session.registry id session.world with
  | (.error fault, world) => (.error fault, { session with world := world })
  | (.ok none, world) => (.ok .finished, { session with world := world, position := .finished })
  | (.ok (some next), world) =>
      { session with world := world, position := .reached next }.arrive next

/-- What the session shows next.  While a choice is pending, the same choices are
shown again. -/
def next (session : Session σ) : Except Fault Output × Session σ :=
  match session.position with
  | .idle => (.error (.session .notStarted), session)
  | .finished => (.ok .finished, session)
  | .choosing _ view offers => (.ok (.choices view offers), session)
  | .shown id => session.leave id
  | .reached id => session.arrive id
  | .ready id => session.present id

/-- Set a variable from outside. -/
def setVariable (session : Session σ) (name : String) (value : Value) : Session σ :=
  { session with
    world := { session.world with store := session.world.store.insert name value } }

/-- Compile a script and, if a dialogue is named, start it. -/
def ofScript (script : List String) (registry : Registry σ) (world : World σ)
    (entry : Option String) : Except Diagnostic (Session σ) := do
  let compilation := compile registry world.store script
  let graph ← compilation.graph
  let session := ofGraph graph registry { world with store := compilation.store }
  match entry with
  | none => return session
  | some title =>
      match session.start title with
      | (.error fault, _) => throw (Diagnostic.ofFault fault)
      | (.ok (), started) => return started

@[simp]
theorem next_of_finished (session : Session σ) (ended : session.position = .finished) :
    session.next = (.ok .finished, session) := by
  simp [next, ended]

end Session

end Parley
