import Parley.Proofs.Registry.Effects
import Parley.Proofs.Session.Operation

/-!
# What play does to the variables

Where no condition of a graph is an assignment, walking through the graph leaves the
variables alone.  So do all operations of a session but for the commands that they run:
asking for more runs the commands of one line at most, and making a choice runs those of
the choice.
-/

namespace Parley

variable {σ : Type}

namespace Graph

/-- No condition of the graph is an assignment. -/
structure TestsOnly (graph : Graph) : Prop where
  arms : ∀ id, ∀ arm ∈ (graph.branch id).arms, ∀ condition ∈ arm.conditions,
    condition.name ≠ Command.assignName
  choices : ∀ id, ∀ condition ∈ (graph.choice id).conditions,
    condition.name ≠ Command.assignName

/-- Which choices have been made is no matter of the conditions. -/
theorem TestsOnly.remembers {before after : Graph} (tests : before.TestsOnly)
    (same : before.Remembers after) : after.TestsOnly where
  arms id := by
    rw [same.branch]
    exact tests.arms id
  choices id := by
    obtain ⟨selected, unchanged⟩ := same.choice id
    rw [unchanged]
    exact tests.choices id

variable {graph : Graph} {registry : Registry σ}

theorem store_takenArm (has : registry.HasAssignment) {arms : List Arm}
    (tests : ∀ arm ∈ arms, ∀ condition ∈ arm.conditions, condition.name ≠ Command.assignName)
    (world : World σ) : (takenArm registry arms world).2.store = world.store := by
  induction arms generalizing world with
  | nil => rfl
  | cons arm rest ih =>
      have first := has.store_allHold (tests arm List.mem_cons_self) world
      unfold takenArm
      split <;> rename_i ran <;> rw [ran] at first
      · exact first
      · exact first
      · exact (ih (fun other member => tests other (List.mem_cons_of_mem _ member)) _).trans first

namespace TestsOnly

variable (tests : graph.TestsOnly) (has : registry.HasAssignment)

include tests has

theorem store_firstSpokenWithin (fuel : Nat) (start : Option LineIndex) (world : World σ) :
    (graph.firstSpokenWithin registry fuel start world).2.store = world.store := by
  induction fuel generalizing start world with
  | zero => rfl
  | succ fuel ih =>
      cases start with
      | none => rfl
      | some id =>
          have passed : (graph.afterRelay registry (graph.line id) world).2.store = world.store := by
            unfold afterRelay
            split
            · exact store_takenArm has (tests.arms _) world
            · rfl
          simp only [firstSpokenWithin]
          split
          · split <;> rename_i ran <;> rw [ran] at passed
            · exact passed
            · exact (ih _ _).trans passed
          · rfl

theorem store_firstSpoken (start : Option LineIndex) (world : World σ) :
    (graph.firstSpoken registry start world).2.store = world.store :=
  tests.store_firstSpokenWithin has walkLimit start world

theorem store_follow (branch : Option BranchIndex) (next : Option LineIndex) (world : World σ) :
    (graph.follow registry branch next world).2.store = world.store := by
  unfold follow
  split
  · rename_i branch
    have taken := store_takenArm has (tests.arms branch) world
    unfold throughBranch
    split <;> rename_i ran <;> rw [ran] at taken
    · exact taken
    · exact (tests.store_firstSpoken has _ _).trans taken
  · exact tests.store_firstSpoken has next world

/-- Going from a line to the one after it leaves the variables alone. -/
theorem store_afterLine (id : LineIndex) (world : World σ) :
    (graph.afterLine registry id world).2.store = world.store :=
  tests.store_follow has _ _ world

theorem store_canChoose (id : ChoiceIndex) (world : World σ) :
    (graph.canChoose registry id world).2.store = world.store :=
  has.store_allHold (tests.choices id) world

/-- Making a choice does to the variables what those of its commands do that complete. -/
theorem store_select (id : ChoiceIndex) (world : World σ) :
    (graph.select registry id world).world.store =
      world.store.assignAll (registry.completed (graph.choice id).commands world) := by
  have ran := has.store_runAll (graph.choice id).commands world
  rw [← ran]
  simp only [select]
  split <;> rename_i done <;> rw [done]
  exact (tests.remembers (.markSelected graph id)).store_follow has _ _ _

end TestsOnly

end Graph

/-- The line at which a position is. -/
def Position.line? : Position → Option LineIndex
  | .idle | .finished => none
  | .reached line | .ready line | .shown line | .choosing line _ _ => some line

namespace Session

/-- The line whose commands are run when a session is asked for more, and the world in which
they are run. -/
def running? (session : Session σ) : Option (LineIndex × World σ) :=
  match session.position with
  | .reached id => some (id, session.world)
  | .shown id =>
      match session.graph.afterLine session.registry id session.world with
      | (.ok (some next), world) => some (next, world)
      | _ => none
  | _ => none

/-- The choice that is at a place among those offered. -/
def offered? (session : Session σ) (index : Nat) : Option Offer :=
  session.pending?.bind fun offers => offers[index]?

/-- The variables change by assignments alone, and only by those that an operation runs as
commands and that complete. -/
structure ChangesByCommands (session : Session σ) : Prop where
  start : ∀ title, (session.start title).2.world.store = session.world.store
  restart : session.restart.2.world.store = session.world.store
  finish : session.finish.world.store = session.world.store
  /-- The conditions of an arm are evaluated without a change, in any world. -/
  arms : ∀ id, ∀ arm ∈ (session.graph.branch id).arms, ∀ world,
    (session.registry.allHold arm.conditions world).2.store = world.store
  /-- So are the conditions of a choice. -/
  choices : ∀ id world, (session.graph.canChoose session.registry id world).2.store = world.store
  /-- Where commands of a line are run, they find the variables unchanged, and the session
  stays at that line. -/
  running : ∀ id world, session.running? = some (id, world) →
    world.store = session.world.store ∧ session.next.2.position.line? = some id
  next : session.next.2.world.store =
    match session.running? with
    | some (id, world) => session.world.store.assignAll
        (session.registry.completed (session.graph.line id).commands world)
    | none => session.world.store
  /-- No commands of a line are run where no line is to be shown. -/
  rests : session.pending?.isSome = true ∨ session.isActive = false → session.running? = none
  choose : ∀ index, (session.choose index).2.world.store =
    match session.offered? index with
    | some offer => session.world.store.assignAll
        (session.registry.completed (session.graph.choice offer.choice).commands session.world)
    | none => session.world.store

theorem store_openChoices {graph : Graph} {registry : Registry σ} (tests : graph.TestsOnly)
    (has : registry.HasAssignment) (choices : List ChoiceIndex) (world : World σ) :
    (openChoices graph registry choices world).2.store = world.store := by
  induction choices generalizing world with
  | nil => rfl
  | cons id rest ih =>
      have first := tests.store_canChoose has id world
      unfold openChoices
      split <;> rename_i asked <;> rw [asked] at first
      · exact first
      · have others := ih ‹World σ›
        split <;> rename_i opened <;> rw [opened] at others <;> exact others.trans first

/-- Starting a dialogue leaves the commands as they are. -/
theorem registry_start (session : Session σ) (title : String) :
    (session.start title).2.registry = session.registry := by
  simp only [start]
  repeat' split
  all_goals rfl

section Operations

variable (session : Session σ) (tests : session.graph.TestsOnly) (has : session.registry.HasAssignment)

include tests has

theorem store_start (title : String) :
    (session.start title).2.world.store = session.world.store := by
  simp only [start]
  split
  · rfl
  · rename_i entry _
    have walked := tests.store_firstSpoken has (some entry) session.world
    split <;> rename_i ran <;> rw [ran] at walked <;> exact walked

theorem store_restart : session.restart.2.world.store = session.world.store := by
  unfold restart
  split
  · exact session.store_start tests has _
  · rfl

/-- Showing a line whose commands have run leaves the variables alone. -/
theorem store_present (id : LineIndex) :
    (session.present id).2.world.store = session.world.store := by
  have opened := store_openChoices tests has (session.graph.line id).choices session.world
  unfold present
  dsimp only
  split <;> rename_i ran <;> rw [ran] at opened
  · exact opened
  · split
    · exact opened
    · split
      · exact opened
      · split <;> exact opened

theorem store_arrive (id : LineIndex) :
    (session.arrive id).2.world.store = session.world.store.assignAll
      (session.registry.completed (session.graph.line id).commands session.world) := by
  have ran := has.store_runAll (session.graph.line id).commands session.world
  rw [← ran]
  unfold arrive
  split <;> rename_i done <;> rw [done]
  rename_i world
  exact store_present { session with world := world, position := .ready id } tests has id

theorem store_choose (index : Nat) :
    (session.choose index).2.world.store =
      match session.offered? index with
      | some offer => session.world.store.assignAll
          (session.registry.completed (session.graph.choice offer.choice).commands session.world)
      | none => session.world.store := by
  unfold choose offered?
  rcases session.pending? with _ | offers
  · rfl
  · dsimp only [Option.bind_some]
    rcases offers[index]? with _ | offer
    · rfl
    · have made := tests.store_select has offer.choice session.world
      dsimp only
      split <;> exact made

/-- Where commands of a line are run, they find the variables as the session left them. -/
theorem store_running {id : LineIndex} {world : World σ}
    (runs : session.running? = some (id, world)) : world.store = session.world.store := by
  unfold running? at runs
  split at runs
  · cases runs
    rfl
  · rename_i left _
    have walked := tests.store_afterLine has left session.world
    split at runs <;> rename_i ran
    · cases runs
      rw [ran] at walked
      exact walked
    · cases runs
  · cases runs

/-- Asking for more does to the variables what those commands of the line do that complete. -/
theorem store_next : session.next.2.world.store =
    match session.running? with
    | some (id, world) => session.world.store.assignAll
        (session.registry.completed (session.graph.line id).commands world)
    | none => session.world.store := by
  unfold next running?
  split <;> rename_i placed <;> simp only [placed]
  · rename_i id
    have walked := tests.store_afterLine has id session.world
    unfold leave
    split <;> rename_i ran <;> rw [ran] at walked <;> simp only [ran]
    · exact walked
    · exact walked
    · rename_i next world
      rw [← walked]
      exact store_arrive { session with world := world, position := .reached next } tests has next
  · exact session.store_arrive tests has _
  · exact session.store_present tests has _

end Operations

/-! ## Which line's commands are run -/

variable {session : Session σ} {id : LineIndex}

theorem line?_present (placed : session.position.line? = some id) :
    (session.present id).2.position.line? = some id := by
  unfold present
  dsimp only
  split
  · exact placed
  · split
    · exact placed
    · split
      · rfl
      · split
        · exact placed
        · rfl

theorem line?_arrive (placed : session.position.line? = some id) :
    (session.arrive id).2.position.line? = some id := by
  unfold arrive
  split
  · exact placed
  · exact line?_present rfl

/-- A session stays at the line whose commands were run, however that went. -/
theorem line?_next_of_running {world : World σ} (runs : session.running? = some (id, world)) :
    session.next.2.position.line? = some id := by
  unfold running? at runs
  split at runs
  · rename_i placed
    cases runs
    simp only [next, placed]
    exact line?_arrive (congrArg Position.line? placed)
  · rename_i placed
    split at runs
    · rename_i ran
      cases runs
      simp only [next, placed, leave, ran]
      exact line?_arrive rfl
    · cases runs
  · cases runs

/-- No commands of a line are run where no line is to be shown. -/
theorem running?_of_rests (rests : session.pending?.isSome = true ∨ session.isActive = false) :
    session.running? = none := by
  unfold running?
  split <;> rename_i placed
  · simp [pending?, isActive, Position.isActive, placed] at rests
  · simp [pending?, isActive, Position.isActive, placed] at rests
  · rfl

/-- Where no condition is an assignment, the variables change by commands alone. -/
theorem changesByCommands (tests : session.graph.TestsOnly)
    (has : session.registry.HasAssignment) : session.ChangesByCommands where
  start := session.store_start tests has
  restart := session.store_restart tests has
  finish := rfl
  arms id arm member := has.store_allHold (tests.arms id arm member)
  choices := tests.store_canChoose has
  running _ _ runs := ⟨session.store_running tests has runs, line?_next_of_running runs⟩
  next := session.store_next tests has
  rests := running?_of_rests
  choose := session.store_choose tests has

end Session

end Parley
