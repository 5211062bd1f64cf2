import Parley.Proofs.Registry.Fault
import Parley.Proofs.Session.Attempts

/-!
# Operations that fail in place

A start, a restart and a choice lead a session to another line.  A session objects to some of
them at once: no such dialogue exists, none has been started, no choice is offered, or none at
the place that is asked for.  Then nothing at all happens.  Any other may fail on its way, in a
call or for want of a line to go to, and by then variables, marks and the state of the host may
have changed.  But a session moves only when it has found the line to go to, so however such an
operation fails, the session stays where it was.
-/

namespace Parley

variable {σ : Type}

/-- The faults of walks: of the calls that are made on the way, and of ways that lead nowhere. -/
inductive Fault.IsOfWalk : Fault → Prop
  | call {fault : Fault} (ofCall : fault.IsOfCall) : IsOfWalk fault
  | noArm : IsOfWalk .noApplicableArm
  | tooLong (count : Nat) : IsOfWalk (.walkTooLong count)

/-- The operations that lead a session to a line. -/
inductive Operation.IsJump : Operation → Prop
  | start (title : String) : IsJump (.start title)
  | restart : IsJump .restart
  | choose (index : Nat) : IsJump (.choose index)

namespace Session

/-- What a session objects to in the title of a dialogue: there is none of that title. -/
def objectionTo? (session : Session σ) (title : String) : Option Fault :=
  match session.graph.entries.get? title with
  | none => some (.unknownDialogue title)
  | some _ => none

/-- What a session objects to in an operation that leads to a line. -/
def objection? (session : Session σ) : Operation → Option Fault
  | .start title => session.objectionTo? title
  | .restart =>
      match session.dialogue with
      | none => some (.session .notStarted)
      | some title => session.objectionTo? title
  | .choose index =>
      match session.pending? with
      | none => some (.session .noChoicePending)
      | some offers =>
          match offers[index]? with
          | none => some (.session (.choiceOutOfRange index offers.length))
          | some _ => none
  | .next | .finish | .set _ _ => none

/-- A session has not moved, although variables, the state of the host and the marks of choices
may have changed. -/
structure Unmoved (before after : Session σ) : Prop where
  same : after = { before with graph := after.graph, world := after.world }
  graph : before.graph.Remembers after.graph

/-- What comes of an operation to which there may be an objection.  If there is, nothing happens.
If there is none, the operation may still fail in a call or on a walk, and then the session has
not moved. -/
structure FailsInPlace {α : Type} (session : Session σ) (objection : Option Fault)
    (result : Except Fault α × Session σ) : Prop where
  objects : ∀ fault, objection = some fault → result = (.error fault, session)
  fails : objection = none → ∀ fault, result.1 = .error fault →
    fault.IsOfWalk ∧ session.Unmoved result.2

end Session

/-! ## How a walk can fail -/

namespace Graph

variable {graph : Graph} {registry : Registry σ} {world : World σ} {fault : Fault}

theorem isOfWalk_of_takenArm {arms : List Arm}
    (failed : (takenArm registry arms world).1 = .error fault) : fault.IsOfWalk := by
  induction arms generalizing world with
  | nil =>
      cases failed
      exact .noArm
  | cons arm rest ih =>
      unfold takenArm at failed
      split at failed
      · rename_i tested
        cases failed
        exact .call (Registry.isOfCall_of_allHold (congrArg Prod.fst tested))
      · cases failed
      · exact ih failed

theorem isOfWalk_of_afterRelay {relay : Line}
    (failed : (graph.afterRelay registry relay world).1 = .error fault) : fault.IsOfWalk := by
  unfold afterRelay at failed
  split at failed
  · exact isOfWalk_of_takenArm failed
  · cases failed

theorem isOfWalk_of_firstSpokenWithin {fuel : Nat} {start : Option LineIndex}
    (failed : (graph.firstSpokenWithin registry fuel start world).1 = .error fault) :
    fault.IsOfWalk := by
  induction fuel generalizing start world with
  | zero =>
      cases failed
      exact .tooLong walkLimit
  | succ fuel ih =>
      cases start with
      | none => cases failed
      | some id =>
          simp only [firstSpokenWithin] at failed
          split at failed
          · split at failed
            · rename_i passed
              cases failed
              exact isOfWalk_of_afterRelay (congrArg Prod.fst passed)
            · exact ih failed
          · cases failed

theorem isOfWalk_of_firstSpoken {start : Option LineIndex}
    (failed : (graph.firstSpoken registry start world).1 = .error fault) : fault.IsOfWalk :=
  isOfWalk_of_firstSpokenWithin failed

theorem isOfWalk_of_follow {branch : Option BranchIndex} {next : Option LineIndex}
    (failed : (graph.follow registry branch next world).1 = .error fault) : fault.IsOfWalk := by
  unfold follow at failed
  split at failed
  · unfold throughBranch at failed
    split at failed
    · rename_i taken
      cases failed
      exact isOfWalk_of_takenArm (congrArg Prod.fst taken)
    · exact isOfWalk_of_firstSpoken failed
  · exact isOfWalk_of_firstSpoken failed

/-- A choice fails in one of its commands or on the way to the line after it. -/
theorem isOfWalk_of_select {id : ChoiceIndex}
    (failed : (graph.select registry id world).outcome = .error fault) : fault.IsOfWalk := by
  simp only [select] at failed
  split at failed
  · rename_i ran
    cases failed
    exact .call (Registry.isOfCall_of_runAll (congrArg Prod.fst ran))
  · exact isOfWalk_of_follow failed

end Graph

/-! ## Sessions that have not moved -/

namespace Session

namespace Unmoved

variable {before after : Session σ}

theorem refl (session : Session σ) : session.Unmoved session where
  same := rfl
  graph := .refl _

theorem position (unmoved : before.Unmoved after) : after.position = before.position := by
  rw [unmoved.same]

theorem dialogue (unmoved : before.Unmoved after) : after.dialogue = before.dialogue := by
  rw [unmoved.same]

theorem pending? (unmoved : before.Unmoved after) : after.pending? = before.pending? := by
  simp only [Session.pending?, unmoved.position]

theorem isActive (unmoved : before.Unmoved after) : after.isActive = before.isActive :=
  congrArg Position.isActive unmoved.position

/-- What a session objects to is a matter of where it is. -/
theorem objection? (unmoved : before.Unmoved after) (operation : Operation) :
    after.objection? operation = before.objection? operation := by
  simp only [Session.objection?, objectionTo?, unmoved.pending?, unmoved.dialogue,
    unmoved.graph.entries]

end Unmoved

/-! ## Starts and choices -/

variable {session : Session σ}

namespace FailsInPlace

variable {α : Type}

theorem of_objection (fault : Fault) :
    session.FailsInPlace (some fault) ((.error fault, session) : Except Fault α × Session σ) where
  objects other same := by
    cases same
    rfl
  fails none := by cases none

theorem of_walk {fault : Fault} {after : Session σ} (ofWalk : fault.IsOfWalk)
    (unmoved : session.Unmoved after) :
    session.FailsInPlace none ((.error fault, after) : Except Fault α × Session σ) where
  objects other some := by cases some
  fails _ other same := by
    cases same
    exact ⟨ofWalk, unmoved⟩

theorem of_ok (value : α) (after : Session σ) : session.FailsInPlace none (.ok value, after) where
  objects other some := by cases some
  fails _ fault failed := by cases failed

/-- What an operation gives where it succeeds does not matter. -/
theorem map {β : Type} {objection : Option Fault} {result : Except Fault α × Session σ}
    (inPlace : session.FailsInPlace objection result) (change : α → β) :
    session.FailsInPlace objection (result.1.map change, result.2) where
  objects fault objects := by
    rw [inPlace.objects fault objects]
    rfl
  fails none fault failed := inPlace.fails none fault (map_eq_error_iff.mp failed)

end FailsInPlace

theorem failsInPlace_start (session : Session σ) (title : String) :
    session.FailsInPlace (session.objectionTo? title) (session.start title) := by
  simp only [start, objectionTo?, Graph.entry]
  rcases session.graph.entries.get? title with _ | entry
  · exact .of_objection _
  · dsimp only
    split
    · rename_i walked
      exact .of_walk (Graph.isOfWalk_of_firstSpoken (congrArg Prod.fst walked)) ⟨rfl, .refl _⟩
    · exact .of_ok () _

theorem failsInPlace_restart (session : Session σ) :
    session.FailsInPlace (session.objection? .restart) session.restart := by
  simp only [objection?, restart]
  rcases session.dialogue with _ | title
  · exact .of_objection _
  · exact session.failsInPlace_start title

theorem failsInPlace_choose (session : Session σ) (index : Nat) :
    session.FailsInPlace (session.objection? (.choose index)) (session.choose index) := by
  simp only [objection?, choose]
  rcases session.pending? with _ | offers
  · exact .of_objection _
  · dsimp only
    rcases offers[index]? with _ | offer
    · exact .of_objection _
    · dsimp only
      split
      · rename_i selected
        exact .of_walk (Graph.isOfWalk_of_select selected)
          ⟨rfl, session.graph.remembers_select session.registry offer.choice session.world⟩
      · exact .of_ok () _

theorem failsInPlace_operate (session : Session σ) {operation : Operation}
    (jump : operation.IsJump) :
    session.FailsInPlace (session.objection? operation) (session.operate operation) := by
  cases jump with
  | start title => exact (session.failsInPlace_start title).map _
  | restart => exact session.failsInPlace_restart.map _
  | choose index => exact (session.failsInPlace_choose index).map _

/-- However a start, a restart or a choice fails, the session stays where it was: in the same
dialogue, at the same position and with the same choices offered.  Whatever is done later is
objected to as before, and it is done from there.  If the session has an objection, that is how
the operation fails, and nothing at all has changed.  Otherwise a call or a walk has failed. -/
theorem failing_jump_stays (session : Session σ) {operation : Operation}
    (jump : operation.IsJump) :
    (∀ fault, session.objection? operation = some fault →
      session.operate operation = (.error fault, session)) ∧
    ∀ fault after, session.operate operation = (.error fault, after) →
      after.position = session.position ∧ after.dialogue = session.dialogue ∧
      after.isActive = session.isActive ∧ after.pending? = session.pending? ∧
      session.graph.Remembers after.graph ∧
      (∀ later, after.objection? later = session.objection? later ∧
        after.operate later =
          operate { session with graph := after.graph, world := after.world } later) ∧
      ((session.objection? operation = some fault ∧ after = session) ∨
        (session.objection? operation = none ∧ fault.IsOfWalk)) := by
  have inPlace := session.failsInPlace_operate jump
  refine ⟨inPlace.objects, fun fault after failed => ?_⟩
  obtain ⟨unmoved, cause⟩ : session.Unmoved after ∧
      ((session.objection? operation = some fault ∧ after = session) ∨
        (session.objection? operation = none ∧ fault.IsOfWalk)) := by
    rcases objection : session.objection? operation with _ | other
    · have walk := inPlace.fails objection fault (congrArg Prod.fst failed)
      rw [failed] at walk
      exact ⟨walk.2, Or.inr ⟨rfl, walk.1⟩⟩
    · cases failed.symm.trans (inPlace.objects other objection)
      exact ⟨.refl session, Or.inl ⟨rfl, rfl⟩⟩
  refine ⟨unmoved.position, unmoved.dialogue, unmoved.isActive, unmoved.pending?, unmoved.graph,
    fun later => ⟨unmoved.objection? later, ?_⟩, cause⟩
  exact congrArg (operate · later) unmoved.same

end Session

/-- A choice whose last command fails has been offered and still is, though its other commands
have run.  A choice that is not offered is objected to, and nothing runs. -/
theorem stays_at_failing_choice :
    let graph := compiledGraph tickingRegistry .empty
      ["- D", "A: root", "> go (Tick(); Break())", "\tA: body"]
    let session := (Session.ofGraph graph tickingRegistry ⟨.empty, 0⟩).afterMoves
      [.operate (.start "D"), .operate .next]
    session.operate (.choose 3) = (.error (.session (.choiceOutOfRange 3 1)), session) ∧
      (session.operate (.choose 0)).1 = .error (.commandFailed "Break" "no") ∧
      (session.operate (.choose 0)).2.world.host = 1 ∧
      (session.operate (.choose 0)).2.pending? = some [⟨0, 0, "go", false⟩] := by
  intro graph session
  have failed : (session.operate (.choose 0)).1 = .error (.commandFailed "Break" "no") := by
    decide +kernel
  have offered : session.pending? = some [⟨0, 0, "go", false⟩] := by decide +kernel
  have objected := (session.failing_jump_stays (.choose 3)).1
  obtain ⟨-, -, -, stays, -⟩ := (session.failing_jump_stays (.choose 0)).2 _ _ (Prod.ext failed rfl)
  exact ⟨objected _ (by decide +kernel), failed, by decide +kernel, stays.trans offered⟩

end Parley
