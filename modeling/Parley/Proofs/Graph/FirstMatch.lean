import Parley.Graph.Follow
import Parley.Proofs.Registry.Fault
import Parley.Proofs.Registry.Recording

/-!
# Which arm is taken

The arms of a branch are tried in order, and the conditions of an arm are tested in order, up to
the first that does not hold.  A test may change the state of the host and so what comes of the
next, and it may fail.  So it matters which conditions are tested, and how often: each of those
that are tested once, and none of the others.
-/

namespace Parley

variable {σ : Type}

/-- Conditions are tested in order.  Either all of them hold, or testing ends with the first that
does not, and what comes of it comes of them all. -/
inductive TestedInOrder : List Call → List (Trial Bool) → Except Fault Bool → Prop
  | all (conditions : List Call) :
      TestedInOrder conditions (conditions.map (⟨·, .ok true⟩)) (.ok true)
  | upTo (earlier : List Call) (condition : Call) (later : List Call) {outcome : Except Fault Bool}
      (ends : outcome ≠ .ok true) :
      TestedInOrder (earlier ++ condition :: later)
        (earlier.map (⟨·, .ok true⟩) ++ [⟨condition, outcome⟩]) outcome

/-- An arm that is tried, with the tests of its conditions. -/
structure ArmTrial where
  arm : Arm
  tests : List (Trial Bool)

namespace ArmTrial

/-- All conditions of the arm are tested until one does not hold, with what comes of them. -/
def ComesTo (trial : ArmTrial) (outcome : Except Fault Bool) : Prop :=
  TestedInOrder trial.arm.conditions trial.tests outcome

/-- The arm is passed over: one of its conditions is false, and those before it hold. -/
def PassedOver (trial : ArmTrial) : Prop :=
  trial.ComesTo (.ok false)

end ArmTrial

/-- What comes of arms that are tried in order: the first is taken whose conditions all hold.  If
a test fails before that, no arm is taken, and none is tried any more. -/
inductive FirstMatch : List Arm → List ArmTrial → Except Fault (Option LineIndex) → Prop
  | taken (passed : List ArmTrial) (skipped : ∀ trial ∈ passed, trial.PassedOver) (last : ArmTrial)
      (holds : last.ComesTo (.ok true)) (later : List Arm) :
      FirstMatch (passed.map ArmTrial.arm ++ last.arm :: later) (passed ++ [last])
        (.ok last.arm.body)
  | failed (passed : List ArmTrial) (skipped : ∀ trial ∈ passed, trial.PassedOver) (last : ArmTrial)
      {fault : Fault} (fails : last.ComesTo (.error fault)) (later : List Arm) :
      FirstMatch (passed.map ArmTrial.arm ++ last.arm :: later) (passed ++ [last]) (.error fault)
  | exhausted (passed : List ArmTrial) (skipped : ∀ trial ∈ passed, trial.PassedOver) :
      FirstMatch (passed.map ArmTrial.arm) passed (.error .noApplicableArm)

/-! ## The conditions of an arm -/

namespace TestedInOrder

/-- A condition that holds before others is tested before them. -/
theorem cons {conditions : List Call} {tests : List (Trial Bool)} {outcome : Except Fault Bool}
    (condition : Call) (tested : TestedInOrder conditions tests outcome) :
    TestedInOrder (condition :: conditions) (⟨condition, .ok true⟩ :: tests) outcome := by
  cases tested with
  | all => exact .all (condition :: conditions)
  | upTo earlier last later ends => exact .upTo (condition :: earlier) last later ends

/-- What fails is the test of one of the conditions. -/
theorem exists_failed {conditions : List Call} {tests : List (Trial Bool)} {fault : Fault}
    (tested : TestedInOrder conditions tests (.error fault)) :
    ∃ test ∈ tests, test.outcome = .error fault := by
  cases tested with
  | upTo earlier condition later ends =>
      exact ⟨⟨condition, .error fault⟩, List.mem_append_right _ (List.mem_singleton_self _), rfl⟩

end TestedInOrder

namespace Registry

variable (registry : Registry σ)

theorem exists_testedInOrder (conditions : List Call) (world : World σ) :
    ∃ tests, TestedInOrder conditions tests (registry.allHold conditions world).1 ∧
      Trace registry.holds world tests (registry.allHold conditions world).2 := by
  induction conditions generalizing world with
  | nil => exact ⟨[], .all [], .nil world⟩
  | cons condition rest ih =>
      unfold allHold
      rcases made : registry.holds condition world with ⟨fault | _ | _, between⟩
      · exact ⟨[⟨condition, .error fault⟩], .upTo [] condition rest (by simp), .cons made (.nil _)⟩
      · exact ⟨[⟨condition, .ok false⟩], .upTo [] condition rest (by simp), .cons made (.nil _)⟩
      · obtain ⟨tests, tested, trace⟩ := ih between
        exact ⟨⟨condition, .ok true⟩ :: tests, tested.cons condition, .cons made trace⟩

variable {registry} {world between after : World σ}

/-- After conditions that hold come the others. -/
theorem allHold_append {earlier : List Call}
    (trace : Trace registry.holds world (earlier.map (⟨·, .ok true⟩)) between)
    (rest : List Call) : registry.allHold (earlier ++ rest) world = registry.allHold rest between := by
  induction earlier generalizing world with
  | nil =>
      rw [Trace.nil_iff.mp trace]
      rfl
  | cons condition earlier ih =>
      obtain ⟨next, made, others⟩ := Trace.cons_iff.mp trace
      simp only [List.cons_append, allHold, made]
      exact ih others

theorem allHold_of_testedInOrder {conditions : List Call} {tests : List (Trial Bool)}
    {outcome : Except Fault Bool} (tested : TestedInOrder conditions tests outcome)
    (trace : Trace registry.holds world tests after) :
    registry.allHold conditions world = (outcome, after) := by
  cases tested with
  | all =>
      have hold := allHold_append trace []
      rwa [List.append_nil] at hold
  | upTo earlier condition later ends =>
      obtain ⟨between, first, last⟩ := Trace.append_iff.mp trace
      obtain ⟨_, made, ended⟩ := Trace.cons_iff.mp last
      rw [Trace.nil_iff.mp ended, allHold_append first, allHold, made]
      rcases outcome with fault | _ | _
      · rfl
      · rfl
      · exact absurd rfl ends

end Registry

/-! ## The arms of a branch -/

/-- An arm that is passed over before others is tried before them. -/
theorem FirstMatch.cons {arms : List Arm} {trials : List ArmTrial}
    {outcome : Except Fault (Option LineIndex)} {trial : ArmTrial} (first : trial.PassedOver)
    (matched : FirstMatch arms trials outcome) :
    FirstMatch (trial.arm :: arms) (trial :: trials) outcome := by
  cases matched with
  | taken passed skipped last holds later =>
      exact .taken (trial :: passed) (List.forall_mem_cons.mpr ⟨first, skipped⟩) last holds later
  | failed passed skipped last fails later =>
      exact .failed (trial :: passed) (List.forall_mem_cons.mpr ⟨first, skipped⟩) last fails later
  | exhausted _ skipped =>
      exact .exhausted (trial :: trials) (List.forall_mem_cons.mpr ⟨first, skipped⟩)

namespace Graph

variable (registry : Registry σ)

theorem exists_firstMatch (arms : List Arm) (world : World σ) :
    ∃ trials, FirstMatch arms trials (takenArm registry arms world).1 ∧
      Trace registry.holds world (trials.flatMap ArmTrial.tests)
        (takenArm registry arms world).2 := by
  induction arms generalizing world with
  | nil => exact ⟨[], .exhausted [] (by simp), .nil world⟩
  | cons arm rest ih =>
      obtain ⟨tests, tested, trace⟩ := registry.exists_testedInOrder arm.conditions world
      have alone : [(⟨arm, tests⟩ : ArmTrial)].flatMap ArmTrial.tests = tests :=
        List.flatMap_singleton _ _
      unfold takenArm
      rcases asked : registry.allHold arm.conditions world with ⟨fault | _ | _, between⟩ <;>
        rw [asked] at tested trace
      · refine ⟨[⟨arm, tests⟩], .failed [] (by simp) ⟨arm, tests⟩ tested rest, ?_⟩
        rw [alone]
        exact trace
      · obtain ⟨others, matched, later⟩ := ih between
        have skipped : (⟨arm, tests⟩ : ArmTrial).PassedOver := tested
        refine ⟨⟨arm, tests⟩ :: others, matched.cons skipped, ?_⟩
        rw [List.flatMap_cons]
        exact Trace.append_iff.mpr ⟨between, trace, later⟩
      · refine ⟨[⟨arm, tests⟩], .taken [] (by simp) ⟨arm, tests⟩ tested rest, ?_⟩
        rw [alone]
        exact trace

variable {registry} {world between after : World σ}

/-- After arms that are passed over come the others. -/
theorem takenArm_append {passed : List ArmTrial} (skipped : ∀ trial ∈ passed, trial.PassedOver)
    (trace : Trace registry.holds world (passed.flatMap ArmTrial.tests) between)
    (rest : List Arm) :
    takenArm registry (passed.map ArmTrial.arm ++ rest) world = takenArm registry rest between := by
  induction passed generalizing world with
  | nil =>
      rw [Trace.nil_iff.mp trace]
      rfl
  | cons trial passed ih =>
      obtain ⟨first, skipped⟩ := List.forall_mem_cons.mp skipped
      obtain ⟨next, tested, others⟩ := Trace.append_iff.mp trace
      simp only [List.map_cons, List.cons_append, takenArm,
        Registry.allHold_of_testedInOrder first tested]
      exact ih skipped others

/-- After them comes the last arm that is tried. -/
theorem takenArm_append_last {passed : List ArmTrial} {last : ArmTrial}
    {outcome : Except Fault Bool} (skipped : ∀ trial ∈ passed, trial.PassedOver)
    (comes : last.ComesTo outcome)
    (trace : Trace registry.holds world ((passed ++ [last]).flatMap ArmTrial.tests) after)
    (later : List Arm) (ends : outcome ≠ .ok false) :
    takenArm registry (passed.map ArmTrial.arm ++ last.arm :: later) world =
      (outcome.map fun _ => last.arm.body, after) := by
  rw [List.flatMap_append, List.flatMap_singleton] at trace
  obtain ⟨between, first, tested⟩ := Trace.append_iff.mp trace
  rw [takenArm_append skipped first, takenArm, Registry.allHold_of_testedInOrder comes tested]
  rcases outcome with fault | _ | _
  · rfl
  · exact absurd rfl ends
  · rfl

theorem takenArm_of_firstMatch {arms : List Arm} {trials : List ArmTrial}
    {outcome : Except Fault (Option LineIndex)} (matched : FirstMatch arms trials outcome)
    (trace : Trace registry.holds world (trials.flatMap ArmTrial.tests) after) :
    takenArm registry arms world = (outcome, after) := by
  cases matched with
  | taken passed skipped last holds later =>
      exact takenArm_append_last skipped holds trace later (by simp)
  | failed passed skipped last fails later =>
      exact takenArm_append_last skipped fails trace later (by simp)
  | exhausted _ skipped =>
      have tried := takenArm_append skipped trace []
      rwa [List.append_nil] at tried

/-- There is no arm to take exactly if every arm is passed over. -/
theorem firstMatch_noApplicableArm_iff {arms : List Arm} {trials : List ArmTrial}
    {outcome : Except Fault (Option LineIndex)} (matched : FirstMatch arms trials outcome)
    (trace : Trace registry.holds world (trials.flatMap ArmTrial.tests) after) :
    outcome = .error .noApplicableArm ↔
      trials.map ArmTrial.arm = arms ∧ ∀ trial ∈ trials, trial.PassedOver := by
  constructor
  · rintro rfl
    cases matched with
    | failed passed skipped last fails later =>
        -- The test that fails is of a call, and no call fails for want of an arm.
        obtain ⟨test, member, failed⟩ := fails.exists_failed
        have made : test ∈ (passed ++ [last]).flatMap ArmTrial.tests :=
          List.mem_flatMap.mpr ⟨last, by simp, member⟩
        obtain ⟨before, came⟩ := trace.exists_made test made
        exact absurd rfl (Registry.isOfCall_of_holds (came.trans failed)).ne_noApplicableArm
    | exhausted _ skipped => exact ⟨rfl, skipped⟩
  · rintro ⟨rfl, skipped⟩
    have all := takenArm_of_firstMatch (.exhausted trials skipped) trace
    rw [takenArm_of_firstMatch matched trace] at all
    exact congrArg Prod.fst all

/-- Whatever the arms of a branch and their conditions are: the first arm is taken all of whose
conditions hold, and there is none to take exactly if each has a condition that is false.  For
that the arms are tried in order, each one up to its first condition that does not hold, and a
test that fails ends it all.  A host sees these tests in this order, each of them once, and
nothing else. -/
theorem takenArm_firstMatch (graph : Graph) (registry : Registry σ) (id : BranchIndex)
    (world : World σ) :
    let arms := (graph.branch id).arms
    let (outcome, after) := takenArm registry arms world
    ∃ trials : List ArmTrial, FirstMatch arms trials outcome ∧
      Trace registry.holds world (trials.flatMap ArmTrial.tests) after ∧
      (outcome = .error .noApplicableArm ↔
        trials.map ArmTrial.arm = arms ∧ ∀ trial ∈ trials, trial.PassedOver) ∧
      ∀ record, takenArm registry.recording arms (world.recording record) =
        (outcome, after.recording (record ++
          registry.invocations ((trials.flatMap ArmTrial.tests).map Trial.call) world.store)) := by
  intro arms
  obtain ⟨trials, matched, trace⟩ := exists_firstMatch registry arms world
  refine ⟨trials, matched, trace, firstMatch_noApplicableArm_iff matched trace, fun record => ?_⟩
  have recorded := trace.recording registry.store_holds registry.holds_recording record
  exact takenArm_of_firstMatch matched recorded

end Graph

/-- Commands of a host with a door that opens at every other knock. -/
def doorRegistry : Registry Nat :=
  Registry.builtin.register "Knock" [] (some .boolean)
    fun _ knocks => (.ok (some (.boolean (knocks % 2 == 1))), knocks + 1)

/-- The second of three arms is passed over at its second knock, and its third is not made. -/
theorem firstMatch_of_door :
    let knock : Call := ⟨"Knock", []⟩
    let arms : List Arm := [⟨[knock], some 0⟩, ⟨[knock, knock, knock], some 1⟩, ⟨[], some 2⟩]
    ∃ trials, FirstMatch arms trials (.ok (some 2)) ∧
      doorRegistry.invocations ((trials.flatMap ArmTrial.tests).map Trial.call) .empty =
        [⟨"Knock", []⟩, ⟨"Knock", []⟩, ⟨"Knock", []⟩] := by
  intro knock arms
  let graph : Graph := { Graph.empty with branches := #[⟨arms⟩] }
  let world : World Nat := ⟨.empty, 0⟩
  obtain ⟨trials, matched, -, -, records⟩ := graph.takenArm_firstMatch doorRegistry 0 world
  have taken : (Graph.takenArm doorRegistry arms world).1 = .ok (some 2) := by decide +kernel
  have noted : (Graph.takenArm doorRegistry.recording arms (world.recording [])).2.host.record =
      [⟨"Knock", []⟩, ⟨"Knock", []⟩, ⟨"Knock", []⟩] := by decide +kernel
  refine ⟨trials, taken ▸ matched, ?_⟩
  rw [← noted]
  exact (congrArg (fun run => run.2.host.record) (records [])).symm

end Parley
