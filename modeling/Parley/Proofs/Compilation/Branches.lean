import Parley.Proofs.Compilation.Sound
import Parley.Proofs.Registry.Fault
import Parley.Proofs.Session.Safe

/-!
# Branches of compiled graphs

Every branch of a compiled graph ends with an arm that asks for nothing, and no
other arm asks for nothing.  So wherever the graph is played, with whatever
commands and variables, a branch that is reached has an arm to take.  The commands
and variables of the player need not be those that the script was compiled with.
-/

namespace Parley

/-- The last arm of a branch asks for nothing, and every arm before it asks for
something. -/
def Branch.EndsWithDefault (branch : Branch) : Prop :=
  ∃ earlier last, branch.arms = earlier ++ [last] ∧ last.conditions = [] ∧
    ∀ arm ∈ earlier, arm.conditions ≠ []

/-- Whatever is done with a graph, it never fails for want of an arm that
applies. -/
structure Graph.AlwaysApplies (graph : Graph) : Prop where
  throughBranch : ∀ {τ : Type} (registry : Registry τ) (world : World τ),
    ∀ id < graph.branches.size,
      (graph.throughBranch registry id world).1 ≠ .error .noApplicableArm
  afterLine : ∀ {τ : Type} (registry : Registry τ) (world : World τ) id,
    (graph.afterLine registry id world).1 ≠ .error .noApplicableArm
  firstSpoken : ∀ {τ : Type} (registry : Registry τ) (world : World τ) place,
    (graph.firstSpoken registry place world).1 ≠ .error .noApplicableArm
  select : ∀ {τ : Type} (registry : Registry τ) (world : World τ) id,
    (graph.select registry id world).outcome ≠ .error .noApplicableArm
  session : ∀ {τ : Type} (registry : Registry τ) (world : World τ) operations operation,
    (((Session.ofGraph graph registry world).after operations).operate operation).1 ≠
      .error .noApplicableArm

variable {σ τ : Type} {registry : Registry σ} {store : Store} {script : List String} {graph : Graph}

/-- A branch that ends with a default arm always has an arm to take. -/
theorem Branch.EndsWithDefault.safe {branch : Branch} (complete : branch.EndsWithDefault)
    (commands : Registry τ) :
    branch.Safe commands (fun _ => True) (fun fault => fault ≠ .noApplicableArm) where
  conditions _ _ _ _ _ _ := ⟨True.intro, fun _ failed =>
    (Registry.isOfCall_of_holds failed).ne_noApplicableArm⟩
  exhaustive := by
    obtain ⟨earlier, last, armsEq, unconditional, _⟩ := complete
    exact ⟨last, armsEq ▸ List.mem_append_right _ (List.mem_singleton_self last), unconditional⟩

/-- A graph whose branches end with default arms is safe, whoever plays it. -/
theorem Graph.safe_of_endsWithDefault (sound : graph.Sound (scopeOf registry store script))
    (complete : ∀ id < graph.branches.size, (graph.branch id).EndsWithDefault)
    (commands : Registry τ) :
    graph.Safe commands (fun _ => True) (fun fault => fault ≠ .noApplicableArm) where
  commands _ _ _ _ _ := ⟨True.intro, fun _ failed =>
    (Registry.isOfCall_of_call failed).ne_noApplicableArm⟩
  branch id branch linked := (complete branch ((sound.lines id).branch branch linked)).safe commands
  choiceCommands _ _ _ _ _ := ⟨True.intro, fun _ failed =>
    (Registry.isOfCall_of_call failed).ne_noApplicableArm⟩
  choiceConditions _ _ _ _ _ := ⟨True.intro, fun _ failed =>
    (Registry.isOfCall_of_holds failed).ne_noApplicableArm⟩
  choiceBranch id branch linked :=
    (complete branch ((sound.choices id).branch branch linked)).safe commands
  walks := by simp

/-- What is to blame for a fault is never a branch without an arm to take. -/
theorem Session.Blames.ne_noApplicableArm {session : Session τ} {fault : Fault}
    (blamed : session.Blames (fun fault => fault ≠ .noApplicableArm) fault) :
    fault ≠ .noApplicableArm := by
  rintro rfl
  cases blamed with
  | allowed fine => exact fine rfl

/-- A run of a session of a safe graph leads to safe sessions. -/
theorem Session.safe_after {commands : Registry τ} {allowed : Fault → Prop}
    (safe : graph.Safe commands (fun _ => True) allowed) (world : World τ)
    (operations : List Operation) :
    ((Session.ofGraph graph commands world).after operations).Safe (fun _ => True) allowed := by
  have meets : RunMeets (fun _ _ => True) (Session.ofGraph graph commands world) operations :=
    runMeets_of_forall (fun _ _ => True.intro) _ operations
  have step : ∀ (session : Session τ) operation, session.Safe (fun _ => True) allowed → True →
      (session.operate operation).2.Safe (fun _ => True) allowed :=
    fun _ operation held _ => (held.operate operation (fun _ _ _ => True.intro)).session
  exact after_induction step meets ⟨safe, True.intro⟩

/-- A graph whose branches end with default arms and that is safe, whoever plays it,
always has an arm to take. -/
theorem Graph.alwaysApplies (complete : ∀ id < graph.branches.size,
      (graph.branch id).EndsWithDefault)
    (safe : ∀ {τ : Type} (commands : Registry τ), graph.Safe commands (fun _ => True)
      (fun fault => fault ≠ .noApplicableArm)) : graph.AlwaysApplies where
  throughBranch commands world id known failed := by
    have held : (fun _ : World _ => True) world := True.intro
    have branchSafe := (complete id known).safe commands
    exact ((safe commands).throughBranch branchSafe held).fault _ failed rfl
  afterLine commands world id failed := by
    have held : (fun _ : World _ => True) world := True.intro
    exact ((safe commands).afterLine id held).fault _ failed rfl
  firstSpoken commands world place failed := by
    have held : (fun _ : World _ => True) world := True.intro
    exact ((safe commands).firstSpoken place held).fault _ failed rfl
  select commands world id failed := by
    have held : (fun _ : World _ => True) world := True.intro
    exact ((safe commands).select id held).1.fault _ failed rfl
  session commands world operations operation := by
    intro failed
    have reached := Session.safe_after (safe commands) world operations
    exact (reached.blames_of_operate failed).ne_noApplicableArm rfl

/-- Remembering choices changes neither the branches nor what is safe. -/
theorem Graph.Safe.foldl_markSelected {commands : Registry τ} {kept : World τ → Prop}
    {allowed : Fault → Prop} (safe : graph.Safe commands kept allowed)
    (chosen : List ChoiceIndex) :
    (chosen.foldl Graph.markSelected graph).Safe commands kept allowed ∧
      (chosen.foldl Graph.markSelected graph).branches = graph.branches := by
  induction chosen generalizing graph with
  | nil => exact ⟨safe, rfl⟩
  | cons id rest ih =>
      obtain ⟨restSafe, same⟩ := ih (safe.markSelected id)
      exact ⟨restSafe, same.trans (graph.branches_modifyChoice id _)⟩

/-- Every branch of a compiled graph ends with its only default arm.  So nothing
that is done with the graph fails for want of an arm that applies, whatever choices
were made in it before. -/
theorem branches_of_compile (compiled : (compile registry store script).graph = .ok graph) :
    (∀ id < graph.branches.size, (graph.branch id).EndsWithDefault) ∧
      ∀ chosen : List ChoiceIndex, (chosen.foldl Graph.markSelected graph).AlwaysApplies := by
  have complete : ∀ id < graph.branches.size, (graph.branch id).EndsWithDefault :=
    fun _ known => exists_default_of_compile compiled known
  have safe : ∀ {τ : Type} (commands : Registry τ), graph.Safe commands (fun _ => True)
      (fun fault => fault ≠ .noApplicableArm) :=
    fun commands => Graph.safe_of_endsWithDefault (sound_of_compile compiled) complete commands
  constructor
  · exact complete
  · intro chosen
    have same := ((safe registry).foldl_markSelected chosen).2
    apply Graph.alwaysApplies
    · intro id known
      rw [same] at known
      rw [Graph.branch_congr same]
      exact complete id known
    · intro τ commands
      exact ((safe commands).foldl_markSelected chosen).1

/-- A branch without an `(else)`. -/
def loneIf : List String :=
  ["- Door", "(if $open == true)", "\tGuard: Come in.", "Guard: Good night."]

/-- A branch without an `(else)` gets its default arm when it is closed. -/
theorem branches_of_compile_loneIf :
    let graph := compiledGraph hostless (NameMap.ofList [("open", .boolean false)]) loneIf
    graph.branches.size = 1 ∧
      (∀ id < graph.branches.size, (graph.branch id).EndsWithDefault) ∧
      ∀ chosen : List ChoiceIndex, (chosen.foldl Graph.markSelected graph).AlwaysApplies := by
  intro graph
  have compiled : (compile hostless (NameMap.ofList [("open", .boolean false)]) loneIf).graph =
      .ok graph := by
    apply compile_eq_ok_compiledGraph
    decide +kernel
  exact ⟨by decide +kernel, branches_of_compile compiled⟩

end Parley
