import Parley.Proofs.Compilation.Sound
import Parley.Proofs.Draft.ArmBodies
import Parley.Proofs.Session.Operation

/-!
# Which arms have a body

An arm has a body exactly if a line one level deeper stands right after it.  Something shallower
may stand there as well: it closes the branch and leaves the arm without a body, and where the arm
is taken the dialogue is over.
-/

namespace Parley

open Parley.Script

variable {σ : Type} {registry : Registry σ} {store : Store} {script : List String} {graph : Graph}

/-- Every arm after which its dialogue goes on has a body. -/
def FillsArms (scope : Scope) (statements : List Statement) (graph : Graph) : Prop :=
  ∀ place, IsArm statements place → GoesOn statements place →
    ∃ arm, graph.armAt? scope statements place = some arm ∧ arm.body ≠ none

/-- Every arm that is not the last thing in its dialogue has a body exactly if none of them is
followed by something shallower.  Each arm of the script is an arm of the graph with the same
conditions, and has a body exactly if that begins right after it. -/
theorem fillsArms_iff_of_compile (compiled : (compile registry store script).graph = .ok graph) :
    let scope := scopeOf registry store script
    let statements := statementsOf script
    (FillsArms scope statements graph ↔
      ∀ place, IsArm statements place → GoesOn statements place →
        indentAt statements place ≤ indentAt statements (place + 1)) ∧
    ∀ place, IsArm statements place →
      ∃ arm, graph.armAt? scope statements place = some arm ∧
        guardAt scope statements place = .ok arm.conditions ∧
        (arm.body ≠ none ↔ ArmBodyBegins statements place) := by
  intro scope statements
  obtain ⟨final, read, rfl⟩ := exists_draft_of_compile compiled
  refine ⟨?_, fun place isArm => isArm.exists_arm read⟩
  constructor
  · intro fills place isArm goesOn
    obtain ⟨arm, there, bodied⟩ := fills place isArm goesOn
    obtain ⟨same, thereToo, -, bodied_iff⟩ := isArm.exists_arm read
    rw [there] at thereToo
    cases thereToo
    exact (armBodyBegins_iff read isArm goesOn).mp (bodied_iff.mp bodied)
  · intro notShallower place isArm goesOn
    obtain ⟨arm, there, -, bodied_iff⟩ := isArm.exists_arm read
    have begins := (armBodyBegins_iff read isArm goesOn).mpr (notShallower place isArm goesOn)
    exact ⟨arm, there, bodied_iff.mpr begins⟩

/-- A branch whose last arm is the last thing in the script. -/
def bareLastArm : List String :=
  ["- D", "A: root", "(if 1 == 1)", "\tA: x", "(else if 1 == 2)", "\tA: y", "(else)"]

/-- The arms before the last one have bodies. -/
theorem fillsArms_of_bare_last_arm :
    FillsArms (scopeOf hostless .empty bareLastArm) (statementsOf bareLastArm)
      (compiledGraph hostless .empty bareLastArm) := by
  have compiled : (compile hostless .empty bareLastArm).graph =
      .ok (compiledGraph hostless .empty bareLastArm) := by
    apply compile_eq_ok_compiledGraph
    decide +kernel
  obtain ⟨fills_iff, -⟩ := fillsArms_iff_of_compile compiled
  apply fills_iff.mpr
  rintro place isArm ⟨construct, there, -⟩
  have within : place < 6 := by
    obtain ⟨statement, found, -⟩ := Option.map_eq_some_iff.mp there
    have length : (statementsOf bareLastArm).length = 7 := by decide +kernel
    have known := (List.getElem?_eq_some_iff.mp found).1
    omega
  have deeper : ∀ place < 6, IsArm (statementsOf bareLastArm) place →
      indentAt (statementsOf bareLastArm) place ≤
        indentAt (statementsOf bareLastArm) (place + 1) := by
    decide +kernel
  exact deeper place within isArm

/-- A branch in an arm that has nothing but its first arm. -/
def bareInnerArm : List String :=
  ["- D", "A: root", "(if 1 == 1)", "\tA: x", "\t(if 1 == 1)", "(else)", "\tA: y"]

/-- The inner arm is left without a body by the `(else)` of the outer branch, and taking it ends
the dialogue. -/
theorem not_fillsArms_of_bare_inner_arm :
    let scope := scopeOf hostless .empty bareInnerArm
    let statements := statementsOf bareInnerArm
    let graph := compiledGraph hostless .empty bareInnerArm
    (compile hostless .empty bareInnerArm).graph = .ok graph ∧
      IsArm statements 4 ∧ constructAt statements 5 = some .elseArm ∧
      (graph.armAt? scope statements 4).map Arm.body = some none ∧
      ¬ FillsArms scope statements graph ∧
      (((Session.ofGraph graph hostless ⟨.empty, ()⟩).after
        [.start "D", .next, .next]).operate .next).1 = .ok (some .finished) := by
  intro scope statements graph
  have compiled : (compile hostless .empty bareInnerArm).graph = .ok graph := by
    apply compile_eq_ok_compiledGraph
    decide +kernel
  have isArm : IsArm statements 4 := by decide +kernel
  have follows : constructAt statements 5 = some .elseArm := by decide +kernel
  have bare : (graph.armAt? scope statements 4).map Arm.body = some none := by decide +kernel
  have unfilled : ¬ FillsArms scope statements graph := by
    intro fills
    obtain ⟨arm, there, bodied⟩ := fills 4 isArm ⟨.elseArm, follows, by decide⟩
    rw [there] at bare
    exact bodied (Option.some.inj bare)
  exact ⟨compiled, isArm, follows, bare, unfilled, by decide +kernel⟩

end Parley
