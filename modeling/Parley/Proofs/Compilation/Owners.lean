import Parley.Proofs.Compilation.Sound
import Parley.Proofs.Draft.Owners

/-!
# No branch is lost

Each first arm opens one branch and attaches it to a line or a choice.  The branch is lost
exactly if a later first arm attaches its own to the same owner.  What has just been read
has no branch yet, so that takes an arm right behind a statement that is not remembered: a
line with return markers or a terminal option.
-/

namespace Parley

open Parley.Script

/-- Every branch belongs to one line or choice, and every first arm finds an owner that has
no branch yet. -/
structure KeepsBranches (scope : Scope) (statements : List Statement) (graph : Graph) :
    Prop where
  owned : ∀ id < graph.branches.size, graph.OwnedOnce id
  free : ∀ place, constructAt statements place = some .ifArm →
    ∃ owner, ownerAt scope statements place = some owner ∧
      (draftAfter scope statements place).graph.branchOf owner = none

variable {σ : Type} {registry : Registry σ} {store : Store} {script : List String} {graph : Graph}

/-- No branch of a compiled script is lost exactly if no two first arms share an owner.  Each
branch that is opened by a first arm is lost to a later arm with the same owner and to nothing
else, and such an arm stands right behind a line with return markers or a terminal option. -/
theorem keepsBranches_iff_of_compile
    (compiled : (compile registry store script).graph = .ok graph) :
    let scope := scopeOf registry store script
    let statements := statementsOf script
    (KeepsBranches scope statements graph ↔
      ∀ earlier later, earlier < later → ¬ SharesOwner scope statements earlier later) ∧
    (∀ id < graph.branches.size, ∃ place, constructAt statements place = some .ifArm ∧
      branchOpenedAt scope statements place = id ∧
      (graph.OwnedOnce id ↔
        ∀ later, place < later → ¬ SharesOwner scope statements place later)) ∧
    ∀ earlier later, earlier < later → SharesOwner scope statements earlier later →
      ∃ place, later = place + 1 ∧ IsUnremembered statements place := by
  intro scope statements
  obtain ⟨final, read, rfl⟩ := exists_draft_of_compile compiled
  have opened : ∀ id < final.closeDialogue.graph.branches.size,
      ∃ place, constructAt statements place = some .ifArm ∧
        branchOpenedAt scope statements place = id ∧
        (final.closeDialogue.graph.OwnedOnce id ↔
          ∀ later, place < later → ¬ SharesOwner scope statements place later) := by
    intro id known
    obtain ⟨place, first, rfl⟩ := exists_branchOpenedAt read known
    exact ⟨place, first, rfl, ownedOnce_branchOpenedAt_iff read first⟩
  refine ⟨?_, opened, fun earlier later before shares => shares.unremembered read before⟩
  constructor
  · rintro keeps earlier later before ⟨owner, owned, taken⟩
    obtain ⟨other, same, free⟩ := keeps.free later (constructAt_of_ownerAt taken)
    rw [taken] at same
    cases same
    obtain ⟨statement, found, -⟩ := Option.bind_eq_some_iff.mp taken
    have within := Nat.le_of_lt (List.getElem?_eq_some_iff.mp found).1
    exact (branchOf_draftAfter_eq_none_iff read within owner).mp free earlier before owned
  · intro apart
    constructor
    · intro id known
      obtain ⟨place, -, -, owned_iff⟩ := opened id known
      exact owned_iff.mpr fun later after => apart place later after
    · intro place first
      obtain ⟨owner, owned⟩ := exists_ownerAt read first
      obtain ⟨statement, found, -⟩ := Option.bind_eq_some_iff.mp owned
      have within := Nat.le_of_lt (List.getElem?_eq_some_iff.mp found).1
      refine ⟨owner, owned, (branchOf_draftAfter_eq_none_iff read within owner).mpr ?_⟩
      exact fun earlier before taken => apart earlier place before ⟨owner, taken, owned⟩

/-- A branch in the body of an option, behind a line that waits. -/
def branchAfterLine : List String :=
  ["- D", "A: root", "> opt", "\tA: x", "\t(if 1 == 1)", "\t\tA: y <-", "\tA: z",
    "\t(if 1 == 2)", "\t\tA: w"]

/-- Two branches behind different lines are both kept. -/
theorem keepsBranches_of_branch_after_line :
    KeepsBranches (scopeOf hostless .empty branchAfterLine) (statementsOf branchAfterLine)
      (compiledGraph hostless .empty branchAfterLine) := by
  have compiled : (compile hostless .empty branchAfterLine).graph =
      .ok (compiledGraph hostless .empty branchAfterLine) := by
    apply compile_eq_ok_compiledGraph
    decide +kernel
  obtain ⟨keeps_iff, -, unremembered⟩ := keepsBranches_iff_of_compile compiled
  apply keeps_iff.mpr
  intro earlier later before shares
  obtain ⟨place, rfl, forgotten⟩ := unremembered earlier later before shares
  -- The later of the two arms has a plain line before it, and the earlier one too.
  have arm : constructAt (statementsOf branchAfterLine) (place + 1) = some .ifArm := by
    obtain ⟨owner, -, taken⟩ := shares
    exact constructAt_of_ownerAt taken
  have spoken : ∀ index < 9, constructAt (statementsOf branchAfterLine) (index + 1) =
      some .ifArm → index = 3 ∨ index = 6 := by
    decide +kernel
  have within : place < 9 := by
    obtain ⟨statement, found, -⟩ := Option.map_eq_some_iff.mp arm
    have length : (statementsOf branchAfterLine).length = 9 := by decide +kernel
    have known := (List.getElem?_eq_some_iff.mp found).1
    omega
  have plain : IsPlain (statementsOf branchAfterLine) 3 ∧
      IsPlain (statementsOf branchAfterLine) 6 := by
    constructor
    · exact ⟨⟨4, 1, "A: x".toList, .speech⟩, ⟨"A", "x", "neutral", none, 0⟩,
        by decide +kernel, rfl, by decide +kernel, rfl⟩
    · exact ⟨⟨7, 1, "A: z".toList, .speech⟩, ⟨"A", "z", "neutral", none, 0⟩,
        by decide +kernel, rfl, by decide +kernel, rfl⟩
  rcases spoken place within arm with rfl | rfl
  · rcases forgotten with ⟨-, marked⟩ | option
    · exact marked plain.1
    · exact absurd (option.constructAt_eq.symm.trans plain.1.constructAt_eq) (by simp)
  · rcases forgotten with ⟨-, marked⟩ | option
    · exact marked plain.2
    · exact absurd (option.constructAt_eq.symm.trans plain.2.constructAt_eq) (by simp)

/-- A branch whose only arm ends with a return marker, and another branch right behind it. -/
def branchAfterMarker : List String :=
  ["- D", "A: root", "> opt", "\tA: x", "\t(if 1 == 1)", "\t\tA: y <-", "\t(if 1 == 2)",
    "\t\tA: z"]

/-- The line that was marked is not remembered, so the second branch takes the owner of the first
and no line or choice has the first branch any more. -/
theorem not_keepsBranches_of_branch_after_marker :
    let scope := scopeOf hostless .empty branchAfterMarker
    let statements := statementsOf branchAfterMarker
    let graph := compiledGraph hostless .empty branchAfterMarker
    (compile hostless .empty branchAfterMarker).graph = .ok graph ∧
      graph.branches.size = 2 ∧ (∀ owner, graph.branchOf owner ≠ some 0) ∧
      ¬ KeepsBranches scope statements graph := by
  intro scope statements graph
  have compiled : (compile hostless .empty branchAfterMarker).graph = .ok graph := by
    apply compile_eq_ok_compiledGraph
    decide +kernel
  have size : graph.branches.size = 2 := by decide +kernel
  have noLine : ∀ line ∈ graph.lines.toList, line.branch ≠ some 0 := by decide +kernel
  have noChoice : ∀ choice ∈ graph.choices.toList, choice.branch ≠ some 0 := by decide +kernel
  have lost : ∀ owner, graph.branchOf owner ≠ some 0 := by
    rintro (id | id) owned
    · by_cases known : id < graph.lines.size
      · apply noLine (graph.line id) _ owned
        simp [Graph.line, Array.getD, known]
      · rw [Graph.branchOf, Graph.line_eq_relay _ (Nat.le_of_not_lt known)] at owned
        cases owned
    · by_cases known : id < graph.choices.size
      · apply noChoice (graph.choice id) _ owned
        simp [Graph.choice, Array.getD, known]
      · rw [Graph.branchOf, Graph.choice_eq_fresh _ (Nat.le_of_not_lt known)] at owned
        cases owned
  refine ⟨compiled, size, lost, fun keeps => ?_⟩
  obtain ⟨owner, owned, -⟩ := keeps.owned 0 (size ▸ Nat.zero_lt_two)
  exact lost owner owned

end Parley
