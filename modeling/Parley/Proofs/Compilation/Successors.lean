import Parley.Proofs.Compilation.Sound
import Parley.Proofs.Draft.Reading

/-!
# Successors of spoken lines

The successor of a plain line is the spoken line that takes it up from the stacks of
open nodes.  That line comes later in the same dialogue, but it need not respect the
blocks of the script: the second line of an arm takes up lines of the arm before it.
A successor stays out of other arms and bodies exactly if no statement that stands in
between is shallower than the line which takes the plain line up.
-/

namespace Parley

open Parley.Script

/-- No statement between two places is shallower than the later one. -/
def NoneShallower (statements : List Statement) (earlier later : Nat) : Prop :=
  ∀ between, earlier < between → between < later →
    indentAt statements later ≤ indentAt statements between

/-- Where a line leads to another spoken line, that line comes later in the dialogue
and is not inside an arm or a body that begins in between. -/
def RespectsBlocks (scope : Scope) (statements : List Statement) (graph : Graph)
    (place : Nat) : Prop :=
  ∀ later, constructAt statements later = some .speech →
    (graph.line (lineAt scope statements place)).next = some (lineAt scope statements later) →
      place < later ∧ SameDialogue statements place later ∧
        NoneShallower statements place later

variable {σ : Type} {registry : Registry σ} {store : Store} {script : List String} {graph : Graph}

/-- A plain line is taken up by a later line of its dialogue. -/
theorem takesUp_within_of_compile
    (compiled : (compile registry store script).graph = .ok graph) {place later : Nat}
    (plain : IsPlain (statementsOf script) place)
    (takes : TakesUp (scopeOf registry store script) (statementsOf script) place later) :
    constructAt (statementsOf script) later = some .speech ∧ place < later ∧
      SameDialogue (statementsOf script) place later := by
  obtain ⟨final, read, _⟩ := exists_draft_of_compile compiled
  obtain ⟨spoken, after⟩ := takes.spoken_later read plain.constructAt_eq
  exact ⟨spoken, after, takes.sameDialogue read plain⟩

/-- A plain line leads to the line that takes it up, and nowhere if none does. -/
theorem next_eq_some_iff_of_compile
    (compiled : (compile registry store script).graph = .ok graph) {place : Nat}
    (plain : IsPlain (statementsOf script) place) {target : LineIndex} :
    (graph.line (lineAt (scopeOf registry store script) (statementsOf script) place)).next =
        some target ↔
      ∃ later, TakesUp (scopeOf registry store script) (statementsOf script) place later ∧
        lineAt (scopeOf registry store script) (statementsOf script) later = target := by
  obtain ⟨final, read, rfl⟩ := exists_draft_of_compile compiled
  exact next_lineAt_eq_some_iff read plain

/-- A plain line of a compiled script leads to the later line of its dialogue that takes
it up, and nowhere if none does.  It respects the blocks of the script exactly if the
line that takes it up is no deeper than the statements in between. -/
theorem respectsBlocks_iff_of_compile
    (compiled : (compile registry store script).graph = .ok graph) {place : Nat}
    (plain : IsPlain (statementsOf script) place) :
    let scope := scopeOf registry store script
    let statements := statementsOf script
    (∀ later, TakesUp scope statements place later →
      constructAt statements later = some .speech ∧ place < later ∧
        SameDialogue statements place later) ∧
    (∀ target, (graph.line (lineAt scope statements place)).next = some target ↔
      ∃ later, TakesUp scope statements place later ∧ lineAt scope statements later = target) ∧
    (RespectsBlocks scope statements graph place ↔
      ∀ later, TakesUp scope statements place later → NoneShallower statements place later) := by
  intro scope statements
  have within : ∀ later, TakesUp scope statements place later →
      constructAt statements later = some .speech ∧ place < later ∧
        SameDialogue statements place later :=
    fun later takes => takesUp_within_of_compile compiled plain takes
  have leads_iff : ∀ target, (graph.line (lineAt scope statements place)).next = some target ↔
      ∃ later, TakesUp scope statements place later ∧ lineAt scope statements later = target :=
    fun target => next_eq_some_iff_of_compile compiled plain
  have respects_iff : RespectsBlocks scope statements graph place ↔
      ∀ later, TakesUp scope statements place later → NoneShallower statements place later := by
    constructor
    · intro respects later takes
      have leads := (leads_iff _).mpr ⟨later, takes, rfl⟩
      exact (respects later (within later takes).1 leads).2.2
    · intro respects later spoken leads
      obtain ⟨final, read, _⟩ := exists_draft_of_compile compiled
      obtain ⟨other, takes, same⟩ := (leads_iff _).mp leads
      obtain ⟨spokenOther, after, sameDialogue⟩ := within other takes
      have equal := lineAt_injective read spokenOther spoken same
      subst equal
      exact ⟨after, sameDialogue, respects other takes⟩
  exact ⟨within, leads_iff, respects_iff⟩

/-- A branch whose second arm has two lines. -/
def twoArms : List String :=
  ["- D", "A: start", "(if $x == 1)", "\tA: one", "(else)", "\tA: two", "\tA: three", "A: end"]

/-- The last line of the second arm leads out of the branch. -/
theorem respectsBlocks_of_last_arm :
    let store : Store := NameMap.ofList [("x", .integer 1)]
    RespectsBlocks (scopeOf hostless store twoArms) (statementsOf twoArms)
      (compiledGraph hostless store twoArms) 6 := by
  intro store
  have compiled : (compile hostless store twoArms).graph =
      .ok (compiledGraph hostless store twoArms) := by
    apply compile_eq_ok_compiledGraph
    decide +kernel
  have plain : IsPlain (statementsOf twoArms) 6 :=
    ⟨⟨7, 1, "A: three".toList, .speech⟩, ⟨"A", "three", "neutral", none, 0⟩, by decide +kernel,
      rfl, by decide +kernel, rfl⟩
  have takes : TakesUp (scopeOf hostless store twoArms) (statementsOf twoArms) 6 7 :=
    ⟨⟨8, 0, "A: end".toList, .speech⟩, by decide +kernel, by decide +kernel⟩
  obtain ⟨_, _, respects⟩ := respectsBlocks_iff_of_compile compiled plain
  apply respects.mpr
  intro later takesLater between after before
  obtain ⟨final, read, _⟩ := exists_draft_of_compile compiled
  have same := takesLater.unique read plain takes
  subst same
  exact absurd before (Nat.not_lt_of_le after)

/-- The last line of the first arm leads into the second arm, past its `(else)`. -/
theorem not_respectsBlocks_of_first_arm :
    let store : Store := NameMap.ofList [("x", .integer 1)]
    (compile hostless store twoArms).graph =
        .ok (compiledGraph hostless store twoArms) ∧
      IsPlain (statementsOf twoArms) 3 ∧
      ¬ RespectsBlocks (scopeOf hostless store twoArms)
        (statementsOf twoArms) (compiledGraph hostless store twoArms) 3 := by
  intro store
  have compiled : (compile hostless store twoArms).graph =
      .ok (compiledGraph hostless store twoArms) := by
    apply compile_eq_ok_compiledGraph
    decide +kernel
  have plain : IsPlain (statementsOf twoArms) 3 :=
    ⟨⟨4, 1, "A: one".toList, .speech⟩, ⟨"A", "one", "neutral", none, 0⟩, by decide +kernel,
      rfl, by decide +kernel, rfl⟩
  have leads : ((compiledGraph hostless store twoArms).line
      (lineAt (scopeOf hostless store twoArms) (statementsOf twoArms) 3)).next =
        some (lineAt (scopeOf hostless store twoArms) (statementsOf twoArms) 6) := by
    decide +kernel
  -- The `(else)` stands between them.
  have deeper : ¬ indentAt (statementsOf twoArms) 6 ≤ indentAt (statementsOf twoArms) 4 := by
    decide +kernel
  have crosses : ¬ RespectsBlocks (scopeOf hostless store twoArms) (statementsOf twoArms)
      (compiledGraph hostless store twoArms) 3 := by
    intro respects
    obtain ⟨_, _, noneShallower⟩ := respects 6 (by decide +kernel) leads
    exact deeper (noneShallower 4 (by decide) (by decide))
  exact ⟨compiled, plain, crosses⟩

end Parley
