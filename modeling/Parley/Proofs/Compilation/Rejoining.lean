import Parley.Proofs.Compilation.Successors
import Parley.Proofs.Session.Operation

/-!
# Where a line with options continues

When no option of a line is available, the dialogue should go on where the options
and their bodies end: at the next line of the dialogue that is no deeper than the line
and everything in between.  The compiled line leads there exactly if that line is the
one which takes it up from the stacks of open nodes.  A line that waits beneath the body
of its last option is not taken up there.
-/

namespace Parley

open Parley.Script

/-- The statement at a later place says something in the same dialogue and is no
deeper than the earlier one and everything in between. -/
structure Rejoins (statements : List Statement) (earlier later : Nat) : Prop where
  spoken : constructAt statements later = some .speech
  after : earlier < later
  dialogue : SameDialogue statements earlier later
  shallow : indentAt statements later ≤ indentAt statements earlier
  shallowest : NoneShallower statements earlier later

/-- The first statement at which the dialogue rejoins. -/
def FirstRejoins (statements : List Statement) (earlier later : Nat) : Prop :=
  Rejoins statements earlier later ∧
    ∀ sooner, sooner < later → ¬ Rejoins statements earlier sooner

/-- A line with options leads to where the dialogue rejoins.  Whenever it is shown and no
option is available, the session goes on there, or ends if there is no such place. -/
structure ContinuesPast (scope : Scope) (statements : List Statement) (graph : Graph)
    (place : Nat) : Prop where
  leads : ∀ later, FirstRejoins statements place later →
    (graph.line (lineAt scope statements place)).next = some (lineAt scope statements later)
  ends : (∀ later, ¬ Rejoins statements place later) →
    (graph.line (lineAt scope statements place)).next = none
  moves : ∀ {τ : Type} (commands : Registry τ) (world after : World τ) operations view later,
    FirstRejoins statements place later →
    let session := (Session.ofGraph graph commands world).after operations
    let line := lineAt scope statements place
    Session.openChoices session.graph session.registry (session.graph.line line).choices
      session.world = (.ok [], after) →
    Session.viewOf after.store (session.graph.line line) = .ok view →
    ∃ shown, session.present line = (.ok (.line view), shown) ∧
      shown.next = { shown with position := .reached (lineAt scope statements later) }.arrive
        (lineAt scope statements later)
  finishes : ∀ {τ : Type} (commands : Registry τ) (world after : World τ) operations view,
    (∀ later, ¬ Rejoins statements place later) →
    let session := (Session.ofGraph graph commands world).after operations
    let line := lineAt scope statements place
    Session.openChoices session.graph session.registry (session.graph.line line).choices
      session.world = (.ok [], after) →
    Session.viewOf after.store (session.graph.line line) = .ok view →
    ∃ shown, session.present line = (.ok (.line view), shown) ∧
      shown.next = (.ok .finished, { shown with position := .finished })

namespace Session

variable {τ : Type} {session : Session τ} {line : LineIndex}

/-- Where no choice is available, a line is shown by itself. -/
theorem present_of_no_choice {after : World τ} {view : View}
    (opened : openChoices session.graph session.registry (session.graph.line line).choices
      session.world = (.ok [], after))
    (viewed : viewOf after.store (session.graph.line line) = .ok view) :
    session.present line =
      (.ok (.line view), { session with world := after, position := .shown line }) := by
  simp only [present, opened, viewed, List.isEmpty_nil, if_true]

/-- From a line without a branch a session goes on to the line's successor. -/
theorem next_of_shown {target : LineIndex} (shown : session.position = .shown line)
    (unbranched : (session.graph.line line).branch = none)
    (leads : (session.graph.line line).next = some target)
    (spoken : (session.graph.line target).isRelay = false) :
    session.next = { session with position := .reached target }.arrive target := by
  simp only [next, shown, leave, Graph.afterLine, Graph.follow, unbranched, leads,
    Graph.firstSpoken_of_spoken _ _ _ spoken]

/-- From a line without branch and successor a session goes to the end. -/
theorem next_of_shown_last (shown : session.position = .shown line)
    (unbranched : (session.graph.line line).branch = none)
    (last : (session.graph.line line).next = none) :
    session.next = (.ok .finished, { session with position := .finished }) := by
  simp only [next, shown, leave, Graph.afterLine, Graph.follow, unbranched, last,
    Graph.firstSpoken_none]

/-- Where no choice of a line is available, a session goes on to its successor. -/
theorem moves_of_no_choice {after : World τ} {view : View} {target : LineIndex}
    (opened : openChoices session.graph session.registry (session.graph.line line).choices
      session.world = (.ok [], after))
    (viewed : viewOf after.store (session.graph.line line) = .ok view)
    (unbranched : (session.graph.line line).branch = none)
    (leads : (session.graph.line line).next = some target)
    (spoken : (session.graph.line target).isRelay = false) :
    ∃ shown, session.present line = (.ok (.line view), shown) ∧
      shown.next = { shown with position := .reached target }.arrive target :=
  ⟨_, present_of_no_choice opened viewed, next_of_shown rfl unbranched leads spoken⟩

/-- Where no choice of a line is available and it has no successor, a session ends. -/
theorem finishes_of_no_choice {after : World τ} {view : View}
    (opened : openChoices session.graph session.registry (session.graph.line line).choices
      session.world = (.ok [], after))
    (viewed : viewOf after.store (session.graph.line line) = .ok view)
    (unbranched : (session.graph.line line).branch = none)
    (last : (session.graph.line line).next = none) :
    ∃ shown, session.present line = (.ok (.line view), shown) ∧
      shown.next = (.ok .finished, { shown with position := .finished }) :=
  ⟨_, present_of_no_choice opened viewed, next_of_shown_last rfl unbranched last⟩

end Session

variable {σ : Type} {registry : Registry σ} {store : Store} {script : List String} {graph : Graph}

/-- The line of a spoken statement is no relay. -/
theorem isRelay_lineAt (compiled : (compile registry store script).graph = .ok graph)
    {place : Nat} (spoken : constructAt (statementsOf script) place = some .speech) :
    (graph.line (lineAt (scopeOf registry store script) (statementsOf script) place)).isRelay =
      false := by
  obtain ⟨final, read, rfl⟩ := exists_draft_of_compile compiled
  obtain ⟨statement, found, speaks⟩ := Option.map_eq_some_iff.mp spoken
  obtain ⟨speech, commands, _, _, said⟩ := said_lineAt read found speaks
  have text := congrArg Line.text said
  simp only [Line.unlinked, Line.spoken] at text
  rw [Line.isRelay, text]
  rfl

/-- A plain line without a branch continues past its options exactly if it is taken up where
the dialogue rejoins, or not at all where it does not rejoin. -/
theorem continuesPast_iff_of_compile
    (compiled : (compile registry store script).graph = .ok graph) {place : Nat}
    (plain : IsPlain (statementsOf script) place)
    (unbranched : (graph.line (lineAt (scopeOf registry store script) (statementsOf script)
      place)).branch = none) :
    let scope := scopeOf registry store script
    let statements := statementsOf script
    ContinuesPast scope statements graph place ↔
      (∀ later, FirstRejoins statements place later → TakesUp scope statements place later) ∧
      ((∀ later, ¬ Rejoins statements place later) →
        ∀ later, ¬ TakesUp scope statements place later) := by
  intro scope statements
  have leads_iff : ∀ target, (graph.line (lineAt scope statements place)).next = some target ↔
      ∃ later, TakesUp scope statements place later ∧ lineAt scope statements later = target :=
    fun target => next_eq_some_iff_of_compile compiled plain
  obtain ⟨final, read, _⟩ := exists_draft_of_compile compiled
  constructor
  · intro continues
    constructor
    · intro later first
      obtain ⟨other, takes, same⟩ := (leads_iff _).mp (continues.leads later first)
      have spoken := (takesUp_within_of_compile compiled plain takes).1
      have equal := lineAt_injective read spoken first.1.spoken same
      exact equal ▸ takes
    · intro never later takes
      have leads := (leads_iff _).mpr ⟨later, takes, rfl⟩
      rw [continues.ends never] at leads
      cases leads
  · rintro ⟨taken, free⟩
    have leads : ∀ later, FirstRejoins statements place later →
        (graph.line (lineAt scope statements place)).next =
          some (lineAt scope statements later) :=
      fun later first => (leads_iff _).mpr ⟨later, taken later first, rfl⟩
    have ends : (∀ later, ¬ Rejoins statements place later) →
        (graph.line (lineAt scope statements place)).next = none := by
      intro never
      rcases next : (graph.line (lineAt scope statements place)).next with _ | target
      · rfl
      · obtain ⟨later, takes, _⟩ := (leads_iff _).mp next
        exact absurd takes (free never later)
    constructor
    · exact leads
    · exact ends
    · intro τ commands world after operations view later first session line opened viewed
      have lines : ∀ id, session.graph.line id = graph.line id :=
        ((Session.ofGraph graph commands world).remembers_after operations).line
      apply Session.moves_of_no_choice opened viewed
      · exact (congrArg Line.branch (lines line)).trans unbranched
      · exact (congrArg Line.next (lines line)).trans (leads later first)
      · exact (congrArg Line.isRelay (lines _)).trans (isRelay_lineAt compiled first.1.spoken)
    · intro τ commands world after operations view never session line opened viewed
      have lines : ∀ id, session.graph.line id = graph.line id :=
        ((Session.ofGraph graph commands world).remembers_after operations).line
      apply Session.finishes_of_no_choice opened viewed
      · exact (congrArg Line.branch (lines line)).trans unbranched
      · exact (congrArg Line.next (lines line)).trans (ends never)

/-- A line with one option that has no body. -/
def bodilessOption : List String :=
  ["- D", "A: root", "> (if $x == 1) go", "A: end"]

/-- A line continues past an option without a body. -/
theorem continuesPast_of_bodiless_option :
    let store : Store := NameMap.ofList [("x", .integer 0)]
    ContinuesPast (scopeOf hostless store bodilessOption) (statementsOf bodilessOption)
      (compiledGraph hostless store bodilessOption) 1 := by
  intro store
  have compiled : (compile hostless store bodilessOption).graph =
      .ok (compiledGraph hostless store bodilessOption) := by
    apply compile_eq_ok_compiledGraph
    decide +kernel
  have plain : IsPlain (statementsOf bodilessOption) 1 :=
    ⟨⟨2, 0, "A: root".toList, .speech⟩, ⟨"A", "root", "neutral", none, 0⟩, by decide +kernel,
      rfl, by decide +kernel, rfl⟩
  have between : ∀ place, 1 < place → place < 3 → place = 2 := by omega
  have rejoins : Rejoins (statementsOf bodilessOption) 1 3 := by
    constructor
    · decide +kernel
    · decide
    · intro place after before
      rw [between place after before]
      decide +kernel
    · decide +kernel
    · intro place after before
      rw [between place after before]
      decide +kernel
  have takes : TakesUp (scopeOf hostless store bodilessOption) (statementsOf bodilessOption) 1 3 :=
    ⟨⟨4, 0, "A: end".toList, .speech⟩, by decide +kernel, by decide +kernel⟩
  apply (continuesPast_iff_of_compile compiled plain (by decide +kernel)).mpr
  constructor
  · intro later first
    -- The last statement rejoins, so nothing after it is the first that does.
    have notLater : ¬ 3 < later := fun after => first.2 3 after rejoins
    have notOption : later ≠ 2 := by
      rintro rfl
      exact absurd first.1.spoken (by decide +kernel)
    have same : later = 3 := by
      have after := first.1.after
      omega
    exact same ▸ takes
  · intro never
    exact absurd rejoins (never 3)

/-- A line with one option that has a body. -/
def bodiedOption : List String :=
  ["- D", "A: root", "> (if $x == 1) go", "\tA: body", "A: end"]

/-- A line does not continue past an option with a body: where the option is not
available, the session ends although there is a line to go on with. -/
theorem not_continuesPast_of_bodied_option :
    let store : Store := NameMap.ofList [("x", .integer 0)]
    let graph := compiledGraph hostless store bodiedOption
    (compile hostless store bodiedOption).graph = .ok graph ∧
      IsPlain (statementsOf bodiedOption) 1 ∧
      (graph.line (lineAt (scopeOf hostless store bodiedOption) (statementsOf bodiedOption)
        1)).branch = none ∧
      FirstRejoins (statementsOf bodiedOption) 1 4 ∧
      ¬ ContinuesPast (scopeOf hostless store bodiedOption) (statementsOf bodiedOption) graph 1 ∧
      (((Session.ofGraph graph hostless ⟨store, ()⟩).after [.start "D", .next]).operate .next).1 =
        .ok (some .finished) := by
  intro store graph
  have between : ∀ place, 1 < place → place < 4 → place = 2 ∨ place = 3 := by omega
  have rejoins : Rejoins (statementsOf bodiedOption) 1 4 := by
    constructor
    · decide +kernel
    · decide
    · intro place after before
      rcases between place after before with rfl | rfl <;> decide +kernel
    · decide +kernel
    · intro place after before
      rcases between place after before with rfl | rfl <;> decide +kernel
  have noSooner : ∀ sooner, sooner < 4 → ¬ Rejoins (statementsOf bodiedOption) 1 sooner := by
    intro sooner before earlier
    rcases between sooner earlier.after before with rfl | rfl
    · exact absurd earlier.spoken (by decide +kernel)
    · -- The body is deeper than the line that offers the option.
      exact absurd earlier.shallow (by decide +kernel)
  have first : FirstRejoins (statementsOf bodiedOption) 1 4 := ⟨rejoins, noSooner⟩
  have compiled : (compile hostless store bodiedOption).graph = .ok graph := by
    apply compile_eq_ok_compiledGraph
    decide +kernel
  have plain : IsPlain (statementsOf bodiedOption) 1 :=
    ⟨⟨2, 0, "A: root".toList, .speech⟩, ⟨"A", "root", "neutral", none, 0⟩, by decide +kernel,
      rfl, by decide +kernel, rfl⟩
  have nowhere : (graph.line (lineAt (scopeOf hostless store bodiedOption)
      (statementsOf bodiedOption) 1)).next = none := by
    decide +kernel
  have stops : ¬ ContinuesPast (scopeOf hostless store bodiedOption)
      (statementsOf bodiedOption) graph 1 := by
    intro continues
    have leads := continues.leads 4 first
    rw [nowhere] at leads
    cases leads
  exact ⟨compiled, plain, by decide +kernel, first, stops, by decide +kernel⟩

end Parley
