import Parley.Proofs.Compilation.Rejoining
import Parley.Proofs.Draft.Returns

/-!
# Return markers count the options around a line

A line with return markers leads as many of the options that enclose it up as it has markers,
to the line under which that option is offered.  A line with more markers than options around it
is rejected.  This takes a script without terminal options: behind one of those, an option is
left earlier than its indentation tells.
-/

namespace Parley

open Parley.Script

variable {σ : Type} {registry : Registry σ} {store : Store} {script : List String} {graph : Graph}

/-- A statement that cannot be read is blamed for the failure. -/
theorem compile_eq_error_of_step {before : Draft} {statement : Statement} {place : Nat}
    {fault : Fault} (found : (statementsOf script)[place]? = some statement)
    (read : Draft.empty.stepAll (scopeOf registry store script)
      ((statementsOf script).take place) = .ok before)
    (fails : before.step (scopeOf registry store script) statement = .error fault) :
    (compile registry store script).graph =
      .error ((Diagnostic.ofFault fault).atLine statement.number) := by
  show graphOf (scopeOf registry store script) (statementsOf script) = _
  rw [graphOf, ← take_append_cons_drop found, Draft.stepAll_append, read]
  simp only [Draft.stepAll, fails]
  rfl

/-- A line with return markers is rejected exactly if it has more of them than there are options
that enclose it, if its markers are all that may be wrong with it.  In a compiled script it is
followed for good by the plain line of its dialogue under which the option that many levels up
is offered. -/
theorem returns_of_marks {place count : Nat}
    (unterminated : ∀ place, ¬ IsOption (statementsOf script) true place)
    (marks : Marks (statementsOf script) place count) (marked : 0 < count) :
    let scope := scopeOf registry store script
    let statements := statementsOf script
    let levels := (enclosing statements place).length
    (∀ before statement, statements[place]? = some statement →
      Draft.empty.stepAll scope (statements.take place) = .ok before →
      before.AcceptsUnmarked scope statement →
        ((∃ after, before.step scope statement = .ok after) ↔ count ≤ levels) ∧
        (before.step scope statement = .error (.malformed (.returnTooFar count levels)) ↔
          levels < count) ∧
        (levels < count → (compile registry store script).graph = .error
          ((Diagnostic.ofFault (.malformed (.returnTooFar count levels))).atLine
            statement.number))) ∧
    ∀ graph, (compile registry store script).graph = .ok graph →
      ∃ option spoken, (enclosing statements place)[count - 1]? = some option ∧
        spoken < option ∧ IsPlain statements spoken ∧ SameDialogue statements spoken place ∧
        (graph.choice (choiceAt scope statements option)).root = lineAt scope statements spoken ∧
        choiceAt scope statements option ∈
          (graph.line (lineAt scope statements spoken)).choices ∧
        (graph.line (lineAt scope statements spoken)).isRelay = false ∧
        (graph.line (lineAt scope statements place)).next =
          some (lineAt scope statements spoken) ∧
        ∀ later, place < later → later ≤ statements.length →
          ((draftAfter scope statements later).graph.line (lineAt scope statements place)).next =
            some (lineAt scope statements spoken) := by
  intro scope statements levels
  constructor
  · intro before statement found read accepted
    obtain ⟨same, speech, foundSame, speaks, readSpeech, rfl⟩ := marks
    rw [found] at foundSame
    cases foundSame
    have around := around_of_read read unterminated found (by simp [speaks])
    have length : (before.around statement).length = levels := by
      rw [around, List.length_map]
    obtain ⟨near, far⟩ := Draft.step_of_acceptsUnmarked speaks accepted readSpeech marked
    rw [length] at near far
    refine ⟨⟨?_, near⟩, ⟨?_, far⟩, fun exceeds => compile_eq_error_of_step found read (far exceeds)⟩
    · rintro ⟨after, reads⟩
      apply Nat.le_of_not_lt
      intro exceeds
      rw [far exceeds] at reads
      cases reads
    · intro fails
      apply Nat.lt_of_not_le
      intro within
      obtain ⟨after, reads⟩ := near within
      rw [reads] at fails
      cases fails
  · intro graph compiled
    have isSpoken := @isRelay_lineAt _ registry store script graph compiled
    obtain ⟨final, read, rfl⟩ := exists_draft_of_compile compiled
    obtain ⟨option, spoken, isOption, before, plain, same, rooted, leads⟩ :=
      next_lineAt_of_marks read unterminated marks marked
    have offers := constructAt_of_rootAt rooted
    obtain ⟨offer, foundOffer, -⟩ := Option.map_eq_some_iff.mp offers
    have within := (List.getElem?_eq_some_iff.mp foundOffer).1
    obtain ⟨statement, speech, found, speaks, -⟩ := marks
    have reaches := (List.getElem?_eq_some_iff.mp found).1
    refine ⟨option, spoken, isOption, before, plain, same, ?_, ?_, isSpoken plain.constructAt_eq,
      ?_, leads⟩
    · have root := root_choice_draftAfter read offers within (Nat.le_refl _)
      rw [rooted, draftAfter_length read] at root
      rw [Graph.choice_congr final.graphChoices_closeDialogue]
      exact Option.some.inj root
    · rw [choices_line_final read]
      apply List.mem_map_of_mem
      exact List.mem_filter.mpr ⟨List.mem_range.mpr within, decide_eq_true rooted⟩
    · have known : lineAt scope statements place < final.graph.lines.size := by
        rw [← draftAfter_length read]
        exact Nat.lt_of_lt_of_le (lineAt_lt read found speaks)
          (size_draftAfter_mono read reaches)
      rw [(Draft.Extends.closeDialogue final).next _ known, ← draftAfter_length read]
      exact leads _ reaches (Nat.le_refl _)

/-- A line within two options, with a number of return markers. -/
def withinTwoOptions (markers : String) : List String :=
  ["- D", "A: root", "> outer", "\tA: inner", "\t> again", "\t\tA: back " ++ markers, "A: end"]

/-- Two markers lead out of both options, to the line under which the outer one is offered; a
third one is too many. -/
theorem returns_of_within_two_options :
    (let script := withinTwoOptions "<- <-"
      let graph := compiledGraph hostless .empty script
      enclosing (statementsOf script) 5 = [4, 2] ∧ (graph.line 2).next = some 0 ∧
        (graph.choice 0).root = 0 ∧ 0 ∈ (graph.line 0).choices) ∧
    (compile hostless .empty (withinTwoOptions "<- <- <-")).graph =
      .error ⟨.malformed (.returnTooFar 3 2), some 6⟩ := by
  have optionless : ∀ markers ∈ ["<- <-", "<- <- <-"], ∀ place,
      ¬ IsOption (statementsOf (withinTwoOptions markers)) true place := by
    intro markers member place
    rintro ⟨statement, option, found, -, readOption, terminal⟩
    have none : ∀ markers ∈ ["<- <-", "<- <- <-"],
        (statementsOf (withinTwoOptions markers)).all fun statement =>
          (OptionLine.read statement.content).toOption.all fun option => !option.terminal := by
      decide +kernel
    have open' := List.all_eq_true.mp (none markers member) statement (List.mem_of_getElem? found)
    rw [readOption] at open'
    simp [Except.toOption, terminal] at open'
  constructor
  · intro script graph
    have compiled : (compile hostless .empty script).graph = .ok graph := by
      apply compile_eq_ok_compiledGraph
      decide +kernel
    have marks : Marks (statementsOf script) 5 2 :=
      ⟨⟨6, 2, "A: back <- <-".toList, .speech⟩, ⟨"A", "back", "neutral", none, 2⟩,
        by decide +kernel, rfl, by decide +kernel, rfl⟩
    have around : enclosing (statementsOf script) 5 = [4, 2] := by decide +kernel
    obtain ⟨option, spoken, isOption, -, -, -, rooted, listed, -, leads, -⟩ :=
      (returns_of_marks (optionless _ (by simp)) marks (by decide)).2 graph compiled
    rw [around] at isOption
    obtain rfl : 2 = option := Option.some.inj isOption
    have line : lineAt (scopeOf hostless .empty script) (statementsOf script) 5 = 2 := by
      decide +kernel
    have choice : choiceAt (scopeOf hostless .empty script) (statementsOf script) 2 = 0 := by
      decide +kernel
    have root : (graph.choice 0).root = 0 := by decide +kernel
    rw [choice] at rooted listed
    rw [← rooted, root] at listed leads
    rw [line] at leads
    exact ⟨around, leads, root, listed⟩
  · let script := withinTwoOptions "<- <- <-"
    let scope := scopeOf hostless .empty script
    have marks : Marks (statementsOf script) 5 3 :=
      ⟨⟨6, 2, "A: back <- <- <-".toList, .speech⟩, ⟨"A", "back", "neutral", none, 3⟩,
        by decide +kernel, rfl, by decide +kernel, rfl⟩
    have levels : (enclosing (statementsOf script) 5).length = 2 := by decide +kernel
    have read : Draft.empty.stepAll scope ((statementsOf script).take 5) =
        .ok (draftAfter scope (statementsOf script) 5) := by
      decide +kernel
    have accepted : (draftAfter scope (statementsOf script) 5).AcceptsUnmarked scope
        ⟨6, 2, "A: back <- <- <-".toList, .speech⟩ := by
      have fits : (((draftAfter scope (statementsOf script) 5).closeDeepBranches 2).stepRemarked
          scope ⟨6, 2, "A: back <- <- <-".toList, .speech⟩ fun _ => 0).toOption.isSome = true := by
        decide +kernel
      unfold Draft.AcceptsUnmarked
      revert fits
      rcases ((draftAfter scope (statementsOf script) 5).closeDeepBranches 2).stepRemarked scope
        ⟨6, 2, "A: back <- <- <-".toList, .speech⟩ (fun _ => 0) with fault | unmarked
      · exact fun impossible => by cases impossible
      · exact fun _ => ⟨unmarked, rfl⟩
    obtain ⟨-, -, rejected⟩ := (returns_of_marks (optionless _ (by simp)) marks (by decide)).1
      (draftAfter scope (statementsOf script) 5) _ (by decide +kernel) read accepted
    rw [levels] at rejected
    exact rejected (by decide)

end Parley
