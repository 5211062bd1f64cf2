import Parley.Proofs.Compilation.Sound
import Parley.Proofs.Draft.Reached
import Parley.Proofs.Draft.Roots
import Parley.Proofs.Session.Operation

/-!
# What goes on behind a return marker

A line with return markers leads back and does not wait for a successor.  That does not keep the
flow from the line behind it: the line that waited before the marker still does, and goes on with
whatever is said next.
-/

namespace Parley

open Parley.Script

variable {σ : Type} {registry : Registry σ} {store : Store} {script : List String} {graph : Graph}

/-- Nothing leads to a line: no block begins with it and no line goes on with it. -/
structure Graph.Unreached (graph : Graph) (id : LineIndex) : Prop where
  block : ¬ graph.BeginsBlock id
  next : ∀ line, (graph.line line).next ≠ some id

section Reading

variable {scope : Scope} {statements : List Statement} {final : Draft} {place count : Nat}
  {statement : Statement}

/-- Behind a line with return markers, what is open is no deeper than the line. -/
structure IsBehindMarks (scope : Scope) (statements : List Statement) (place : Nat) : Prop where
  latest : (draftAfter scope statements (place + 1)).latest = .line
  branches : ∀ branch ∈ (draftAfter scope statements (place + 1)).branches,
    branch.indent ≤ indentAt statements place
  innermost : ∀ top outer, (draftAfter scope statements (place + 1)).lines = top :: outer →
    top.indent ≤ indentAt statements place

theorem Marks.isBehindMarks (read : Draft.empty.stepAll scope statements = .ok final)
    (marks : Marks statements place count) (marked : 0 < count) :
    IsBehindMarks scope statements place := by
  obtain ⟨statement, speech, found, spoken, readSpeech, rfl⟩ := marks
  have stepped := step_draftAfter read found
  obtain ⟨kept, branches, -, shallow⟩ :=
    Draft.exists_branches_of_step (nested_draftAfter place) stepped
  rw [spoken, if_neg (by decide), List.nil_append] at branches
  unfold Draft.step at stepped
  simp only [spoken] at stepped
  obtain ⟨-, -, latest⟩ := Draft.stacks_of_stepSpeech stepped
  obtain ⟨same, readSame, lines⟩ := Draft.lines_of_stepSpeech stepped
  rw [readSpeech] at readSame
  cases readSame
  rw [if_neg (Nat.ne_of_gt marked), List.nil_append] at lines
  refine ⟨latest, ?_, ?_⟩
  · rw [branches, indentAt_eq found]
    exact shallow
  · intro top outer stack
    rw [lines] at stack
    have kept := not_of_dropWhile_eq_cons stack
    rw [indentAt_eq found]
    simpa using kept

/-- A line that stands right behind one with return markers, at its indentation, follows the
innermost of the lines that are open there, once it has taken its place. -/
theorem IsBehindMarks.follows (read : Draft.empty.stepAll scope statements = .ok final)
    (behind : IsBehindMarks scope statements place)
    (found : statements[place + 1]? = some statement) (spoken : statement.construct = .speech)
    (level : statement.indent = indentAt statements place) :
    let draft := draftAfter scope statements (place + 1)
    (draft.roomFor statement).latest = .line ∧
      (∃ top outer, draft.lines = top :: outer) ∧
      (∃ id, Follows scope statements id (place + 1)) ∧
      ((∀ branch ∈ draft.branches, branch.indent ≠ indentAt statements place) →
        ∀ top outer, draft.lines = top :: outer → Follows scope statements top.id (place + 1)) := by
  intro draft
  have stepped := step_draftAfter read found
  have closed : draft.closeDeepBranches statement.indent = draft :=
    Draft.closeDeepBranches_of_shallow (level ▸ behind.branches)
  have settled : draft.settleChoice statement.indent = draft := by
    have latest : draft.latest = .line := behind.latest
    simp [Draft.settleChoice, latest]
  have room : draft.roomFor statement = draft.closeBranchAt statement.indent := by
    rw [Draft.roomFor, closed, Draft.makeRoom, settled]
  have latest : (draft.roomFor statement).latest = .line :=
    room ▸ Draft.latest_closeBranchAt_of_line behind.latest statement.indent
  have first : ∀ top outer, (draft.roomFor statement).lines = top :: outer →
      Follows scope statements top.id (place + 1) := by
    intro top outer stack
    rw [follows_iff_mem_taken found, Draft.taken, if_pos spoken, Draft.predecessors,
      Draft.followed, if_pos latest, stack]
    simp
  unfold Draft.step at stepped
  rw [closed] at stepped
  simp only [spoken] at stepped
  obtain ⟨title, speech, commands, attached, -, -, fits, -, -, attach, -, -⟩ :=
    Draft.stepSpeech_eq_ok_iff.mp stepped
  refine ⟨latest, ?_, ?_, ?_⟩
  · rcases stack : draft.lines with _ | ⟨top, outer⟩
    · have lastLine : draft.latest = .line := behind.latest
      simp [settled, Draft.checkSpeech, lastLine, stack, Draft.topIndent, bind, Except.bind] at fits
    · exact ⟨top, outer, rfl⟩
  · rcases stack : (draft.roomFor statement).lines with _ | ⟨top, outer⟩
    · rw [Draft.roomFor, closed] at latest stack
      simp [Draft.attachSpeech, Draft.addLine, latest, stack] at attach
    · exact ⟨top.id, first top outer stack⟩
  · intro apart top outer stack
    refine first top outer ?_
    rw [room, Draft.closeBranchAt, ← stack]
    rcases branches : draft.branches with _ | ⟨branch, rest⟩
    · rfl
    · have other := apart branch (branches ▸ List.mem_cons_self)
      rw [← level] at other
      dsimp only
      rw [if_neg other]

/-- A line with return markers does not wait for a successor. -/
theorem Marks.not_isPlain (marks : Marks statements place count) (marked : 0 < count) :
    ¬ IsPlain statements place := by
  rintro ⟨statement, plain, found, -, readPlain, unmarked⟩
  obtain ⟨same, speech, foundMarks, -, readSpeech, rfl⟩ := marks
  rw [found] at foundMarks
  cases foundMarks
  rw [readPlain] at readSpeech
  cases readSpeech
  exact Nat.ne_of_gt marked unmarked

/-- The innermost line that is open behind one with return markers is that of an earlier plain line
of the dialogue, and no deeper. -/
theorem Marks.exists_waiting (read : Draft.empty.stepAll scope statements = .ok final)
    (marks : Marks statements place count) (marked : 0 < count)
    (within : place + 1 ≤ statements.length) {top : OpenNode} {outer : List OpenNode}
    (stack : (draftAfter scope statements (place + 1)).lines = top :: outer) :
    ∃ waiting < place, IsPlain statements waiting ∧ SameDialogue statements waiting place ∧
      indentAt statements waiting ≤ indentAt statements place ∧
      top = ⟨lineAt scope statements waiting, indentAt statements waiting⟩ := by
  obtain ⟨waiting, before, plain, rfl, inside⟩ :=
    exists_plain_of_open read within top (stack ▸ List.mem_cons_self)
  have apart : waiting ≠ place := by
    rintro rfl
    exact marks.not_isPlain marked plain
  exact ⟨waiting, Nat.lt_of_le_of_ne (Nat.le_of_lt_succ before) apart, plain,
    fun between after early => inside between after (Nat.lt_succ_of_lt early),
    (marks.isBehindMarks read marked).innermost _ outer stack, rfl⟩

/-- The line under which an option is offered is the innermost one behind the option. -/
theorem exists_innermost_rootAt (read : Draft.empty.stepAll scope statements = .ok final)
    (option : constructAt statements place = some .option) :
    ∃ root outer, rootAt scope statements place = some root ∧
      (draftAfter scope statements (place + 1)).lines = ⟨root, indentAt statements place⟩ :: outer := by
  obtain ⟨statement, found, offers⟩ := Option.map_eq_some_iff.mp option
  have stepped := step_draftAfter read found
  have lines := Draft.lines_of_step_silent (by simp [offers]) (by simp [offers]) stepped
  unfold Draft.step at stepped
  simp only [offers] at stepped
  obtain ⟨_, _, _, root, -, -, -, isRoot, -⟩ := Draft.stepOption_eq_ok_iff.mp stepped
  obtain ⟨outer, stack⟩ := Draft.exists_of_optionRoot isRoot
  have remaining : (draftAfter scope statements place).lines.dropWhile
      (fun line => statement.indent < line.indent) = ⟨root, statement.indent⟩ :: outer := by
    rw [← Draft.dropWhile_lines_closeDeepBranches]
    exact stack
  refine ⟨root, outer, ?_, ?_⟩
  · rw [rootAt, found, Option.bind_some, Draft.rootOf, if_pos offers, isRoot]
    rfl
  · rw [lines, remaining, indentAt_eq found]

/-- Behind an option whose body begins with a line with return markers, the line under which the
option is offered is still the innermost one, and no branch is open in the body. -/
theorem innermost_of_marked_body (read : Draft.empty.stepAll scope statements = .ok final)
    {option : Nat} (isOption : IsOption statements false option)
    (marks : Marks statements (option + 1) count) (marked : 0 < count)
    (deeper : indentAt statements (option + 1) = indentAt statements option + 1) :
    ∃ root outer, rootAt scope statements option = some root ∧
      (draftAfter scope statements (option + 2)).lines =
        ⟨root, indentAt statements option⟩ :: outer ∧
      ∀ branch ∈ (draftAfter scope statements (option + 2)).branches,
        branch.indent ≤ indentAt statements option := by
  have last := isOption.isLast read
  obtain ⟨root, outer, rooted, lines⟩ := exists_innermost_rootAt read isOption.constructAt_eq
  obtain ⟨statement, speech, found, spoken, readSpeech, rfl⟩ := marks
  rw [indentAt_eq found] at deeper
  have stepped := step_draftAfter read found
  obtain ⟨kept, branches, suffix, -⟩ :=
    Draft.exists_branches_of_step (nested_draftAfter (option + 1)) stepped
  rw [spoken, if_neg (by decide), List.nil_append] at branches
  refine ⟨root, outer, rooted, ?_, ?_⟩
  · obtain ⟨-, room⟩ := last.roomFor deeper
    unfold Draft.step at stepped
    simp only [spoken] at stepped
    obtain ⟨same, readSame, linesThen⟩ := Draft.lines_of_stepSpeech stepped
    rw [readSpeech] at readSame
    cases readSame
    have notLine : (draftAfter scope statements (option + 1)).latest ≠ .line := by
      rw [last.latest]
      decide
    rw [if_neg (Nat.ne_of_gt marked), List.nil_append, ← Draft.roomFor, room, Draft.release,
      if_neg notLine, lines, List.dropWhile_cons_of_neg (by simp [deeper])] at linesThen
    exact linesThen
  · intro branch member
    exact last.shallow branch (suffix.mem (branches ▸ member))

end Reading

/-- A line that stands right behind one with return markers, at its indentation, is always reached.
It begins no block, but the line that waits innermost goes on with it, unless a branch at its
indentation is closed in between; and those lines go on with it that it follows, besides those that
lead back to it.  Where the body of an option begins with the two lines, the line under which the
option is offered goes on into the body. -/
theorem reached_behind_marks_of_compile
    (compiled : (compile registry store script).graph = .ok graph) {place count : Nat}
    (marks : Marks (statementsOf script) place count) (marked : 0 < count)
    (spoken : constructAt (statementsOf script) (place + 1) = some .speech)
    (level : indentAt (statementsOf script) (place + 1) = indentAt (statementsOf script) place) :
    let scope := scopeOf registry store script
    let statements := statementsOf script
    let node := lineAt scope statements (place + 1)
    ¬ graph.Unreached node ∧ ¬ graph.BeginsBlock node ∧
    (∀ id, ¬ IsMarkedLine scope statements id →
      ((graph.line id).next = some node ↔ Follows scope statements id (place + 1))) ∧
    (∃ waiting outer, waiting < place ∧ IsPlain statements waiting ∧
      SameDialogue statements waiting place ∧
      indentAt statements waiting ≤ indentAt statements place ∧
      (draftAfter scope statements (place + 1)).lines =
        ⟨lineAt scope statements waiting, indentAt statements waiting⟩ :: outer ∧
      ((∀ branch ∈ (draftAfter scope statements (place + 1)).branches,
          branch.indent ≠ indentAt statements place) →
        (graph.line (lineAt scope statements waiting)).next = some node)) ∧
    ∀ option, option + 1 = place → IsOption statements false option →
      indentAt statements place = indentAt statements option + 1 →
        (graph.line (graph.choice (choiceAt scope statements option)).root).next = some node := by
  intro scope statements node
  obtain ⟨final, read, rfl⟩ := exists_draft_of_compile compiled
  obtain ⟨statement, found, speaks⟩ := Option.map_eq_some_iff.mp spoken
  have within : place + 1 ≤ statements.length :=
    Nat.le_of_lt (List.getElem?_eq_some_iff.mp found).1
  have indent : statement.indent = indentAt statements place := by
    rw [← level, indentAt_eq found]
  have behind : IsBehindMarks scope statements place := marks.isBehindMarks read marked
  obtain ⟨latest, ⟨top, outer, stack⟩, ⟨follower, follows⟩, innermost⟩ :=
    behind.follows read found speaks indent
  refine ⟨fun unreached => unreached.next follower (follows.next_eq read),
    not_beginsBlock_lineAt read found speaks latest,
    fun id unmarked => next_eq_lineAt_iff read found speaks unmarked, ?_, ?_⟩
  · obtain ⟨waiting, before, plain, same, shallow, rfl⟩ :=
      marks.exists_waiting read marked within stack
    exact ⟨waiting, outer, before, plain, same, shallow, stack,
      fun free => (innermost free _ outer stack).next_eq read⟩
  · rintro option rfl isOption deeper
    obtain ⟨root, others, rooted, lines, branches⟩ :=
      innermost_of_marked_body read isOption marks marked deeper
    have free : ∀ branch ∈ (draftAfter scope statements (option + 2)).branches,
        branch.indent ≠ indentAt statements (option + 1) := by
      intro branch member
      rw [deeper]
      exact Nat.ne_of_lt (Nat.lt_succ_of_le (branches branch member))
    have isRoot := root_choice_draftAfter read isOption.constructAt_eq isOption.lt_length
      (Nat.le_refl _)
    rw [rooted, draftAfter_length read] at isRoot
    rw [Graph.choice_congr final.graphChoices_closeDialogue, Option.some.inj isRoot]
    exact (innermost free _ _ lines).next_eq read

/-- An option whose body is closed by a line with a return marker, and one more line in it. -/
def lineBehindMarker : List String :=
  ["- D", "A: root", "> opt", "\tA: a", "\tA: back <-", "\tA: b"]

/-- The line under which the option is offered goes on with the line behind the marker. -/
theorem reached_behind_marks_of_second_line :
    let graph := compiledGraph hostless .empty lineBehindMarker
    (graph.line 0).next = some 3 ∧ ¬ graph.BeginsBlock 3 := by
  intro graph
  have compiled : (compile hostless .empty lineBehindMarker).graph = .ok graph := by
    apply compile_eq_ok_compiledGraph
    decide +kernel
  have marks : Marks (statementsOf lineBehindMarker) 4 1 :=
    ⟨⟨5, 1, "A: back <-".toList, .speech⟩, ⟨"A", "back", "neutral", none, 1⟩, by decide +kernel,
      rfl, by decide +kernel, rfl⟩
  obtain ⟨-, noBlock, -, ⟨waiting, outer, -, -, -, -, stack, goesOn⟩, -⟩ :=
    reached_behind_marks_of_compile compiled marks Nat.zero_lt_one (by decide +kernel)
      (by decide +kernel)
  have node : lineAt (scopeOf hostless .empty lineBehindMarker) (statementsOf lineBehindMarker) 5 =
      3 := by
    decide +kernel
  have lines : (draftAfter (scopeOf hostless .empty lineBehindMarker)
      (statementsOf lineBehindMarker) 5).lines = [⟨0, 0⟩] := by
    decide +kernel
  have branches : (draftAfter (scopeOf hostless .empty lineBehindMarker)
      (statementsOf lineBehindMarker) 5).branches = [] := by
    decide +kernel
  have root : lineAt (scopeOf hostless .empty lineBehindMarker) (statementsOf lineBehindMarker)
      waiting = 0 := by
    rw [lines] at stack
    injection stack with same
    exact (congrArg OpenNode.id same).symm
  rw [node] at noBlock goesOn
  rw [root] at goesOn
  refine ⟨goesOn fun branch member => ?_, noBlock⟩
  rw [branches] at member
  cases member

/-- An option that is not available, with a body of a line with a return marker and one more
line. -/
def lineInUnavailableOption : List String :=
  ["- D", "A: root", "> (if 1 == 2) opt", "\tA: a <-", "\tA: b"]

/-- The second line is what follows the line under which the option is offered, although it is in
the body of an option that nobody may choose. -/
theorem not_unreached_behind_marks :
    let scope := scopeOf hostless .empty lineInUnavailableOption
    let statements := statementsOf lineInUnavailableOption
    let graph := compiledGraph hostless .empty lineInUnavailableOption
    (compile hostless .empty lineInUnavailableOption).graph = .ok graph ∧
      Marks statements 3 1 ∧ constructAt statements 4 = some .speech ∧
      indentAt statements 4 = indentAt statements 3 ∧ lineAt scope statements 4 = 2 ∧
      (graph.line 0).next = some 2 ∧ ¬ graph.Unreached 2 ∧
      (((Session.ofGraph graph hostless ⟨.empty, ()⟩).after [.start "D", .next]).operate .next).1 =
        .ok (some (.line ⟨"A", "b", "neutral"⟩)) := by
  intro scope statements graph
  have compiled : (compile hostless .empty lineInUnavailableOption).graph = .ok graph := by
    apply compile_eq_ok_compiledGraph
    decide +kernel
  have marks : Marks statements 3 1 :=
    ⟨⟨4, 1, "A: a <-".toList, .speech⟩, ⟨"A", "a", "neutral", none, 1⟩, by decide +kernel, rfl,
      by decide +kernel, rfl⟩
  have goesOn : (graph.line 0).next = some 2 := by decide +kernel
  exact ⟨compiled, marks, by decide +kernel, by decide +kernel, by decide +kernel, goesOn,
    fun unreached => unreached.next 0 goesOn, by decide +kernel⟩

end Parley
