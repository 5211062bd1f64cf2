import Parley.Proofs.Compilation.Sound
import Parley.Proofs.Draft.Returns
import Parley.Proofs.Draft.Watch

/-!
# Compiling under watch

A lenient watch is never in the way: every script compiles, or fails to compile, as it does without
a watch.  Two such watches say what compiling does with the nodes that are open.  One lets a line be
given a successor only if it has none; under the other, a loop over open nodes has to take exactly
the nodes beyond its bound.
-/

namespace Parley

open Parley.Script

namespace Watch

/-- The graph of statements in a scope. -/
def graphOf? (watch : Watch) (scope : Scope) (statements : List Statement) :
    ExceptT Diagnostic Option Graph := do
  let final ← watch.stepAll? scope Draft.empty statements
  watch.finish? final

/-- Compile the lines of a script against commands and variables. -/
def compile? {σ : Type} (watch : Watch) (registry : Registry σ) (store : Store)
    (script : List String) : Option Compilation := do
  let lines := script.map String.toList
  let declared := declare store lines
  let graph ← (watch.graphOf? (Scope.ofWorld registry declared) (Statement.all lines)).run
  return ⟨declared, graph⟩

/-- Under a lenient watch a script compiles, or fails to compile, as it does without one. -/
theorem Lenient.compile? {watch : Watch} (lenient : watch.Lenient) {σ : Type}
    (registry : Registry σ) (store : Store) (script : List String) :
    watch.compile? registry store script = some (compile registry store script) := by
  have all : Finds (fun _ => True)
      (watch.graphOf? (scopeOf registry store script) (statementsOf script))
      (graphOf (scopeOf registry store script) (statementsOf script)) := by
    refine .bind (lenient.stepAll? Draft.Tidy.empty _ _) fun final read => ?_
    exact lenient.finish? (Draft.Tidy.empty.stepAll read)
  show ((watch.graphOf? (scopeOf registry store script) (statementsOf script)).run >>= _) = _
  rw [all.found]
  rfl

end Watch

/-! ## Successors are written once -/

section Successors

variable {scope : Scope} {statements : List Statement} {before after : Draft}

/-- Once a line has a successor, it does not wait. -/
theorem Draft.Orderly.not_waiting (orderly : before.Orderly) {id target : LineIndex}
    (linked : (before.graph.line id).next = some target) : id ∉ before.waiting := by
  intro waits
  rw [orderly.unfollowed id waits] at linked
  cases linked

/-- Once a line has a successor, it keeps it, whatever is read. -/
theorem Draft.next_of_stepAll (orderly : before.Orderly)
    (read : before.stepAll scope statements = .ok after) {id target : LineIndex}
    (linked : (before.graph.line id).next = some target) :
    (after.graph.line id).next = some target := by
  induction statements generalizing before with
  | nil =>
      cases read
      exact linked
  | cons statement rest ih =>
      obtain ⟨middle, first, others⟩ := stepAll_cons_eq_ok_iff.mp read
      have known := Graph.lt_of_next_line linked
      obtain ⟨kept, -⟩ :=
        next_of_step_of_not_waiting orderly first known (orderly.not_waiting linked)
      apply ih (advances_of_step orderly first).orderly others
      rw [kept]
      exact linked

/-- The end of a dialogue gives no line a successor. -/
theorem Draft.next_closeDialogue {id target : LineIndex}
    (linked : (before.graph.line id).next = some target) :
    (before.closeDialogue.graph.line id).next = some target := by
  rw [(Draft.Extends.closeDialogue before).next id (Graph.lt_of_next_line linked)]
  exact linked

/-- A line with return markers has its successor as soon as it has been read. -/
theorem exists_next_of_marks {place count marks : Nat}
    (read : Draft.empty.stepAll scope (statements.take count) = .ok after)
    (marked : Marks statements place marks) (positive : 0 < marks) (within : place < count) :
    ∃ target, (after.graph.line (lineAt scope statements place)).next = some target := by
  obtain ⟨statement, speech, found, speaks, readSpeech, rfl⟩ := marked
  have inPart : (statements.take count)[place]? = some statement := by
    rw [List.getElem?_take_of_lt within]
    exact found
  obtain ⟨middle, stepped, rest⟩ := Draft.stepAll_cons_eq_ok_iff.mp (read_drop read inPart)
  have orderly : (draftAfter scope (statements.take count) place).Orderly :=
    orderly_draftAfter place
  obtain ⟨⟨choice, -, leads⟩, -⟩ := Draft.marked_of_step orderly speaks readSpeech positive stepped
  rw [← lineAt_eq read inPart speaks, lineAt_take within] at leads
  exact ⟨_, Draft.next_of_stepAll (Draft.advances_of_step orderly stepped).orderly rest leads⟩

end Successors

/-- No line is ever given a second successor.  Whatever part of a script has been read, the lines
that wait on the two stacks are distinct and have no successor, also once the dialogue is closed.
A line that has a successor keeps it to the end, and a line with return markers has one from the
start, so it does not wait. -/
theorem writes_once_of_compile {σ : Type} (registry : Registry σ) (store : Store)
    (script : List String) :
    let scope := scopeOf registry store script
    let statements := statementsOf script
    Watch.writeOnce.compile? registry store script = some (compile registry store script) ∧
    ∀ count draft, Draft.empty.stepAll scope (statements.take count) = .ok draft →
      (draft.Orderly ∧ draft.closeDialogue.Orderly) ∧
      (∀ id target, (draft.graph.line id).next = some target →
        (∀ later after, count ≤ later →
          Draft.empty.stepAll scope (statements.take later) = .ok after →
            (after.graph.line id).next = some target) ∧
        ∀ graph, (compile registry store script).graph = .ok graph →
          (graph.line id).next = some target) ∧
      ∀ place marks, Marks statements place marks → 0 < marks → place < count →
        lineAt scope statements place ∉ draft.waiting ∧
          ∃ target, (draft.graph.line (lineAt scope statements place)).next = some target := by
  intro scope statements
  constructor
  · exact Watch.Lenient.writeOnce.compile? registry store script
  · intro count draft read
    have orderly := Draft.orderly_of_stepAll Draft.Orderly.empty read
    have keeps : ∀ id target, (draft.graph.line id).next = some target → ∀ rest after,
        Draft.empty.stepAll scope (statements.take count ++ rest) = .ok after →
          (after.graph.line id).next = some target := by
      intro id target linked rest after whole
      obtain ⟨middle, first, others⟩ := Draft.stepAll_append_eq_ok_iff.mp whole
      obtain rfl : draft = middle := Except.ok.inj (read.symm.trans first)
      exact Draft.next_of_stepAll orderly others linked
    constructor
    · exact ⟨orderly, (Draft.Extends.closeDialogue draft).orderly orderly⟩
    constructor
    · intro id target linked
      constructor
      · intro later after behind whole
        obtain ⟨more, rfl⟩ := Nat.exists_eq_add_of_le behind
        rw [List.take_add] at whole
        exact keeps id target linked _ after whole
      · intro graph compiled
        obtain ⟨final, whole, rfl⟩ := exists_draft_of_compile compiled
        apply Draft.next_closeDialogue
        apply keeps id target linked (statements.drop count) final
        rw [List.take_append_drop]
        exact whole
    · intro place marks marked positive within
      obtain ⟨target, leads⟩ := exists_next_of_marks read marked positive within
      exact ⟨orderly.not_waiting leads, target, leads⟩

/-- Two options of which the first leads back to the line above them. -/
def thereAndBack : List String :=
  ["- Hub", "A: root", "> ask", "\tA: well <-", "> stay", "\tA: fine", "A: bye"]

/-- The line that leads back does not wait once it has been read, and it leads to the same line in
the end.  The last line follows the one that waits behind the second option. -/
theorem writes_once_of_there_and_back :
    let statements := statementsOf thereAndBack
    let graph := compiledGraph hostless .empty thereAndBack
    let marked := draftAfter (scopeOf hostless .empty thereAndBack) statements 4
    let later := draftAfter (scopeOf hostless .empty thereAndBack) statements 6
    Watch.writeOnce.compile? hostless .empty thereAndBack =
        some (compile hostless .empty thereAndBack) ∧
      (1 ∉ marked.waiting ∧ (marked.graph.line 1).next = some 0 ∧
        (graph.line 1).next = some 0) ∧
      later.Orderly ∧ later.waiting = [2, 0] ∧ (graph.line 2).next = some 3 := by
  intro statements graph marked later
  have compiled : (compile hostless .empty thereAndBack).graph = .ok graph := by
    apply compile_eq_ok_compiledGraph
    decide +kernel
  obtain ⟨final, read, -⟩ := exists_draft_of_compile compiled
  obtain ⟨allowed, reads⟩ := writes_once_of_compile hostless .empty thereAndBack
  obtain ⟨-, keeps, leadBack⟩ := reads 4 marked (read_take read 4)
  obtain ⟨⟨orderly, -⟩, -⟩ := reads 6 later (read_take read 6)
  have marks : Marks statements 3 1 :=
    ⟨⟨4, 1, "A: well <-".toList, .speech⟩, ⟨"A", "well", "neutral", none, 1⟩,
      by decide +kernel, rfl, by decide +kernel, rfl⟩
  have line : lineAt (scopeOf hostless .empty thereAndBack) statements 3 = 1 := by decide +kernel
  have leads : (marked.graph.line 1).next = some 0 := by decide +kernel
  obtain ⟨settled, -⟩ := leadBack 3 1 marks (by decide) (by decide)
  rw [line] at settled
  exact ⟨allowed, ⟨settled, leads, (keeps 1 0 leads).2 graph compiled⟩, orderly,
    by decide +kernel, by decide +kernel⟩

/-! ## Loops over open nodes are exact -/

/-- After every statement the open nodes lie in the order of their indentations, none of them
deeper than the statement and no relay among the lines.  And wherever nodes are closed from the
top of a stack, exactly those beyond the bound are closed, whatever the order in the middle of a
statement. -/
theorem loops_exact_of_compile {σ : Type} (registry : Registry σ) (store : Store)
    (script : List String) :
    let scope := scopeOf registry store script
    let statements := statementsOf script
    (∀ place statement draft, statements[place]? = some statement →
      Draft.empty.stepAll scope (statements.take (place + 1)) = .ok draft →
        draft.Sorted ∧ draft.NoDeeper statement.indent) ∧
    Watch.exactLoops.compile? registry store script = some (compile registry store script) := by
  intro scope statements
  constructor
  · intro place statement draft found read
    rw [List.take_add_one, found, Option.toList_some] at read
    obtain ⟨before, first, last⟩ := Draft.stepAll_append_eq_ok_iff.mp read
    obtain ⟨after, stepped, same⟩ := Draft.stepAll_cons_eq_ok_iff.mp last
    cases same
    have tidy := Draft.Tidy.empty.stepAll first
    exact ⟨(tidy.step stepped).sorted, Draft.noDeeper_of_step tidy stepped⟩
  · exact Watch.Lenient.exactLoops.compile? registry store script

/-- A branch within an arm of another, and a line behind both. -/
def armWithinArm : List String :=
  ["- Hub", "A: root", "(if $met == true)", "\tA: again", "\t(if $known == true)", "\t\tA: friend",
    "A: bye"]

/-- The last line closes both branches.  The relay of the outer one then lies on top of that of
the inner one, which is deeper, but all that is left when the line has been read lies in order. -/
theorem loops_exact_of_arm_within_arm :
    let store := NameMap.ofList [("met", .boolean true), ("known", .boolean true)]
    let statements := statementsOf armWithinArm
    let before := draftAfter (scopeOf hostless store armWithinArm) statements 6
    let after := draftAfter (scopeOf hostless store armWithinArm) statements 7
    Watch.exactLoops.compile? hostless store armWithinArm =
        some (compile hostless store armWithinArm) ∧
      (statements[6]?.map fun bye => (before.roomFor bye).lines.map OpenNode.indent) =
        some [1, 2, 2, 1, 0] ∧
      (after.Sorted ∧ after.NoDeeper 0) ∧ after.lines.map OpenNode.indent = [0, 0] := by
  intro store statements before after
  have compiled : (compile hostless store armWithinArm).graph =
      .ok (compiledGraph hostless store armWithinArm) := by
    apply compile_eq_ok_compiledGraph
    decide +kernel
  obtain ⟨final, read, -⟩ := exists_draft_of_compile compiled
  obtain ⟨sorted, allowed⟩ := loops_exact_of_compile hostless store armWithinArm
  have found : statements[6]? = some ⟨7, 0, "A: bye".toList, .speech⟩ := by decide +kernel
  exact ⟨allowed, by decide +kernel, sorted 6 _ after found (read_take read 7),
    by decide +kernel⟩

end Parley
