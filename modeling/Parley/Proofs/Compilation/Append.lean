import Parley.Proofs.Compilation.Sound
import Parley.Proofs.Draft.Borders

/-!
# Dialogues compile independently

Two scripts without declarations of variables and without a common title compile one behind
the other to the graphs of both, the second behind the first.  Nothing that the first script leaves
open reaches into the second, and no link crosses the border of a dialogue.
-/

namespace Parley

open Parley.Script

/-- Without declarations the variables stay what they are. -/
theorem declare_of_undeclared {store : Store} {script : List Text.Chars}
    (undeclared : ∀ raw ∈ script, Declaration.read? raw = none) :
    declare store script = store := by
  have none : Declaration.all script = [] := List.filterMap_eq_nil_iff.mpr undeclared
  rw [declare, none]
  rfl

/-- The scope of a script without declarations is that of its host. -/
theorem scopeOf_of_undeclared {σ : Type} {registry : Registry σ} {store : Store}
    {script : List String} (undeclared : ∀ raw ∈ script, Declaration.read? raw.toList = none) :
    scopeOf registry store script = Scope.ofWorld registry store := by
  apply congrArg (Scope.ofWorld registry)
  apply declare_of_undeclared
  intro raw member
  obtain ⟨line, isLine, rfl⟩ := List.mem_map.mp member
  exact undeclared line isLine

/-- Nothing but a declaration of a dialogue can be read first. -/
theorem construct_of_step_empty {scope : Scope} {statement : Statement} {after : Draft}
    (read : Draft.empty.step scope statement = .ok after) : statement.construct = .dialogue := by
  have closed : Draft.empty.closeDeepBranches statement.indent = Draft.empty := rfl
  unfold Draft.step at read
  rw [closed] at read
  rcases construct : statement.construct
  case dialogue => rfl
  all_goals simp only [construct] at read
  case option =>
    obtain ⟨option, commands, conditions, root, -, -, -, found, -⟩ :=
      Draft.stepOption_eq_ok_iff.mp read
    cases found
  case ifArm =>
    obtain ⟨title, source, conditions, current, -⟩ := Draft.stepIfArm_eq_ok_iff.mp read
    cases current
  case elseArm =>
    obtain ⟨source, branch, conditions, -, found, -⟩ := Draft.stepElseArm_eq_ok_iff.mp read
    cases found
  case speech =>
    obtain ⟨title, speech, commands, attached, directed, current, -⟩ :=
      Draft.stepSpeech_eq_ok_iff.mp read
    cases current

/-- A map that is not empty has a value. -/
theorem NameMap.exists_of_isEmpty_eq_false {α : Type} {map : NameMap α}
    (populated : map.isEmpty = false) : ∃ name value, map.get? name = some value := by
  rw [isEmpty] at populated
  rcases stored : map.entries with _ | ⟨entry, rest⟩
  · rw [stored] at populated
    cases populated
  · refine ⟨entry.1, entry.2, ?_⟩
    rw [get?, stored, lookup, if_pos rfl]

/-- What can be read behind nothing can be read behind a script without a common title. -/
theorem stepAll_append_of_apart {scope : Scope} {first second : List Statement}
    {begun alone : Draft} (readFirst : Draft.empty.stepAll scope first = .ok begun)
    (readSecond : Draft.empty.stepAll scope second = .ok alone) (some : second ≠ [])
    (apart : ∀ title ∈ Draft.titlesOf first, title ∉ Draft.titlesOf second) :
    Draft.empty.stepAll scope (first ++ second) =
      .ok (alone.onto begun.closeDialogue.graph begun.declared) := by
  rcases second with _ | ⟨statement, rest⟩
  · exact absurd rfl some
  obtain ⟨middle, readTitle, -⟩ := Draft.stepAll_cons_eq_ok_iff.mp readSecond
  have new : ∀ title ∈ Draft.titlesOf (statement :: rest), title ∉ begun.declared := by
    intro title later earlier
    rw [Draft.declared_of_stepAll readFirst] at earlier
    rcases List.mem_append.mp earlier with earlier | none
    · exact apart title (List.mem_reverse.mp earlier) later
    · cases none
  refine Draft.stepAll_append_eq_ok_iff.mpr ⟨begun, readFirst, ?_⟩
  rw [Draft.stepAll_dialogue (construct_of_step_empty readTitle) new, readSecond]
  rfl

variable {σ : Type} {registry : Registry σ} {store : Store} {first second : List String}
  {firstGraph secondGraph : Graph}

/-- The statements of one script behind another are those of both, but for the numbers of
their lines. -/
theorem exists_statementsOf_append (first second : List String) :
    ∃ later, statementsOf (first ++ second) = statementsOf first ++ later ∧
      (statementsOf second).map Draft.unnumbered = later.map Draft.unnumbered := by
  refine ⟨Statement.allFrom (1 + (first.map String.toList).length) (second.map String.toList), ?_,
    Draft.allFrom_unnumbered _ _ _⟩
  rw [statementsOf, List.map_append]
  exact Statement.allFrom_append 1 _ _

/-- A graph that is compiled has an entry, and each of its entries has a title of the script. -/
theorem entries_of_compile (compiled : (compile registry store first).graph = .ok firstGraph) :
    (∃ title line, firstGraph.entries.get? title = some line) ∧
    ∀ title line, firstGraph.entries.get? title = some line →
      title ∈ Draft.titlesOf (statementsOf first) := by
  obtain ⟨final, read, finished⟩ := bind_eq_ok_iff.mp compiled
  obtain ⟨rfl, populated⟩ := Draft.finish_eq_ok_iff.mp finished
  refine ⟨NameMap.exists_of_isEmpty_eq_false populated, fun title line found => ?_⟩
  have entries := Draft.closeDialogue_keeps (fun draft => draft.graph.entries)
    Draft.entries_completeBranch final
  have declared := (Draft.Titled.empty.stepAll read).entered title line (entries ▸ found)
  rw [Draft.declared_of_stepAll read] at declared
  rcases List.mem_append.mp declared with member | none
  · exact List.mem_reverse.mp member
  · cases none

/-- Two scripts that can be read can be read one behind the other. -/
theorem exists_read_append
    (undeclared : ∀ raw ∈ first ++ second, Declaration.read? raw.toList = none)
    (apart : ∀ title ∈ Draft.titlesOf (statementsOf first),
      title ∉ Draft.titlesOf (statementsOf second))
    (compiledFirst : (compile registry store first).graph = .ok firstGraph)
    (compiledSecond : (compile registry store second).graph = .ok secondGraph) :
    ∃ both, Draft.empty.stepAll (scopeOf registry store (first ++ second))
        (statementsOf (first ++ second)) = .ok both ∧
      both.closeDialogue.graph = firstGraph.append secondGraph := by
  obtain ⟨⟨title, line, entry⟩, titles⟩ := entries_of_compile compiledSecond
  obtain ⟨begun, readFirst, rfl⟩ := exists_draft_of_compile compiledFirst
  obtain ⟨alone, readAlone, rfl⟩ := exists_draft_of_compile compiledSecond
  obtain ⟨later, cut, same⟩ := exists_statementsOf_append first second
  have readLater := Draft.stepAll_eq_ok_of_unnumbered same readAlone
  rw [scopeOf_of_undeclared fun raw member => undeclared raw (List.mem_append_left second member)]
    at readFirst
  rw [scopeOf_of_undeclared fun raw member => undeclared raw (List.mem_append_right first member)]
    at readLater
  have titlesLater : Draft.titlesOf later = Draft.titlesOf (statementsOf second) := by
    rw [← Draft.titlesOf_unnumbered, ← same, Draft.titlesOf_unnumbered]
  have some : later ≠ [] := by
    rintro rfl
    have member := titles title line entry
    rw [← titlesLater] at member
    cases member
  refine ⟨alone.onto begun.closeDialogue.graph begun.declared, ?_,
    congrArg Draft.graph (Draft.onto_closeDialogue _ _ alone)⟩
  rw [scopeOf_of_undeclared undeclared, cut]
  exact stepAll_append_of_apart readFirst readLater some
    fun title member => titlesLater ▸ apart title member

/-- Two scripts that compile also compile one behind the other, if they declare no variables and
have no title in common.  The graph is that of the first with the nodes of the second behind its
own; each dialogue begins where it began; and no link crosses from one script to the other or, in
either of them, from one dialogue to another. -/
theorem compile_append
    (undeclared : ∀ raw ∈ first ++ second, Declaration.read? raw.toList = none)
    (apart : ∀ title ∈ Draft.titlesOf (statementsOf first),
      title ∉ Draft.titlesOf (statementsOf second))
    (compiledFirst : (compile registry store first).graph = .ok firstGraph)
    (compiledSecond : (compile registry store second).graph = .ok secondGraph) :
    let union := firstGraph.append secondGraph
    let statements := statementsOf (first ++ second)
    (compile registry store (first ++ second)).graph = .ok union ∧
    (∀ title, firstGraph.entries.get? title = none ∨ secondGraph.entries.get? title = none) ∧
    (∀ title, union.entries.get? title = (firstGraph.entries.get? title).or
      ((secondGraph.entries.get? title).map (firstGraph.lines.size + ·))) ∧
    union.PartsAt firstGraph.lines.size ∧
    ∀ place, constructAt statements place = some .dialogue →
      union.PartsAt (draftAfter (scopeOf registry store (first ++ second)) statements
        (place + 1)).graph.lines.size := by
  intro union statements
  obtain ⟨-, firstTitles⟩ := entries_of_compile compiledFirst
  obtain ⟨⟨title, line, entry⟩, secondTitles⟩ := entries_of_compile compiledSecond
  obtain ⟨both, read, same⟩ := exists_read_append undeclared apart compiledFirst compiledSecond
  have graph : both.closeDialogue.graph = union := same
  have disjoint : ∀ title, firstGraph.entries.get? title = none ∨
      secondGraph.entries.get? title = none := by
    intro title
    rcases inFirst : firstGraph.entries.get? title with _ | firstLine
    · exact Or.inl rfl
    rcases inSecond : secondGraph.entries.get? title with _ | secondLine
    · exact Or.inr rfl
    exact absurd (secondTitles title secondLine inSecond)
      (apart title (firstTitles title firstLine inFirst))
  refine ⟨?_, disjoint, fun title => Graph.entries_append_of_disjoint _ _ (disjoint title), ?_, ?_⟩
  · show Draft.empty.stepAll (scopeOf registry store (first ++ second)) statements >>=
      Draft.finish = _
    rw [read]
    have populated : both.closeDialogue.HasEntry := by
      refine ⟨title, firstGraph.lines.size + line, ?_⟩
      rw [graph, Graph.entries_append, entry]
      rfl
    exact Draft.finish_eq_ok_iff.mpr ⟨graph.symm, graph ▸ populated.isEmpty_eq_false⟩
  · obtain ⟨begun, readFirst, rfl⟩ := exists_draft_of_compile compiledFirst
    obtain ⟨alone, readSecond, rfl⟩ := exists_draft_of_compile compiledSecond
    exact Graph.partsAt_append (within_of_stepAll readFirst) (within_of_stepAll readSecond)
  · intro place begins
    rw [← graph]
    exact partsAt_of_dialogue read begins

/-- A dialogue that ends within an arm of a branch within an option. -/
def endsWithinArm : List String :=
  ["- D", "A: root", "> go", "\tA: inner", "\t(if 1 == 1)", "\t\tA: deep"]

/-- A dialogue with an option that has no body. -/
def withOption : List String :=
  ["- E", "B: hello", "> so", "B: bye"]

/-- What the first dialogue leaves open does not reach into the second, which begins behind its
lines. -/
theorem compile_append_of_ends_within_arm :
    let before := compiledGraph hostless .empty endsWithinArm
    let behind := compiledGraph hostless .empty withOption
    (compile hostless .empty (endsWithinArm ++ withOption)).graph = .ok (before.append behind) ∧
      (before.append behind).entries.get? "E" = some before.lines.size ∧
      (before.append behind).PartsAt before.lines.size := by
  intro before behind
  have compiledBefore : (compile hostless .empty endsWithinArm).graph = .ok before := by
    apply compile_eq_ok_compiledGraph
    decide +kernel
  have compiledBehind : (compile hostless .empty withOption).graph = .ok behind := by
    apply compile_eq_ok_compiledGraph
    decide +kernel
  obtain ⟨compiled, -, entries, apart, -⟩ :=
    compile_append (by decide +kernel) (by decide +kernel) compiledBefore compiledBehind
  have first : before.entries.get? "E" = none := by decide +kernel
  have second : behind.entries.get? "E" = some 0 := by decide +kernel
  refine ⟨compiled, ?_, apart⟩
  rw [entries, first, second]
  rfl

end Parley
