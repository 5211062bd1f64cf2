import Parley.Proofs.Script.Edits

/-!
# Comments, idle lines and moved declarations

A script that has been edited compiles to the same graph and declares the same variables, or it
fails with the same fault, blamed on the same line at its new place.  The statements of the two
scripts differ in their numbers only, and the number of a statement plays no part in reading it.
-/

namespace Parley

open Parley.Script

/-- A diagnostic with its line at another place. -/
def Diagnostic.relocate (place : Nat → Nat) (diagnostic : Diagnostic) : Diagnostic :=
  { diagnostic with line := diagnostic.line.map place }

namespace Draft

/-- Numbers matter to diagnostics only. -/
theorem stepAll_renumber (place : Nat → Nat) (scope : Scope) (draft : Draft)
    (statements : List Statement) :
    draft.stepAll scope (statements.map (Statement.renumber place)) =
      (draft.stepAll scope statements).mapError (Diagnostic.relocate place) := by
  induction statements generalizing draft with
  | nil => rfl
  | cons statement rest ih =>
      have same : draft.step scope (statement.renumber place) = draft.step scope statement := rfl
      rw [List.map_cons, stepAll, stepAll, same]
      cases draft.step scope statement with
      | error fault => rfl
      | ok next => exact ih next

/-- No line is blamed for a script without dialogues. -/
theorem finish_relocate (place : Nat → Nat) (draft : Draft) :
    draft.finish = draft.finish.mapError (Diagnostic.relocate place) := by
  simp only [finish]
  split <;> rfl

end Draft

theorem graphOf_renumber (place : Nat → Nat) (scope : Scope) (statements : List Statement) :
    graphOf scope (statements.map (Statement.renumber place)) =
      (graphOf scope statements).mapError (Diagnostic.relocate place) := by
  rw [graphOf, graphOf, Draft.stepAll_renumber]
  cases Draft.empty.stepAll scope statements with
  | error diagnostic => rfl
  | ok draft => exact draft.finish_relocate place

/-- Edits change neither the variables nor the graph, and they move the blame for a fault along
with the line that it is put on.  Declarations of different variables may be rearranged in any way
by edits. -/
theorem compile_of_edits {σ : Type} (registry : Registry σ) (store : Store)
    (script edited : List String) :
    (∀ place, Edits place (script.map String.toList) (edited.map String.toList) →
      (compile registry store edited).store = (compile registry store script).store ∧
      (compile registry store edited).graph =
        (compile registry store script).graph.mapError (Diagnostic.relocate place) ∧
      ∀ raw number, (raw, number) ∈ (script.map String.toList).zipIdx 1 →
        ∃ comments, (raw ++ comments, place number) ∈ (edited.map String.toList).zipIdx 1) ∧
    (Rearranges (script.map String.toList) (edited.map String.toList) →
      ∃ place, Edits place (script.map String.toList) (edited.map String.toList)) := by
  refine ⟨fun place edits => ⟨edits.declare store, ?_, fun raw number => edits.stands⟩,
    fun rearranges => rearranges.exists_edits⟩
  simp only [compile]
  rw [edits.statements, edits.declare, graphOf_renumber]

/-- A comment and an empty line in front, a comment behind the declaration, whose value has slashes
of its own, and the declaration at the end: the fourth line is now the fifth.  That the declaration
may be moved there follows from its being the only one. -/
theorem compile_of_moved_declaration :
    let script := ["$site = \"a//b\"", "- D", "A: hi", "\t\tA: deep"]
    let edited := ["// D", "", "- D", "A: hi", "\t\tA: deep", "$site = \"a//b\" // site"]
    let moved := ["- D", "A: hi", "\t\tA: deep", "$site = \"a//b\""]
    let registry : Registry Unit := .builtin
    (compile registry .empty script).graph = .error ⟨.malformed .lineIndent, some 4⟩ ∧
      (compile registry .empty edited).graph = .error ⟨.malformed .lineIndent, some 5⟩ ∧
      (compile registry .empty edited).store = NameMap.ofList [("site", .text "a//b")] ∧
      ∃ place, Edits place (script.map String.toList) (moved.map String.toList) := by
  intro script edited moved registry
  let others := ["- D".toList, "A: hi".toList, "\t\tA: deep".toList]
  let declaration := "$site = \"a//b\" // site".toList
  have comment : Edits id (script.map String.toList) (declaration :: others) :=
    .comment [] others (by decide) (by decide) (by decide)
  have declares : Declares declaration "site" := ⟨.text "a//b", by decide +kernel⟩
  have apart : ∀ other ∈ others, ¬ Declares other "site" := by
    have undeclared : ∀ other ∈ others, Declaration.read? other = none := by decide +kernel
    rintro other member ⟨value, found⟩
    rw [undeclared other member] at found
    cases found
  have move : Edits (exchanged 0 1 3) (declaration :: others) (others ++ [declaration]) :=
    .moveDown [] others [] declares apart
  have blank : Edits (inserted 0) (others ++ [declaration]) ([] :: (others ++ [declaration])) :=
    .insert [] _ ⟨[], by simp, Or.inl rfl⟩
  have note : Edits (inserted 0) ([] :: (others ++ [declaration])) (edited.map String.toList) :=
    .insert [] _ ⟨[], by simp, Or.inr ⟨" D".toList, rfl⟩⟩
  obtain ⟨store, graph, -⟩ := (compile_of_edits registry .empty script edited).1 _
    (((comment.trans move).trans blank).trans note)
  have failed : (compile registry .empty script).graph =
      .error ⟨.malformed .lineIndent, some 4⟩ := by
    decide +kernel
  have declared : (compile registry .empty script).store =
      NameMap.ofList [("site", .text "a//b")] := by
    decide +kernel
  have rearranged := (compile_of_edits registry .empty script moved).2
    ⟨by decide +kernel, by decide +kernel, by decide +kernel⟩
  refine ⟨failed, ?_, store.trans declared, rearranged⟩
  rw [graph, failed]
  rfl

end Parley
