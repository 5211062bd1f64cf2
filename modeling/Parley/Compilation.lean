import Parley.Draft.Step

/-!
# Compiling a script

Compiling first registers the declared variables, wherever they stand, and then
reads the statements in order into a draft.  The first one that cannot be read
is blamed for the failure by its line.  A script without any dialogue is no script,
and no line is to blame for that.  The variables are registered whether or not
the rest succeeds.
-/

namespace Parley

open Parley.Script

namespace Draft

/-- Read statements in order, up to the first that cannot be read. -/
def stepAll (scope : Scope) : Draft → List Statement → Except Diagnostic Draft
  | draft, [] => .ok draft
  | draft, statement :: rest =>
      match draft.step scope statement with
      | .error fault => .error ((Diagnostic.ofFault fault).atLine statement.number)
      | .ok next => next.stepAll scope rest

/-- The graph of a draft to which nothing is added any more. -/
def finish (draft : Draft) : Except Diagnostic Graph :=
  let graph := draft.closeDialogue.graph
  if graph.entries.isEmpty then .error (Diagnostic.ofFault .emptyScript) else .ok graph

/-- Reading statements is reading the first of them and then the others. -/
theorem stepAll_append (scope : Scope) (draft : Draft) (first second : List Statement) :
    draft.stepAll scope (first ++ second) =
      match draft.stepAll scope first with
      | .error diagnostic => .error diagnostic
      | .ok middle => middle.stepAll scope second := by
  induction first generalizing draft with
  | nil => rfl
  | cons statement first ih =>
      simp only [List.cons_append, stepAll]
      cases draft.step scope statement with
      | error fault => rfl
      | ok next => exact ih next

end Draft

/-- The graph of statements in a scope. -/
def graphOf (scope : Scope) (statements : List Statement) : Except Diagnostic Graph :=
  Draft.empty.stepAll scope statements >>= Draft.finish

/-- The outcome of compiling a script. -/
structure Compilation where
  /-- The variables after the declarations of the script. -/
  store : Store
  graph : Except Diagnostic Graph

/-- Compile the lines of a script against commands and variables. -/
def compile {σ : Type} (registry : Registry σ) (store : Store) (script : List String) :
    Compilation :=
  let lines := script.map String.toList
  let declared := declare store lines
  ⟨declared, graphOf (Scope.ofWorld registry declared) (Statement.all lines)⟩

end Parley
