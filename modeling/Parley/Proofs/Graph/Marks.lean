import Parley.Graph.Follow
import Parley.Proofs.Graph.Change

/-!
# Graphs that differ in what has been chosen

Making a choice remembers of it that it was made.  Nothing else in a graph ever changes while it
is played.
-/

namespace Parley

/-- Two graphs that differ at most in which choices have been made. -/
structure Graph.Remembers (before after : Graph) : Prop where
  entries : after.entries = before.entries
  lines : after.lines = before.lines
  branches : after.branches = before.branches
  size : after.choices.size = before.choices.size
  choice : ∀ id, ∃ selected, after.choice id = { before.choice id with selected := selected }

namespace Graph.Remembers

variable {before middle after : Graph}

theorem refl (graph : Graph) : graph.Remembers graph where
  entries := rfl
  lines := rfl
  branches := rfl
  size := rfl
  choice id := ⟨(graph.choice id).selected, rfl⟩

theorem of_eq (same : after = before) : before.Remembers after :=
  same ▸ refl before

theorem trans (early : before.Remembers middle) (late : middle.Remembers after) :
    before.Remembers after where
  entries := late.entries.trans early.entries
  lines := late.lines.trans early.lines
  branches := late.branches.trans early.branches
  size := late.size.trans early.size
  choice id := by
    obtain ⟨first, sameFirst⟩ := early.choice id
    obtain ⟨second, sameSecond⟩ := late.choice id
    exact ⟨second, by rw [sameSecond, sameFirst]⟩

theorem markSelected (graph : Graph) (made : ChoiceIndex) :
    graph.Remembers (graph.markSelected made) where
  entries := rfl
  lines := rfl
  branches := rfl
  size := graph.size_choices_modifyChoice made _
  choice id := by
    rw [Graph.markSelected, choice_modifyChoice_eq]
    split
    · exact ⟨true, rfl⟩
    · exact ⟨_, rfl⟩

theorem line (same : before.Remembers after) (id : LineIndex) : after.line id = before.line id :=
  line_congr same.lines id

theorem branch (same : before.Remembers after) (id : BranchIndex) :
    after.branch id = before.branch id :=
  branch_congr same.branches id

end Graph.Remembers

namespace Graph

variable {σ : Type} (graph : Graph) (registry : Registry σ) (choice : ChoiceIndex)
  (world : World σ)

/-- A choice is marked, or nothing in the graph changes. -/
theorem select_graph :
    (graph.select registry choice world).graph = graph ∨
      (graph.select registry choice world).graph = graph.markSelected choice := by
  simp only [select]
  split
  · exact Or.inl rfl
  · exact Or.inr rfl

/-- Making a choice remembers it at most. -/
theorem remembers_select : graph.Remembers (graph.select registry choice world).graph := by
  rcases graph.select_graph registry choice world with same | marked
  · exact .of_eq same
  · rw [marked]
    exact .markSelected graph choice

end Graph

end Parley
