import Parley.Outcome
import Parley.Placeholder

/-!
# Texts that cannot be filled in

Filling in the placeholders of a text fails for one reason only: one of them names
a variable that is not defined.
-/

namespace Parley

/-- Where the items of a list do not all succeed, one of them fails alike. -/
theorem exists_of_mapM_eq_error {ε α β : Type} {f : α → Except ε β} {items : List α} {fault : ε}
    (failed : items.mapM f = .error fault) : ∃ item ∈ items, f item = .error fault := by
  induction items with
  | nil => cases failed
  | cons item rest ih =>
      rw [List.mapM_cons] at failed
      rcases first : f item with other | value
      · rw [first] at failed
        cases failed
        exact ⟨item, List.mem_cons_self, first⟩
      · rw [first] at failed
        rcases others : rest.mapM f with other | values
        · rw [others] at failed
          cases failed
          obtain ⟨found, member, foundFails⟩ := ih others
          exact ⟨found, List.mem_cons_of_mem _ member, foundFails⟩
        · rw [others] at failed
          cases failed

namespace Placeholder

/-- A piece that cannot be filled in is a placeholder for an undefined variable. -/
theorem Piece.fill_eq_error {store : Store} {piece : Piece} {fault : Fault}
    (failed : piece.fill store = .error fault) :
    ∃ name, fault = .undefinedVariable name ∧ piece = .reference name ∧
      store.get? name = none := by
  cases piece with
  | plain c => cases failed
  | reference name =>
      simp only [Piece.fill, Store.read] at failed
      rcases found : store.get? name with _ | value
      · rw [found] at failed
        cases failed
        exact ⟨name, rfl, rfl, found⟩
      · rw [found] at failed
        cases failed

end Placeholder

/-- A text that cannot be filled in has a placeholder for an undefined variable. -/
theorem fillPlaceholders_eq_error {store : Store} {text : String} {fault : Fault}
    (failed : fillPlaceholders store text = .error fault) :
    ∃ name, fault = .undefinedVariable name ∧
      Placeholder.Piece.reference name ∈ Placeholder.pieces text.toList ∧
      store.get? name = none := by
  simp only [fillPlaceholders, Placeholder.fill] at failed
  rcases filled : (Placeholder.pieces text.toList).mapM (Placeholder.Piece.fill store) with
    other | texts
  · rw [filled] at failed
    cases failed
    obtain ⟨piece, member, pieceFails⟩ := exists_of_mapM_eq_error filled
    obtain ⟨name, rfl, rfl, undefined⟩ := Placeholder.Piece.fill_eq_error pieceFails
    exact ⟨name, rfl, member, undefined⟩
  · rw [filled] at failed
    cases failed

end Parley
