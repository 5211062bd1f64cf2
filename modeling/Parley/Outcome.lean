/-!
# Outcomes

What may fail gives an `Except`.  Several things are done in order, up to the
first that fails: two of them by a bind, the items of a list by `List.mapM`.
The lemmas here say when such a sequence succeeds and what it then gives.
-/

namespace Parley

variable {ε α β : Type}

/-- Outcomes can be compared where faults and results can. -/
instance instDecidableEqExcept [DecidableEq ε] [DecidableEq α] : DecidableEq (Except ε α)
  | .ok first, .ok second => decidable_of_iff (first = second) (by simp)
  | .error first, .error second => decidable_of_iff (first = second) (by simp)
  | .ok _, .error _ => isFalse nofun
  | .error _, .ok _ => isFalse nofun

/-- After a success comes what follows it. -/
theorem ok_bind (produced : α) (next : α → Except ε β) :
    (Except.ok produced >>= next) = next produced :=
  rfl

/-- A sequence of two succeeds exactly when both do. -/
theorem bind_eq_ok_iff {first : Except ε α} {next : α → Except ε β} {result : β} :
    first >>= next = .ok result ↔
      ∃ produced, first = .ok produced ∧ next produced = .ok result := by
  cases first with
  | error fault => simp [bind, Except.bind]
  | ok produced => simp [bind, Except.bind]

/-- What a success would give does not matter to a failure. -/
theorem map_eq_error_iff {change : α → β} {outcome : Except ε α} {fault : ε} :
    outcome.map change = .error fault ↔ outcome = .error fault := by
  cases outcome <;> simp [Except.map]

/-- The items of a list succeed exactly when the first and the others do. -/
theorem mapM_cons_eq_ok_iff {f : α → Except ε β} {item : α} {rest : List α} {results : List β} :
    (item :: rest).mapM f = .ok results ↔
      ∃ first others, f item = .ok first ∧ rest.mapM f = .ok others ∧
        first :: others = results := by
  rw [List.mapM_cons]
  constructor
  · intro done
    obtain ⟨first, found, done⟩ := bind_eq_ok_iff.1 done
    obtain ⟨others, foundRest, same⟩ := bind_eq_ok_iff.1 done
    exact ⟨first, others, found, foundRest, Except.ok.inj same⟩
  · rintro ⟨first, others, found, foundRest, rfl⟩
    exact bind_eq_ok_iff.2 ⟨first, found, bind_eq_ok_iff.2 ⟨others, foundRest, rfl⟩⟩

/-- There are as many results as items. -/
theorem length_of_mapM_eq_ok {f : α → Except ε β} {items : List α} {results : List β}
    (done : items.mapM f = .ok results) : results.length = items.length := by
  induction items generalizing results with
  | nil =>
      cases done
      rfl
  | cons item rest ih =>
      obtain ⟨first, others, _, foundRest, rfl⟩ := mapM_cons_eq_ok_iff.1 done
      simp [ih foundRest]

/-- Each item gives one of the results. -/
theorem exists_of_mapM_eq_ok {f : α → Except ε β} {items : List α} {results : List β}
    (done : items.mapM f = .ok results) :
    ∀ item ∈ items, ∃ result, f item = .ok result ∧ result ∈ results := by
  induction items generalizing results with
  | nil => simp
  | cons item rest ih =>
      obtain ⟨first, others, found, foundRest, rfl⟩ := mapM_cons_eq_ok_iff.1 done
      intro other member
      rcases List.mem_cons.1 member with rfl | member
      · exact ⟨first, found, List.mem_cons_self⟩
      · obtain ⟨result, read, among⟩ := ih foundRest other member
        exact ⟨result, read, List.mem_cons_of_mem _ among⟩

end Parley
