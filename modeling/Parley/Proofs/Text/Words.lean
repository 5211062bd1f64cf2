import Parley.Proofs.Text.Groups
import Parley.Proofs.Text.Trimming
import Parley.Text.CharacterClass

/-!
# Characters of names and numbers

The characters that a name may hold are none of those that separate things: no blanks, no
quotes, no parentheses and none of the marks between arguments, calls and operands.  Nor are
the characters of a number.
-/

namespace Parley.Text

/-- What can be evaluated for each item of a list holds for all of them. -/
theorem forall_mem_of_all {α : Type} {p : α → Prop} [DecidablePred p] {items : List α}
    (each : items.all (fun item => p item) = true) : ∀ item ∈ items, p item :=
  fun item member => of_decide_eq_true (List.all_eq_true.mp each item member)

/-- The code points of the blanks. -/
def blankCodes : List Nat := [
  9, 10, 11, 12, 13, 0x20, 0x85, 0xA0, 0x1680, 0x2000, 0x2001, 0x2002, 0x2003, 0x2004, 0x2005,
  0x2006, 0x2007, 0x2008, 0x2009, 0x200A, 0x2028, 0x2029, 0x202F, 0x205F, 0x3000]

/-- The marks that stand between the parts of a call. -/
def separators : List Char := ['"', '(', ')', ',', ';', '=', '!', '<', '>']

theorem mem_blankCodes_of_isBlank {c : Char} (blank : isBlank c = true) :
    c.toNat ∈ blankCodes := by
  simp only [isBlank, Bool.or_eq_true, Bool.and_eq_true, decide_eq_true_eq, beq_iff_eq] at blank
  simp only [blankCodes, List.mem_cons, List.not_mem_nil, or_false]
  omega

/-- Neither the blanks nor the separators are in the tables of word characters. -/
theorem toNat_not_mem_of_isWord {c : Char} (word : isWord c = true) :
    c.toNat ∉ blankCodes ++ separators.map Char.toNat := by
  have others : ∀ code ∈ blankCodes ++ separators.map Char.toNat,
      (covers alphabetic code || covers mark code || covers decimalNumber code ||
        covers connector code || covers joinControl code) = false := by
    decide +kernel
  intro member
  rw [isWord, others _ member] at word
  cases word

theorem isBlank_eq_false_of_isWord {c : Char} (word : isWord c = true) : isBlank c = false := by
  rcases blank : isBlank c with _ | _
  · rfl
  · exact absurd (List.mem_append_left _ (mem_blankCodes_of_isBlank blank))
      (toNat_not_mem_of_isWord word)

theorem not_mem_separators_of_isWord {c : Char} (word : isWord c = true) : c ∉ separators :=
  fun member => toNat_not_mem_of_isWord word
    (List.mem_append_right _ (List.mem_map_of_mem member))

theorem isBlank_eq_false_of_isDigit {c : Char} (digit : c.isDigit = true) :
    isBlank c = false := by
  rcases blank : isBlank c with _ | _
  · rfl
  · have others : ∀ code ∈ blankCodes, code < 48 ∨ 57 < code := by decide
    have apart := others _ (mem_blankCodes_of_isBlank blank)
    have within : 48 ≤ c.toNat ∧ c.toNat ≤ 57 := Char.isDigit_iff_toNat.mp digit
    omega

theorem not_mem_separators_of_isDigit {c : Char} (digit : c.isDigit = true) :
    c ∉ separators := by
  have others : ∀ mark ∈ separators, mark.isDigit = false := forall_mem_of_all (by decide)
  intro member
  rw [others c member] at digit
  cases digit

/-- A run of characters ends where another one follows. -/
theorem takeWhile_append_of_stop {p : Char → Bool} {run rest : Chars}
    (runs : ∀ c ∈ run, p c = true) (stops : ∀ c ∈ rest.head?, p c = false) :
    (run ++ rest).takeWhile p = run ∧ (run ++ rest).dropWhile p = rest := by
  obtain ⟨taken, left⟩ := takeWhile_append_of_head [] stops
  have none : rest.takeWhile p = [] := taken
  rw [List.takeWhile_append_of_pos runs, List.dropWhile_append_of_pos runs, none, List.append_nil]
  exact ⟨rfl, left⟩

/-! ## Flat characters -/

theorem isFlat_of_not_mem_separators {c : Char} (other : c ∉ separators) : isFlat c = true := by
  refine isFlat_iff.mpr ⟨?_, ?_, ?_⟩ <;> rintro rfl <;> exact other (by decide)

theorem isFlat_of_isWord {c : Char} (word : isWord c = true) : isFlat c = true :=
  isFlat_of_not_mem_separators (not_mem_separators_of_isWord word)

theorem isFlat_of_isBlank {c : Char} (blank : isBlank c = true) : isFlat c = true := by
  refine isFlat_iff.mpr ⟨?_, ?_, ?_⟩ <;> rintro rfl <;> cases blank

theorem isFlat_of_isDigit {c : Char} (digit : c.isDigit = true) : isFlat c = true := by
  refine isFlat_iff.mpr ⟨?_, ?_, ?_⟩ <;> rintro rfl <;> cases digit

end Parley.Text
