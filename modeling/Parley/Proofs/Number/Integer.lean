import Parley.Number.Integer

/-!
# Integers are read back

The decimal text of an integer of 64 bits is read as that integer.
-/

namespace Parley.Number

theorem ofDigits_natDigits (number : Nat) : ofDigits (natDigits number) = number := by
  have read := Nat.ofDigitChars_toDigits (b := 10) (n := number) (by decide) (by decide)
  rwa [Nat.ofDigitChars_eq_foldl] at read

theorem isDigit_of_mem_natDigits {number : Nat} {c : Char} (member : c ∈ natDigits number) :
    c.isDigit = true :=
  Nat.isDigit_of_mem_toDigits (by decide) (by decide) member

theorem readNat?_natDigits (number : Nat) : readNat? (natDigits number) = some number := by
  have digits : (natDigits number).all Char.isDigit = true :=
    List.all_eq_true.mpr fun _ => isDigit_of_mem_natDigits
  rw [readNat?, if_pos ⟨Nat.toDigits_ne_nil, digits⟩, ofDigits_natDigits]

/-- Digits carry no sign. -/
theorem takeSign_natDigits (number : Nat) :
    takeSign (natDigits number) = (false, natDigits number) := by
  have unsigned : ∀ c rest, natDigits number = c :: rest → c.isDigit = true :=
    fun c rest same => isDigit_of_mem_natDigits (same ▸ List.mem_cons_self)
  unfold takeSign
  split
  · rename_i rest same
    cases unsigned _ _ same
  · rename_i rest same
    cases unsigned _ _ same
  · rfl

theorem readInteger?_integerText (number : Int) :
    readInteger? (integerText number) = some number := by
  unfold integerText
  split
  · rename_i negative
    simp only [readInteger?, takeSign, readNat?_natDigits, Option.map_some, if_true]
    congr 1
    omega
  · rename_i positive
    simp only [readInteger?, takeSign_natDigits, readNat?_natDigits, Option.map_some]
    congr 1
    simp only [Bool.false_eq_true, if_false]
    omega

theorem readInt64?_integerText (number : Int64) :
    readInt64? (integerText number.toInt) = some number := by
  have within : Int64.minValue.toInt ≤ number.toInt ∧ number.toInt ≤ Int64.maxValue.toInt :=
    ⟨Int64.toInt_minValue ▸ number.le_toInt, number.toInt_le⟩
  rw [readInt64?, readInteger?_integerText]
  exact (if_pos within).trans (congrArg some (Int64.ofInt_toInt number))

/-- The text of an integer is digits, behind a minus or not. -/
theorem mem_integerText {number : Int} {c : Char} (member : c ∈ integerText number) :
    c = '-' ∨ c.isDigit = true := by
  unfold integerText at member
  split at member
  · rcases List.mem_cons.mp member with rfl | digit
    · exact Or.inl rfl
    · exact Or.inr (isDigit_of_mem_natDigits digit)
  · exact Or.inr (isDigit_of_mem_natDigits member)

theorem integerText_ne_nil (number : Int) : integerText number ≠ [] := by
  unfold integerText
  split
  · exact List.cons_ne_nil _ _
  · exact Nat.toDigits_ne_nil

/-- Nothing but signs and digits is read as an integer. -/
theorem sign_or_digit_of_readInteger? {text : Text.Chars} {number : Int}
    (read : readInteger? text = some number) :
    ∀ c ∈ text, c = '-' ∨ c = '+' ∨ c.isDigit = true := by
  obtain ⟨magnitude, found, -⟩ := Option.map_eq_some_iff.mp read
  obtain ⟨-, digits⟩ := digits_of_readNat? found
  intro c member
  exact (mem_takeSign member).imp_right (Or.imp_right (digits c))

end Parley.Number
