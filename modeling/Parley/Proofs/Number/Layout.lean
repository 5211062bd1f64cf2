import Parley.Number.Layout
import Parley.Proofs.Number.Shortest
import Parley.Proofs.Text.Words

/-!
# Layouts are read back

Every layout in use writes a finite number in such a way that reading the text gives the number
again: neither the zeros that are taken off the digits, nor those that fill up a positional text,
nor an exponent change the magnitude that is read.
-/

namespace Parley.Number

open Parley.Text

/-! ## Digits -/

theorem ofDigits_append (digits more : Chars) :
    ofDigits (digits ++ more) = ofDigits digits * 10 ^ more.length + ofDigits more := by
  have chars : ∀ text, ofDigits text = Nat.ofDigitChars 10 text 0 :=
    fun _ => Nat.ofDigitChars_eq_foldl.symm
  rw [chars, chars, chars, Nat.ofDigitChars_append, Nat.ofDigitChars_eq_ofDigitChars_zero,
    Nat.mul_comm]

theorem ofDigits_replicate_zero (count : Nat) : ofDigits (List.replicate count '0') = 0 := by
  have zeros : Nat.ofDigitChars 10 (List.replicate count '0') 0 = 10 ^ count * 0 :=
    Nat.ofDigitChars_replicate_zero
  rwa [Nat.ofDigitChars_eq_foldl, Nat.mul_zero] at zeros

/-- Zeros before the other digits count nothing. -/
theorem ofDigits_zeros_append (count : Nat) (digits : Chars) :
    ofDigits (List.replicate count '0' ++ digits) = ofDigits digits := by
  rw [ofDigits_append, ofDigits_replicate_zero, Nat.zero_mul, Nat.zero_add]

/-- Zeros behind the other digits count as powers of ten. -/
theorem ofDigits_append_zeros (digits : Chars) (count : Nat) (exponent : Int) :
    (ofDigits (digits ++ List.replicate count '0') : ℚ) * (10 : ℚ) ^ exponent =
      ofDigits digits * (10 : ℚ) ^ (exponent + count) := by
  rw [ofDigits_append, ofDigits_replicate_zero, List.length_replicate, Nat.add_zero,
    zpow_add₀ (by norm_num), zpow_natCast]
  push_cast
  ring

theorem isDigit_of_mem_zeros {count : Nat} {c : Char} (member : c ∈ List.replicate count '0') :
    c.isDigit = true := by
  rw [List.eq_of_mem_replicate member]
  rfl

/-! ## Numerals -/

/-- A text without a sign is read as a certain magnitude, and behind a minus as the negative
number of that magnitude. -/
def Spells (text : Chars) (magnitude : ℚ) : Prop :=
  ∃ digits exponent,
    (∀ negative, Decimal.read? (if negative then '-' :: text else text) =
      some ⟨negative, digits, exponent⟩) ∧
    (digits : ℚ) * (10 : ℚ) ^ exponent = magnitude

section Numerals

variable {whole fraction tail : Chars} {exponent : Int}

/-- A text that begins with a digit has no sign. -/
theorem takeSign_signed (nonempty : whole ≠ []) (digits : ∀ c ∈ whole, c.isDigit = true)
    (negative : Bool) (rest : Chars) :
    takeSign (if negative then '-' :: (whole ++ rest) else whole ++ rest) =
      (negative, whole ++ rest) := by
  cases negative with
  | true => rfl
  | false =>
      cases whole with
      | nil => exact absurd rfl nonempty
      | cons first others =>
          have digit := digits first List.mem_cons_self
          simp only [Bool.false_eq_true, if_false, List.cons_append]
          unfold takeSign
          split
          · rename_i rest same
            cases same
            cases digit
          · rename_i rest same
            cases same
            cases digit
          · rfl

/-- What may follow the digits of a numeral begins with no digit and no point. -/
theorem head_of_readExponent? (read : Decimal.readExponent? tail = some exponent) :
    ∀ c ∈ tail.head?, c.isDigit = false ∧ c ≠ '.' := by
  intro c member
  obtain ⟨rest, rfl⟩ := List.head?_eq_some_iff.mp member
  rw [Decimal.readExponent?] at read
  split at read
  · rename_i mark
    rcases mark with rfl | rfl <;> decide
  · cases read

/-- A numeral without a point. -/
theorem spells_whole (nonempty : whole ≠ []) (digits : ∀ c ∈ whole, c.isDigit = true)
    (read : Decimal.readExponent? tail = some exponent) :
    Spells (whole ++ tail) (ofDigits whole * (10 : ℚ) ^ exponent) := by
  have stops := head_of_readExponent? read
  obtain ⟨taken, left⟩ := takeWhile_append_of_stop digits fun c member => (stops c member).1
  have pointless : Decimal.takeFraction tail = ([], tail) := by
    unfold Decimal.takeFraction
    split
    · exact absurd rfl (stops '.' rfl).2
    · rfl
  refine ⟨ofDigits whole, exponent, fun negative => ?_, rfl⟩
  simp [Decimal.read?, takeSign_signed nonempty digits, taken, left, pointless, nonempty, read]

/-- A numeral with a point and an exponent. -/
theorem spells_scientific (nonempty : whole ≠ []) (digits : ∀ c ∈ whole, c.isDigit = true)
    (digits' : ∀ c ∈ fraction, c.isDigit = true)
    (read : Decimal.readExponent? tail = some exponent) :
    Spells (whole ++ '.' :: (fraction ++ tail))
      (ofDigits (whole ++ fraction) * (10 : ℚ) ^ (exponent - fraction.length)) := by
  have point : ∀ c ∈ ('.' :: (fraction ++ tail)).head?, c.isDigit = false := by
    rintro c ⟨⟩
    rfl
  obtain ⟨taken, left⟩ := takeWhile_append_of_stop digits point
  obtain ⟨taken', left'⟩ := takeWhile_append_of_stop digits' fun c member =>
    (head_of_readExponent? read c member).1
  have pointed : Decimal.takeFraction ('.' :: (fraction ++ tail)) = (fraction, tail) := by
    rw [Decimal.takeFraction, taken', left']
  refine ⟨ofDigits (whole ++ fraction), exponent - fraction.length, fun negative => ?_, rfl⟩
  simp [Decimal.read?, takeSign_signed nonempty digits, taken, left, pointed, nonempty, read]

/-- A numeral with a point. -/
theorem spells_point (nonempty : whole ≠ []) (digits : ∀ c ∈ whole, c.isDigit = true)
    (digits' : ∀ c ∈ fraction, c.isDigit = true) {last : Int}
    (places : (fraction.length : Int) = -last) :
    Spells (whole ++ '.' :: fraction) (ofDigits (whole ++ fraction) * (10 : ℚ) ^ last) := by
  have read : Decimal.readExponent? [] = some 0 := rfl
  have spelt := spells_scientific nonempty digits digits' read
  rwa [List.append_nil, places, zero_sub, neg_neg] at spelt

end Numerals

/-! ## Texts of a layout -/

namespace Layout

/-- A layout whose texts can be read: a whole number is followed by nothing or by a zero after a
point, and an exponent has a plus or no sign. -/
structure IsReadable (layout : Layout) : Prop where
  tail : layout.wholeTail = "" ∨ layout.wholeTail = ".0"
  plus : layout.exponentPlus = "" ∨ layout.exponentPlus = "+"

variable {layout : Layout} {digits : Chars}

/-- Only zeros at the end are taken off. -/
theorem dropZeros_append (digits : Chars) :
    (dropZeros digits).1 ++ List.replicate (dropZeros digits).2 '0' = digits := by
  let zeros := digits.reverse.takeWhile (· == '0')
  have same : zeros = List.replicate zeros.length '0' :=
    List.eq_replicate_of_mem fun c member =>
      beq_iff_eq.mp (List.all_eq_true.mp List.all_takeWhile c member)
  have ending : zeros.reverse <:+ digits := by
    rw [← List.reverse_prefix, List.reverse_reverse]
    exact List.takeWhile_prefix _
  rw [same, List.reverse_replicate, List.suffix_iff_eq_append, List.length_replicate] at ending
  exact ending

/-- A whole number, filled up with zeros. -/
theorem spells_filled (readable : layout.IsReadable) (nonempty : digits ≠ [])
    (all : ∀ c ∈ digits, c.isDigit = true) (count : Nat) :
    Spells (digits ++ List.replicate count '0' ++ layout.wholeTail.toList)
      (ofDigits digits * (10 : ℚ) ^ (count : Int)) := by
  have some : digits ++ List.replicate count '0' ≠ [] :=
    List.append_ne_nil_of_left_ne_nil nonempty _
  have numeric : ∀ c ∈ digits ++ List.replicate count '0', c.isDigit = true :=
    fun c member => (List.mem_append.mp member).elim (all c) isDigit_of_mem_zeros
  rcases readable.tail with tail | tail
  · have read : Decimal.readExponent? [] = Option.some 0 := rfl
    have spelt := spells_whole some numeric read
    rw [ofDigits_append_zeros, zero_add] at spelt
    rwa [tail]
  · have zero : ∀ c ∈ ['0'], c.isDigit = true := List.forall_mem_singleton.mpr rfl
    have places : ((['0'] : Chars).length : Int) = -(-1) := rfl
    have exponent : -1 + ((count + 1 : Nat) : Int) = count := by omega
    have spelt := spells_point some numeric zero places
    rw [List.append_assoc digits _ ['0'], ← List.replicate_succ', ofDigits_append_zeros,
      exponent] at spelt
    rwa [tail]

/-- Digits with a point among them. -/
theorem spells_split (all : ∀ c ∈ digits, c.isDigit = true) {count : Nat} (some : 0 < count)
    (within : count ≤ digits.length) {last : Int} (places : (count : Int) - digits.length = last) :
    Spells (digits.take count ++ '.' :: digits.drop count)
      (ofDigits digits * (10 : ℚ) ^ last) := by
  have front : digits.take count ≠ [] := by
    rwa [← List.length_pos_iff, List.length_take_of_le within]
  have behind : ((digits.drop count).length : Int) = -last := by
    rw [List.length_drop]
    omega
  have spelt := spells_point front (fun c member => all c (List.mem_of_mem_take member))
    (fun c member => all c (List.mem_of_mem_drop member)) behind
  rwa [List.take_append_drop] at spelt

/-- Digits behind the point and some zeros. -/
theorem spells_fraction (all : ∀ c ∈ digits, c.isDigit = true) {count : Nat} {last : Int}
    (places : (count : Int) + digits.length = -last) :
    Spells ('0' :: '.' :: (List.replicate count '0' ++ digits))
      (ofDigits digits * (10 : ℚ) ^ last) := by
  have zero : ∀ c ∈ ['0'], c.isDigit = true := List.forall_mem_singleton.mpr rfl
  have numeric : ∀ c ∈ List.replicate count '0' ++ digits, c.isDigit = true :=
    fun c member => (List.mem_append.mp member).elim isDigit_of_mem_zeros (all c)
  have length : ((List.replicate count '0' ++ digits).length : Int) = -last := by
    rw [List.length_append, List.length_replicate, ← places]
    rfl
  have value : ofDigits (['0'] ++ (List.replicate count '0' ++ digits)) = ofDigits digits :=
    ofDigits_zeros_append (count + 1) digits
  have spelt := spells_point (List.cons_ne_nil _ _) zero numeric length
  rwa [value] at spelt

/-- A positional text has the magnitude of its digits. -/
theorem spells_positionalText (readable : layout.IsReadable) (nonempty : digits ≠ [])
    (all : ∀ c ∈ digits, c.isDigit = true) (last : Int) :
    Spells (layout.positionalText digits last) (ofDigits digits * (10 : ℚ) ^ last) := by
  have length := List.length_pos_iff.mpr nonempty
  simp only [positionalText]
  split
  · rename_i whole
    have spelt := spells_filled readable nonempty all last.toNat
    rwa [Int.toNat_of_nonneg whole] at spelt
  · split
    · exact spells_split all (by omega) (by omega) (by omega)
    · exact spells_fraction all (by omega)

/-- A written exponent is read, whatever stands before one that is not negative. -/
theorem readExponent?_written (readable : layout.IsReadable) (leading : Int) :
    Decimal.readExponent?
      ('e' :: ((if leading < 0 then [] else layout.exponentPlus.toList) ++ integerText leading)) =
        some leading := by
  rw [Decimal.readExponent?, if_pos (Or.inl rfl)]
  split
  · exact readInteger?_integerText leading
  · rename_i positive
    rcases readable.plus with plus | plus
    · rw [plus]
      exact readInteger?_integerText leading
    · have magnitude : (leading.natAbs : Int) = leading :=
        Int.natAbs_of_nonneg (not_lt.mp positive)
      rw [plus, integerText, if_neg positive]
      simp [readInteger?, takeSign, readNat?_natDigits, magnitude]

/-- The exponent is that of the leading digit, and the other digits follow a point. -/
theorem spells_exponentText (readable : layout.IsReadable) (nonempty : digits ≠ [])
    (all : ∀ c ∈ digits, c.isDigit = true) (last : Int) :
    Spells (layout.exponentText digits (last + digits.length - 1))
      (ofDigits digits * (10 : ℚ) ^ last) := by
  have read := readExponent?_written readable (last + digits.length - 1)
  rcases digits with _ | ⟨first, rest⟩
  · exact absurd rfl nonempty
  · have single : ∀ c ∈ [first], c.isDigit = true := by
      intro c member
      exact all c (List.mem_singleton.mp member ▸ List.mem_cons_self)
    rcases rest with _ | ⟨second, rest⟩
    · have exponent : last + ([first] : Chars).length - 1 = last := by
        rw [List.length_singleton]
        omega
      have spelt := spells_whole (List.cons_ne_nil _ _) single read
      rw [exponent] at spelt ⊢
      exact spelt
    · have others : ∀ c ∈ second :: rest, c.isDigit = true :=
        fun c member => all c (List.mem_cons_of_mem _ member)
      have exponent : last + (first :: second :: rest).length - 1 -
          ((second :: rest).length : Int) = last := by
        rw [List.length_cons (a := first)]
        omega
      have spelt := spells_scientific (List.cons_ne_nil _ _) single others read
      rw [exponent] at spelt
      simpa [exponentText] using spelt

/-- The text of a magnitude is read as the decimal that was found for it. -/
theorem spells_magnitudeText (readable : layout.IsReadable) (rank : Nat) :
    Spells (layout.magnitudeText rank)
      ((Shortest.digits layout.tie rank).1 * (10 : ℚ) ^ (Shortest.digits layout.tie rank).2) := by
  rcases found : Shortest.digits layout.tie rank with ⟨number, exponent⟩
  simp only [magnitudeText, found]
  split
  · rename_i zero
    have single : ∀ c ∈ ['0'], c.isDigit = true := List.forall_mem_singleton.mpr rfl
    have none : ofDigits ['0'] = 0 := rfl
    have value : (ofDigits ['0'] : ℚ) * (10 : ℚ) ^ (0 : Int) = number * (10 : ℚ) ^ exponent := by
      rw [zero, none, Nat.cast_zero, zero_mul, zero_mul]
    rw [← value]
    exact spells_positionalText readable (List.cons_ne_nil _ _) single 0
  · rename_i positive
    have whole := dropZeros_append (natDigits number)
    have value := ofDigits_append_zeros (dropZeros (natDigits number)).1
      (dropZeros (natDigits number)).2 exponent
    rw [whole, ofDigits_natDigits] at value
    have nonempty : (dropZeros (natDigits number)).1 ≠ [] := by
      intro none
      rw [none, List.nil_append] at whole
      rw [← ofDigits_natDigits number, ← whole, ofDigits_replicate_zero] at positive
      exact positive rfl
    have all : ∀ c ∈ (dropZeros (natDigits number)).1, c.isDigit = true := fun c member =>
      isDigit_of_mem_natDigits (whole ▸ List.mem_append_left _ member)
    rw [value]
    split
    · split
      · exact spells_positionalText readable nonempty all _
      · exact spells_exponentText readable nonempty all _
    · exact spells_positionalText readable nonempty all _

/-- A finite number is read back from its text. -/
theorem read?_finiteText (readable : layout.IsReadable) (negative : Bool)
    (rank : Fin Binary64.rankLimit) :
    Binary64.read? (layout.finiteText negative rank) = some (.finite negative rank) := by
  obtain ⟨digits, exponent, read, value⟩ := spells_magnitudeText readable rank
  have rounded : Binary64.ofDecimal ⟨negative, digits, exponent⟩ =
      Binary64.ofDecimal ⟨negative, (Shortest.digits layout.tie rank).1,
        (Shortest.digits layout.tie rank).2⟩ :=
    Binary64.ofDecimal_congr rfl value
  rw [Binary64.read?, finiteText, read, Option.map_some, rounded,
    Shortest.ofDecimal_digits _ _ rank.isLt, Binary64.ofRank, dif_pos rank.isLt]

end Layout

end Parley.Number
