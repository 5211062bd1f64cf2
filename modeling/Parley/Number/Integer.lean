import Parley.Text.Basic

/-!
# Integers in decimal

Digits, the text of an integer, and reading an integer that fits in 64 bits.
Reading admits one sign and any number of leading zeros and refuses everything
else, in particular the empty text, a lone sign and a value out of range.
-/

namespace Parley.Number

open Parley.Text

/-- The value of a decimal digit; other characters count from `'0'` as well. -/
def digitValue (c : Char) : Nat :=
  c.toNat - '0'.toNat

/-- The number that a sequence of digits stands for, most significant first. -/
def ofDigits (digits : Chars) : Nat :=
  digits.foldl (fun number c => 10 * number + digitValue c) 0

@[simp]
theorem ofDigits_nil : ofDigits [] = 0 :=
  rfl

/-- The digits of a natural number, most significant first. -/
def natDigits (number : Nat) : Chars :=
  Nat.toDigits 10 number

/-- Read a nonempty sequence of digits. -/
def readNat? (text : Chars) : Option Nat :=
  if text ≠ [] ∧ text.all Char.isDigit then some (ofDigits text) else none

/-- Take one sign from the start of a text; `true` stands for a minus. -/
def takeSign : Chars → Bool × Chars
  | '-' :: rest => (true, rest)
  | '+' :: rest => (false, rest)
  | text => (false, text)

/-- An integer in decimal, with a minus where it is negative. -/
def integerText (number : Int) : Chars :=
  if number < 0 then '-' :: natDigits number.natAbs else natDigits number.natAbs

/-- Read an integer of any size. -/
def readInteger? (text : Chars) : Option Int :=
  let (negative, digits) := takeSign text
  (readNat? digits).map fun (number : Nat) => if negative then -(number : Int) else number

/-- Read an integer that fits in 64 bits. -/
def readInt64? (text : Chars) : Option Int64 :=
  match readInteger? text with
  | some number =>
      if Int64.minValue.toInt ≤ number ∧ number ≤ Int64.maxValue.toInt then
        some (Int64.ofInt number)
      else none
  | none => none

/-- Only digits are read, and at least one. -/
theorem digits_of_readNat? {text : Chars} {number : Nat} (found : readNat? text = some number) :
    text ≠ [] ∧ ∀ c ∈ text, c.isDigit = true := by
  simp only [readNat?, Option.ite_none_right_eq_some] at found
  exact ⟨found.1.1, List.all_eq_true.1 found.1.2⟩

/-- What is not taken off as a sign is left. -/
theorem mem_takeSign {text : Chars} {c : Char} (member : c ∈ text) :
    c = '-' ∨ c = '+' ∨ c ∈ (takeSign text).2 := by
  unfold takeSign
  split
  · exact (List.mem_cons.1 member).imp_right Or.inr
  · exact Or.inr (List.mem_cons.1 member)
  · exact Or.inr (Or.inr member)

/-- Read a position: digits with an optional plus in front. -/
def readIndex? (text : Chars) : Option Nat :=
  match text with
  | '+' :: digits => readNat? digits
  | digits => readNat? digits

end Parley.Number
