import Parley.Proofs.Json.Printer
import Parley.Proofs.Number.Layout

/-!
# The standard printer is faithful

A finite number is read back from its text, which has a point or an exponent.  A character is read
back from what stands for it in a string, and none is written with a quote in front; so a string
ends at its closing quote, and it shows which string it is.
-/

namespace Parley.Number

open Parley.Text

theorem isNumeralChar_of_readExponent? {text : Chars} {exponent : Int}
    (read : Decimal.readExponent? text = some exponent) :
    ∀ c ∈ text, Literal.isNumeralChar c = true := by
  intro c member
  rcases text with _ | ⟨mark, rest⟩
  · cases member
  · rw [Decimal.readExponent?, Option.ite_none_right_eq_some] at read
    obtain ⟨marks, found⟩ := read
    rcases List.mem_cons.mp member with rfl | among
    · rcases marks with rfl | rfl <;> rfl
    · exact isNumeralChar_of_readInteger? found c among

/-- The digits at the start of a text and what follows them are the whole text. -/
theorem isDigit_or_mem_dropWhile {text : Chars} {c : Char} (member : c ∈ text) :
    c.isDigit = true ∨ c ∈ text.dropWhile Char.isDigit := by
  have whole : text.takeWhile Char.isDigit ++ text.dropWhile Char.isDigit = text :=
    List.takeWhile_append_dropWhile
  rw [← whole] at member
  exact (List.mem_append.mp member).imp_left (List.all_eq_true.mp List.all_takeWhile c)

theorem mem_takeFraction {text : Chars} {c : Char} (member : c ∈ text) :
    c = '.' ∨ c.isDigit = true ∨ c ∈ (Decimal.takeFraction text).2 := by
  unfold Decimal.takeFraction
  split
  · exact (List.mem_cons.mp member).imp_right isDigit_or_mem_dropWhile
  · exact Or.inr (Or.inr member)

/-- Nothing but the characters of a numeral is read as one. -/
theorem isNumeralChar_of_read? {text : Chars} {decimal : Decimal}
    (read : Decimal.read? text = some decimal) : ∀ c ∈ text, Literal.isNumeralChar c = true := by
  have digit : ∀ c, c.isDigit = true → Literal.isNumeralChar c = true := by
    intro c digit
    simp [Literal.isNumeralChar, digit]
  simp only [Decimal.read?, Option.ite_none_left_eq_some, Option.map_eq_some_iff] at read
  obtain ⟨-, exponent, found, -⟩ := read
  intro c member
  rcases mem_takeSign member with rfl | rfl | unsigned
  · rfl
  · rfl
  · rcases isDigit_or_mem_dropWhile unsigned with whole | behind
    · exact digit c whole
    · rcases mem_takeFraction behind with rfl | fraction | rest
      · rfl
      · exact digit c fraction
      · exact isNumeralChar_of_readExponent? found c rest

end Parley.Number

namespace Parley.Json

open Parley.Number
open Parley.Text

/-! ## Numbers -/

theorem isReadable_floatLayout : floatLayout.IsReadable :=
  ⟨Or.inr rfl, Or.inr rfl⟩

/-- A finite number is read back from its JSON text. -/
theorem read?_floatText {number : Binary64} (finite : number.isFinite = true) :
    Binary64.read? (floatText number) = some number := by
  cases number with
  | finite negative rank => exact Layout.read?_finiteText isReadable_floatLayout negative rank
  | infinite => cases finite
  | notANumber => cases finite

theorem eq_of_floatText_eq {number other : Binary64} (finite : number.isFinite = true)
    (finite' : other.isFinite = true) (same : floatText number = floatText other) :
    number = other := by
  have read := read?_floatText finite'
  rw [← same, read?_floatText finite] at read
  exact Option.some.inj read

theorem isNumeralChar_of_mem_floatText {number : Binary64} (finite : number.isFinite = true) :
    ∀ c ∈ floatText number, Literal.isNumeralChar c = true := by
  obtain ⟨decimal, read, -⟩ := Option.map_eq_some_iff.mp (read?_floatText finite)
  exact isNumeralChar_of_read? read

/-- The text of a finite number shows that it is no integer. -/
theorem exists_mark_floatText {number : Binary64} (finite : number.isFinite = true) :
    ∃ c ∈ floatText number, c = '.' ∨ c = 'e' := by
  have positional : ∀ digits last, '.' ∈ floatLayout.positionalText digits last := by
    intro digits last
    simp only [Layout.positionalText]
    split
    · exact List.mem_append_right _ (by decide)
    · split
      · exact List.mem_append_right _ List.mem_cons_self
      · simp
  have exponential : ∀ digits leading, 'e' ∈ floatLayout.exponentText digits leading := by
    intro digits leading
    simp [Layout.exponentText]
  have magnitude : ∀ rank, ∃ c ∈ floatLayout.magnitudeText rank, c = '.' ∨ c = 'e' := by
    intro rank
    simp only [Layout.magnitudeText]
    split
    · exact ⟨'.', by decide, Or.inl rfl⟩
    · split
      · split
        · exact ⟨'.', positional _ _, Or.inl rfl⟩
        · exact ⟨'e', exponential _ _, Or.inr rfl⟩
      · exact ⟨'.', positional _ _, Or.inl rfl⟩
  cases number with
  | finite negative rank =>
      obtain ⟨c, member, mark⟩ := magnitude rank
      refine ⟨c, ?_, mark⟩
      rw [floatText, Layout.finiteText]
      split
      · exact List.mem_cons_of_mem _ member
      · exact member
  | infinite => cases finite
  | notANumber => cases finite

/-! ## Strings -/

/-- The value of a hexadecimal digit. -/
def hexValue (c : Char) : Nat :=
  if c.isDigit then c.toNat - '0'.toNat else c.toNat - 'a'.toNat + 10

theorem hexValue_digitChar {digit : Nat} (below : digit < 16) :
    hexValue (Nat.digitChar digit) = digit := by
  have each : ∀ digit < 16, hexValue (Nat.digitChar digit) = digit := by decide
  exact each digit below

/-- Read one character of a string and what follows it. -/
def readChar? : Chars → Option (Char × Chars)
  | '\\' :: 'n' :: rest => some ('\n', rest)
  | '\\' :: 'r' :: rest => some ('\r', rest)
  | '\\' :: 't' :: rest => some ('\t', rest)
  | '\\' :: 'b' :: rest => some ('\x08', rest)
  | '\\' :: 'f' :: rest => some ('\x0c', rest)
  | '\\' :: 'u' :: _ :: _ :: high :: low :: rest =>
      some (Char.ofNat (16 * hexValue high + hexValue low), rest)
  | '\\' :: c :: rest => some (c, rest)
  | c :: rest => some (c, rest)
  | [] => none

theorem readChar?_of_ne {c : Char} (plain : c ≠ '\\') (rest : Chars) :
    readChar? (c :: rest) = some (c, rest) := by
  unfold readChar?
  split <;> simp_all

/-- A character is read back from what stands for it in a string. -/
theorem readChar?_escapeChar (c : Char) (rest : Chars) :
    readChar? (escapeChar c ++ rest) = some (c, rest) := by
  unfold escapeChar
  repeat' split
  -- The escapes by a letter are read by evaluation.
  all_goals try (rename_i same; subst same; rfl)
  · rename_i control
    have high : hexValue (Nat.digitChar (c.toNat / 16)) = c.toNat / 16 :=
      hexValue_digitChar (by omega)
    have low : hexValue (Nat.digitChar (c.toNat % 16)) = c.toNat % 16 :=
      hexValue_digitChar (by omega)
    simp only [hexByte, List.cons_append, List.nil_append, readChar?, high, low,
      Nat.div_add_mod, Char.ofNat_toNat]
  · exact readChar?_of_ne ‹_› rest

/-- No character is written with a quote in front. -/
theorem exists_escapeChar (c : Char) :
    ∃ front others, escapeChar c = front :: others ∧ front ≠ '"' := by
  unfold escapeChar
  repeat' split
  all_goals first | exact ⟨_, _, rfl, by decide⟩ | exact ⟨_, _, rfl, ‹_›⟩

/-- The first quote that stands for itself ends a string. -/
theorem escaped_append_inj {first second rest rest' : Chars}
    (same : first.flatMap escapeChar ++ '"' :: rest = second.flatMap escapeChar ++ '"' :: rest') :
    first = second ∧ rest = rest' := by
  have opens : ∀ c more tail, '"' :: tail ≠ escapeChar c ++ more := by
    intro c more tail same
    obtain ⟨front, others, written, other⟩ := exists_escapeChar c
    rw [written, List.cons_append] at same
    exact other (List.head_eq_of_cons_eq same).symm
  induction first generalizing second with
  | nil =>
      cases second with
      | nil => exact ⟨rfl, List.tail_eq_of_cons_eq same⟩
      | cons d second =>
          rw [List.flatMap_cons, List.append_assoc] at same
          exact absurd same (opens d _ _)
  | cons c first ih =>
      rw [List.flatMap_cons, List.append_assoc] at same
      cases second with
      | nil => exact absurd same.symm (opens c _ _)
      | cons d second =>
          rw [List.flatMap_cons, List.append_assoc] at same
          have read := congrArg readChar? same
          rw [readChar?_escapeChar, readChar?_escapeChar] at read
          obtain ⟨rfl, left⟩ := Prod.mk.inj (Option.some.inj read)
          obtain ⟨rfl, behind⟩ := ih left
          exact ⟨rfl, behind⟩

/-- A string ends at its closing quote. -/
theorem quote_append_inj {first second : String} {rest rest' : Chars}
    (same : quote first ++ rest = quote second ++ rest') : first = second ∧ rest = rest' := by
  rw [quote, quote, List.cons_append, List.cons_append, List.append_assoc,
    List.append_assoc] at same
  obtain ⟨equal, behind⟩ := escaped_append_inj (List.tail_eq_of_cons_eq same)
  exact ⟨String.toList_inj.mp equal, behind⟩

theorem Printer.isFaithful_standard : Printer.standard.IsFaithful where
  opens _ := ⟨_, rfl⟩
  string same := quote_append_inj same
  integer := readInteger?_integerText
  real finite finite' same := eq_of_floatText_eq finite finite' same
  numeral finite := isNumeralChar_of_mem_floatText finite
  mark finite := by
    obtain ⟨c, member, mark⟩ := exists_mark_floatText finite
    exact ⟨c, member, mark.imp_right Or.inl⟩

end Parley.Json
