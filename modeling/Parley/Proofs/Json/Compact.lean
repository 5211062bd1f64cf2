import Parley.Proofs.Json.Printer
import Parley.Proofs.Text.Words

/-!
# Compact texts are uniquely readable

A faithful printer gives a JSON value whose numbers are all finite the compact text of no other such
value, and the text shows where it ends: the first character tells of which kind the value is,
numbers end where a list or a record goes on or is closed, and everything else closes itself.
-/

namespace Parley.Json

open Parley.Number
open Parley.Text

/-- All floating-point numbers in a value are finite; the others have no text of their own. -/
inductive IsFinite : Json → Prop
  | null : IsFinite null
  | boolean (value : Bool) : IsFinite (boolean value)
  | integer (value : Int) : IsFinite (integer value)
  | real {value : Binary64} (finite : value.isFinite = true) : IsFinite (real value)
  | text (value : String) : IsFinite (text value)
  | list {items : List Json} (each : ∀ item ∈ items, IsFinite item) : IsFinite (list items)
  | record {fields : List (String × Json)} (each : ∀ field ∈ fields, IsFinite field.2) :
      IsFinite (record fields)

/-- What may follow a value: nothing, or a mark that goes on with a list or record or closes it. -/
def EndsValue (rest : Chars) : Prop :=
  ∀ c ∈ rest.head?, c ∈ [',', ']', '}']

/-- A text that shows where it ends and which value it stands for. -/
def IsDistinct {α : Type} (write : α → Chars) (allowed : α → Prop) (value : α) : Prop :=
  ∀ other, allowed other → ∀ rest rest', EndsValue rest → EndsValue rest' →
    write value ++ rest = write other ++ rest' → value = other ∧ rest = rest'

/-! ## Elements between commas -/

section Elements

variable {α : Type} {write : α → Chars} {allowed : α → Prop} {items items' : List α}
  {rest rest' : Chars}

/-- What stands behind the first of several elements. -/
theorem intercalate_cons (write : α → Chars) (item : α) (items : List α) :
    [','].intercalate ((item :: items).map write) =
      write item ++ if items.isEmpty then [] else ',' :: [','].intercalate (items.map write) := by
  cases items with
  | nil => simp
  | cons next items => simp [List.intercalate_cons_cons]

/-- Elements between commas are told apart up to the mark that closes them, if each of them is and
none begins with that mark. -/
theorem elements_append_inj {close : Char} (closes : close ∈ [']', '}'])
    (opens : ∀ item more tail, allowed item → write item ++ more ≠ close :: tail)
    (each : ∀ item ∈ items, allowed item ∧ IsDistinct write allowed item)
    (each' : ∀ item ∈ items', allowed item)
    (same : [','].intercalate (items.map write) ++ close :: rest =
      [','].intercalate (items'.map write) ++ close :: rest') :
    items = items' ∧ rest = rest' := by
  have apart : close ≠ ',' := by
    rintro rfl
    exact absurd closes (by decide)
  have ends : ∀ (others : List α) tail, EndsValue
      ((if others.isEmpty then [] else ',' :: [','].intercalate (others.map write)) ++
        close :: tail) := by
    intro others tail c member
    split at member
    · cases member
      exact List.mem_cons_of_mem _ closes
    · cases member
      exact List.mem_cons_self
  induction items generalizing items' with
  | nil =>
      cases items' with
      | nil => exact ⟨rfl, List.tail_eq_of_cons_eq same⟩
      | cons item' items' =>
          rw [intercalate_cons, List.append_assoc] at same
          exact absurd same.symm (opens item' _ _ (each' item' List.mem_cons_self))
  | cons item items ih =>
      obtain ⟨first, distinct⟩ := each item List.mem_cons_self
      rw [intercalate_cons, List.append_assoc] at same
      cases items' with
      | nil => exact absurd same (opens item _ _ first)
      | cons item' items' =>
          rw [intercalate_cons, List.append_assoc] at same
          obtain ⟨rfl, behind⟩ := distinct item' (each' item' List.mem_cons_self) _ _
            (ends items rest) (ends items' rest') same
          have following : [','].intercalate (items.map write) ++ close :: rest =
              [','].intercalate (items'.map write) ++ close :: rest' := by
            cases items with
            | nil =>
                cases items' with
                | nil => exact behind
                | cons => exact absurd (List.head_eq_of_cons_eq behind) apart
            | cons =>
                cases items' with
                | nil => exact absurd (List.head_eq_of_cons_eq behind).symm apart
                | cons => exact List.tail_eq_of_cons_eq behind
          obtain ⟨rfl, left⟩ := ih (fun other member => each other (List.mem_cons_of_mem _ member))
            (fun other member => each' other (List.mem_cons_of_mem _ member)) following
          exact ⟨rfl, left⟩

end Elements

/-! ## Lists and records -/

theorem compactItems_eq (printer : Printer) (items : List Json) :
    compactItems printer items = [','].intercalate (items.map (compactText printer)) := by
  induction items with
  | nil => rfl
  | cons item items ih =>
      rw [intercalate_cons]
      cases items with
      | nil => simp [compactItems]
      | cons => simp [compactItems, ih]

/-- A field of a record. -/
def fieldText (printer : Printer) (field : String × Json) : Chars :=
  printer.string field.1 ++ ':' :: field.2.compactText printer

theorem compactFields_eq (printer : Printer) (fields : List (String × Json)) :
    compactFields printer fields = [','].intercalate (fields.map (fieldText printer)) := by
  induction fields with
  | nil => rfl
  | cons field fields ih =>
      rw [intercalate_cons]
      cases fields with
      | nil => simp [compactFields, fieldText]
      | cons => simp [compactFields, fieldText, ih]

/-! ## Kinds of values -/

/-- The kind of a value that begins with a character; all numbers are of one kind, and so are both
truth values. -/
def kindOf (c : Char) : Char :=
  if Literal.isNumeralChar c then '0' else if c = 'f' then 't' else c

/-- The kind of a value. -/
def kind : Json → Char
  | null => 'n'
  | boolean _ => 't'
  | integer _ => '0'
  | real _ => '0'
  | text _ => '"'
  | list _ => '['
  | record _ => '{'

/-- Numerals end where a value ends. -/
theorem numeral_append_inj {first second rest rest' : Chars}
    (numeral : ∀ c ∈ first, Literal.isNumeralChar c = true)
    (numeral' : ∀ c ∈ second, Literal.isNumeralChar c = true) (ends : EndsValue rest)
    (ends' : EndsValue rest') (same : first ++ rest = second ++ rest') :
    first = second ∧ rest = rest' := by
  have stops : ∀ {tail}, EndsValue tail → ∀ c ∈ tail.head?, Literal.isNumeralChar c = false := by
    intro tail ends c member
    have marks := ends c member
    simp only [List.mem_cons, List.not_mem_nil, or_false] at marks
    rcases marks with rfl | rfl | rfl <;> rfl
  obtain ⟨taken, left⟩ := takeWhile_append_of_stop numeral (stops ends)
  obtain ⟨taken', left'⟩ := takeWhile_append_of_stop numeral' (stops ends')
  exact ⟨by rw [← taken, ← taken', same], by rw [← left, ← left', same]⟩

section Faithful

variable {printer : Printer} (faithful : printer.IsFaithful)

include faithful

/-- The first character of a value tells its kind. -/
theorem exists_compactText {value : Json} (finite : value.IsFinite) :
    ∃ front others, value.compactText printer = front :: others ∧ kindOf front = value.kind := by
  have number : ∀ {text : Chars}, text ≠ [] → (∀ c ∈ text, Literal.isNumeralChar c = true) →
      ∃ front others, text = front :: others ∧ kindOf front = '0' := by
    intro text nonempty numeral
    obtain ⟨front, others, rfl⟩ := List.exists_cons_of_ne_nil nonempty
    exact ⟨front, others, rfl, if_pos (numeral front List.mem_cons_self)⟩
  cases finite with
  | null => exact ⟨_, _, rfl, rfl⟩
  | boolean value => cases value <;> exact ⟨_, _, rfl, rfl⟩
  | integer value =>
      exact number (faithful.integer_ne_nil value) (faithful.isNumeralChar_integer value)
  | real finite => exact number (faithful.real_ne_nil finite) (faithful.numeral finite)
  | text value =>
      obtain ⟨others, written⟩ := faithful.opens value
      exact ⟨_, others, written, rfl⟩
  | list => exact ⟨_, _, by rw [compactText], rfl⟩
  | record => exact ⟨_, _, by rw [compactText], rfl⟩

theorem kind_eq_of_append {value other : Json} (finite : value.IsFinite)
    (finite' : other.IsFinite) {rest rest' : Chars}
    (same : value.compactText printer ++ rest = other.compactText printer ++ rest') :
    value.kind = other.kind := by
  obtain ⟨front, others, written, kind⟩ := exists_compactText faithful finite
  obtain ⟨front', others', written', kind'⟩ := exists_compactText faithful finite'
  rw [written, written', List.cons_append, List.cons_append] at same
  rw [← kind, ← kind', List.head_eq_of_cons_eq same]

/-- No value begins with a closing bracket. -/
theorem compactText_ne_close {value : Json} (finite : value.IsFinite) (more tail : Chars) :
    value.compactText printer ++ more ≠ ']' :: tail := by
  intro same
  obtain ⟨front, others, written, kind⟩ := exists_compactText faithful finite
  rw [written, List.cons_append] at same
  rw [List.head_eq_of_cons_eq same] at kind
  cases value <;> cases kind

/-- No field begins with a closing brace. -/
theorem fieldText_ne_close (field : String × Json) (more tail : Chars) :
    fieldText printer field ++ more ≠ '}' :: tail := by
  intro same
  obtain ⟨others, written⟩ := faithful.opens field.1
  rw [fieldText, written, List.cons_append, List.cons_append] at same
  cases List.head_eq_of_cons_eq same

/-! ## Reading a value -/

theorem isDistinct_null : IsDistinct (compactText printer) IsFinite null := by
  intro other finite rest rest' ends ends' same
  have alike := kind_eq_of_append faithful .null finite same
  cases finite with
  | null => exact ⟨rfl, List.append_cancel_left same⟩
  | _ => cases alike

theorem isDistinct_boolean (value : Bool) :
    IsDistinct (compactText printer) IsFinite (boolean value) := by
  intro other finite rest rest' ends ends' same
  have alike := kind_eq_of_append faithful (.boolean value) finite same
  cases finite with
  | boolean value' =>
      by_cases equal : value = value'
      · subst equal
        exact ⟨rfl, List.append_cancel_left same⟩
      · cases value <;> cases value'
        · exact absurd rfl equal
        · cases List.head_eq_of_cons_eq same
        · cases List.head_eq_of_cons_eq same
        · exact absurd rfl equal
  | _ => cases alike

theorem isDistinct_integer (value : Int) :
    IsDistinct (compactText printer) IsFinite (integer value) := by
  intro other finite rest rest' ends ends' same
  have alike := kind_eq_of_append faithful (.integer value) finite same
  have numeral := faithful.isNumeralChar_integer value
  cases finite with
  | integer value' =>
      obtain ⟨written, left⟩ := numeral_append_inj numeral
        (faithful.isNumeralChar_integer value') ends ends' same
      exact ⟨congrArg integer (faithful.integer_injective written), left⟩
  | real finite =>
      obtain ⟨written, -⟩ := numeral_append_inj numeral (faithful.numeral finite) ends ends' same
      exact absurd written.symm (faithful.real_ne_integer finite value)
  | _ => cases alike

theorem isDistinct_real {value : Binary64} (known : value.isFinite = true) :
    IsDistinct (compactText printer) IsFinite (real value) := by
  intro other finite rest rest' ends ends' same
  have alike := kind_eq_of_append faithful (.real known) finite same
  have numeral := faithful.numeral known
  cases finite with
  | integer value' =>
      obtain ⟨written, -⟩ := numeral_append_inj numeral
        (faithful.isNumeralChar_integer value') ends ends' same
      exact absurd written (faithful.real_ne_integer known value')
  | real finite =>
      obtain ⟨written, left⟩ :=
        numeral_append_inj numeral (faithful.numeral finite) ends ends' same
      exact ⟨congrArg real (faithful.real known finite written), left⟩
  | _ => cases alike

theorem isDistinct_text (value : String) :
    IsDistinct (compactText printer) IsFinite (text value) := by
  intro other finite rest rest' ends ends' same
  have alike := kind_eq_of_append faithful (.text value) finite same
  cases finite with
  | text value' =>
      obtain ⟨rfl, left⟩ := faithful.string same
      exact ⟨rfl, left⟩
  | _ => cases alike

theorem isDistinct_list {items : List Json} (each : ∀ item ∈ items, item.IsFinite)
    (distinct : ∀ item ∈ items, IsDistinct (compactText printer) IsFinite item) :
    IsDistinct (compactText printer) IsFinite (list items) := by
  intro other finite rest rest' ends ends' same
  have alike := kind_eq_of_append faithful (.list each) finite same
  cases finite with
  | list each' =>
      simp only [compactText, compactItems_eq, List.cons_append, List.append_assoc] at same
      obtain ⟨rfl, left⟩ := elements_append_inj (by decide)
        (fun item more tail finite => compactText_ne_close faithful finite more tail)
        (fun item member => ⟨each item member, distinct item member⟩) each'
        (List.tail_eq_of_cons_eq same)
      exact ⟨rfl, left⟩
  | _ => cases alike

theorem isDistinct_fieldText {field : String × Json}
    (distinct : IsDistinct (compactText printer) IsFinite field.2) :
    IsDistinct (fieldText printer) (fun other => other.2.IsFinite) field := by
  intro other finite rest rest' ends ends' same
  rw [fieldText, fieldText, List.append_assoc, List.append_assoc] at same
  obtain ⟨name, behind⟩ := faithful.string same
  obtain ⟨value, left⟩ :=
    distinct other.2 finite rest rest' ends ends' (List.tail_eq_of_cons_eq behind)
  exact ⟨Prod.ext name value, left⟩

theorem isDistinct_record {fields : List (String × Json)}
    (each : ∀ field ∈ fields, field.2.IsFinite)
    (distinct : ∀ field ∈ fields, IsDistinct (compactText printer) IsFinite field.2) :
    IsDistinct (compactText printer) IsFinite (record fields) := by
  intro other finite rest rest' ends ends' same
  have alike := kind_eq_of_append faithful (.record each) finite same
  cases finite with
  | record each' =>
      simp only [compactText, compactFields_eq, List.cons_append, List.append_assoc] at same
      obtain ⟨rfl, left⟩ := elements_append_inj (by decide)
        (fun field more tail finite => fieldText_ne_close faithful field more tail)
        (fun field member =>
          ⟨each field member, isDistinct_fieldText faithful (distinct field member)⟩)
        each' (List.tail_eq_of_cons_eq same)
      exact ⟨rfl, left⟩
  | _ => cases alike

/-- The compact text of a value whose numbers are finite shows which value it is and where it
ends. -/
theorem isDistinct_compactText {value : Json} (finite : value.IsFinite) :
    IsDistinct (compactText printer) IsFinite value := by
  induction finite with
  | null => exact isDistinct_null faithful
  | boolean value => exact isDistinct_boolean faithful value
  | integer value => exact isDistinct_integer faithful value
  | real finite => exact isDistinct_real faithful finite
  | text value => exact isDistinct_text faithful value
  | list each distinct => exact isDistinct_list faithful each distinct
  | record each distinct => exact isDistinct_record faithful each distinct

/-- Values whose numbers are finite have the same compact text only if they are equal. -/
theorem compact_injective {value other : Json} (finite : value.IsFinite) (finite' : other.IsFinite)
    (same : value.compactWith printer = other.compactWith printer) : value = other := by
  have texts : value.compactText printer ++ [] = other.compactText printer ++ [] :=
    congrArg (· ++ []) (String.ofList_injective same)
  have nothing : EndsValue [] := fun c member => by cases member
  exact (isDistinct_compactText faithful finite other finite' [] [] nothing nothing texts).1

end Faithful

end Parley.Json
