import Parley.Text.Basic

/-!
# Trimming

A text is trimmed if it neither begins nor ends with a blank.  Trimming leaves such a text
alone and makes every text into one; blanks around a text make no difference to it.
-/

namespace Parley.Text

variable {text : Chars} {c : Char}

/-- What begins with another character does not go on with a run. -/
theorem takeWhile_append_of_head {p : Char → Bool} (text : Chars) {rest : Chars}
    (stops : ∀ c ∈ rest.head?, p c = false) :
    (text ++ rest).takeWhile p = text.takeWhile p ∧
      (text ++ rest).dropWhile p = text.dropWhile p ++ rest := by
  induction text with
  | nil =>
      cases rest with
      | nil => exact ⟨rfl, rfl⟩
      | cons c rest =>
          have stop := stops c rfl
          exact ⟨List.takeWhile_cons_of_neg (by simp [stop]),
            List.dropWhile_cons_of_neg (by simp [stop])⟩
  | cons c text ih =>
      rcases runs : p c with _ | _
      · simp [runs]
      · simpa [runs] using ih

/-- Neither the first nor the last character is a blank. -/
structure IsTrimmed (text : Chars) : Prop where
  head : ∀ c ∈ text.head?, isBlank c = false
  last : ∀ c ∈ text.getLast?, isBlank c = false

theorem IsTrimmed.nil : IsTrimmed [] where
  head _ member := by cases member
  last _ member := by cases member

theorem IsTrimmed.single {c : Char} (solid : isBlank c = false) : IsTrimmed [c] where
  head _ member := by
    cases member
    exact solid
  last _ member := by
    cases member
    exact solid

/-- A text between two others that are not empty does not matter. -/
theorem IsTrimmed.join {first second : Chars} (trimmed : IsTrimmed first)
    (other : IsTrimmed second) (someFirst : first ≠ []) (someSecond : second ≠ [])
    (between : Chars) : IsTrimmed (first ++ between ++ second) where
  head c member := by
    obtain ⟨d, rest, rfl⟩ := List.exists_cons_of_ne_nil someFirst
    exact trimmed.head c member
  last c member := by
    rw [List.getLast?_append, List.getLast?_eq_some_getLast someSecond] at member
    exact other.last c (List.getLast?_eq_some_getLast someSecond ▸ member)

theorem isTrimmed_quoted (content : Chars) : IsTrimmed ('"' :: (content ++ ['"'])) := by
  have quote : IsTrimmed ['"'] := .single rfl
  have join := quote.join quote (by decide) (by decide) content
  rwa [List.append_assoc] at join

theorem intercalate_ne_nil {first : Chars} (some : first ≠ []) (joint : Chars)
    (rest : List Chars) : joint.intercalate (first :: rest) ≠ [] := by
  cases rest with
  | nil => simpa using some
  | cons next rest =>
      rw [List.intercalate_cons_cons]
      simp [some]

theorem forall_mem_intercalate {p : Char → Prop} {joint : Chars} (between : ∀ c ∈ joint, p c)
    {parts : List Chars} (each : ∀ part ∈ parts, ∀ c ∈ part, p c) :
    ∀ c ∈ joint.intercalate parts, p c := by
  intro c member
  match parts with
  | [] => cases member
  | [part] =>
      rw [List.intercalate_singleton] at member
      exact each part List.mem_cons_self c member
  | first :: next :: rest =>
      rw [List.intercalate_cons_cons] at member
      rcases List.mem_append.mp member with member | member
      · rcases List.mem_append.mp member with member | member
        · exact each first List.mem_cons_self c member
        · exact between c member
      · exact forall_mem_intercalate between
          (fun part among => each part (List.mem_cons_of_mem _ among)) c member

/-- A list of trimmed texts is trimmed, whatever stands between them. -/
theorem IsTrimmed.intercalate (joint : Chars) {parts : List Chars}
    (each : ∀ part ∈ parts, IsTrimmed part ∧ part ≠ []) : IsTrimmed (joint.intercalate parts) := by
  match parts with
  | [] => exact IsTrimmed.nil
  | [part] => rw [List.intercalate_singleton]; exact (each part List.mem_cons_self).1
  | first :: next :: rest =>
      obtain ⟨trimmed, some⟩ := each first List.mem_cons_self
      have others : ∀ part ∈ next :: rest, IsTrimmed part ∧ part ≠ [] :=
        fun part member => each part (List.mem_cons_of_mem _ member)
      have filled : joint.intercalate (next :: rest) ≠ [] :=
        intercalate_ne_nil (others next List.mem_cons_self).2 joint rest
      rw [List.intercalate_cons_cons]
      exact trimmed.join (IsTrimmed.intercalate joint others) some filled joint

theorem trimStart_cons_blank (blank : isBlank c = true) (text : Chars) :
    trimStart (c :: text) = trimStart text := by
  simp [trimStart, blank]

theorem trimStart_cons_of_not_blank (solid : isBlank c = false) (text : Chars) :
    trimStart (c :: text) = c :: text := by
  simp [trimStart, solid]

theorem trimStart_append_of_blank {front : Chars} (blanks : ∀ c ∈ front, isBlank c = true)
    (text : Chars) : trimStart (front ++ text) = trimStart text :=
  List.dropWhile_append_of_pos blanks

theorem trimStart_of_head (solid : ∀ c ∈ text.head?, isBlank c = false) :
    trimStart text = text := by
  cases text with
  | nil => rfl
  | cons c rest => exact trimStart_cons_of_not_blank (solid c rfl) rest

theorem trimEnd_of_last (solid : ∀ c ∈ text.getLast?, isBlank c = false) :
    trimEnd text = text := by
  rcases List.eq_nil_or_concat text with rfl | ⟨front, c, rfl⟩
  · rfl
  · rw [List.concat_eq_append] at solid ⊢
    exact trimEnd_append_of_not_blank front (solid c (by simp))

theorem IsTrimmed.trim_eq (trimmed : IsTrimmed text) : trim text = text := by
  rw [trim, trimStart_of_head trimmed.head, trimEnd_of_last trimmed.last]

/-- What stands in front of a character that is no blank stays. -/
theorem trimStart_append_of_solid {front : Chars} (solid : trimStart front ≠ [])
    (back : Chars) : trimStart (front ++ back) = trimStart front ++ back := by
  induction front with
  | nil => exact absurd rfl solid
  | cons c rest ih =>
      rcases blank : isBlank c with _ | _
      · rw [List.cons_append, trimStart_cons_of_not_blank blank,
          trimStart_cons_of_not_blank blank]
        rfl
      · rw [trimStart_cons_blank blank] at solid ⊢
        rw [List.cons_append, trimStart_cons_blank blank, ih solid]

/-- What ends in another character keeps its end, whatever is trimmed behind it. -/
theorem trimEnd_append_of_last {front : Chars}
    (solid : ∀ c ∈ front.getLast?, isBlank c = false) (text : Chars) :
    trimEnd (front ++ text) = front ++ trimEnd text := by
  have stops : ∀ c ∈ front.reverse.head?, isBlank c = false := by
    rwa [List.head?_reverse]
  rw [trimEnd, List.reverse_append, (takeWhile_append_of_head text.reverse stops).2,
    List.reverse_append, List.reverse_reverse]
  rfl

theorem trimEnd_append_of_solid (solid : trimEnd text ≠ []) (front : Chars) :
    trimEnd (front ++ text) = front ++ trimEnd text := by
  have start : trimStart text.reverse ≠ [] := fun empty =>
    solid (by rw [trimEnd, ← trimStart, empty, List.reverse_nil])
  rw [trimEnd, ← trimStart, List.reverse_append, trimStart_append_of_solid start,
    List.reverse_append, List.reverse_reverse]
  rfl

theorem trimStart_eq_nil_iff : trimStart text = [] ↔ ∀ c ∈ text, isBlank c = true := by
  induction text with
  | nil => simp
  | cons c rest ih =>
      rcases blank : isBlank c with _ | _
      · simp [trimStart_cons_of_not_blank blank, blank]
      · simp [trimStart_cons_blank blank, blank, ih]

theorem trimEnd_eq_nil_iff : trimEnd text = [] ↔ ∀ c ∈ text, isBlank c = true := by
  rw [trimEnd, List.reverse_eq_nil_iff, ← trimStart, trimStart_eq_nil_iff]
  simp

theorem trim_eq_nil_iff : trim text = [] ↔ ∀ c ∈ text, isBlank c = true := by
  induction text with
  | nil => simp
  | cons c rest ih =>
      rcases blank : isBlank c with _ | _
      · rw [trim, trimStart_cons_of_not_blank blank, trimEnd_eq_nil_iff]
      · rw [trim, trimStart_cons_blank blank, ← trim, ih]
        simp [blank]

theorem trim_cons_blank (blank : isBlank c = true) (text : Chars) :
    trim (c :: text) = trim text := by
  rw [trim, trimStart_cons_blank blank, trim]

theorem trim_append_blank (blank : isBlank c = true) (text : Chars) :
    trim (text ++ [c]) = trim text := by
  by_cases empty : trimStart text = []
  · have blanks := trimStart_eq_nil_iff.mp empty
    have all : ∀ d ∈ text ++ [c], isBlank d = true := by
      intro d member
      rcases List.mem_append.mp member with member | member
      · exact blanks d member
      · rw [List.mem_singleton.mp member, blank]
    rw [trim_eq_nil_iff.mpr all, trim_eq_nil_iff.mpr blanks]
  · rw [trim, trimStart_append_of_solid empty, trimEnd_append_blank _ blank, trim]

theorem trim_append_of_blank {back : Chars} (blanks : ∀ c ∈ back, isBlank c = true)
    (text : Chars) : trim (text ++ back) = trim text := by
  induction back generalizing text with
  | nil => rw [List.append_nil]
  | cons c back ih =>
      obtain ⟨blank, others⟩ := List.forall_mem_cons.mp blanks
      rw [List.append_cons, ih others, trim_append_blank blank]

theorem head_trimStart (text : Chars) : ∀ c ∈ (trimStart text).head?, isBlank c = false := by
  intro c member
  have := List.head?_dropWhile_not isBlank text
  rw [← trimStart, Option.mem_def.mp member] at this
  simpa using this

theorem last_trimEnd (text : Chars) : ∀ c ∈ (trimEnd text).getLast?, isBlank c = false := by
  intro c member
  rw [trimEnd, List.getLast?_reverse] at member
  exact head_trimStart text.reverse c member

/-- Trimming trims. -/
theorem isTrimmed_trim (text : Chars) : IsTrimmed (trim text) where
  head c member := by
    -- What is trimmed at its end keeps its first character, if anything is left.
    have front := head_trimStart text
    have kept : trimEnd (trimStart text) <+: trimStart text := by
      rw [trimEnd, ← List.reverse_suffix, List.reverse_reverse]
      exact List.dropWhile_suffix _
    obtain ⟨rest, same⟩ := kept
    rw [← same] at front
    refine front c ?_
    rw [List.head?_append, ← trim, Option.mem_def.mp member]
    rfl
  last := last_trimEnd (trimStart text)

@[simp]
theorem trim_trim (text : Chars) : trim (trim text) = trim text :=
  (isTrimmed_trim text).trim_eq

theorem isTrimmed_of_trim (same : trim text = text) : IsTrimmed text :=
  same ▸ isTrimmed_trim text

theorem trimEnd_of_trim (same : trim text = text) : trimEnd text = text :=
  trimEnd_of_last (isTrimmed_of_trim same).last

/-- Trimming takes off blanks and nothing else. -/
theorem exists_blanks_trimStart (text : Chars) :
    ∃ front, text = front ++ trimStart text ∧ ∀ c ∈ front, isBlank c = true := by
  refine ⟨text.takeWhile isBlank, (List.takeWhile_append_dropWhile ..).symm, ?_⟩
  exact List.all_eq_true.mp List.all_takeWhile

theorem exists_blanks_trimEnd (text : Chars) :
    ∃ back, text = trimEnd text ++ back ∧ ∀ c ∈ back, isBlank c = true := by
  obtain ⟨back, same, blanks⟩ := exists_blanks_trimStart text.reverse
  refine ⟨back.reverse, ?_, fun c member => blanks c (List.mem_reverse.mp member)⟩
  have reversed := congrArg List.reverse same
  rwa [List.reverse_reverse, List.reverse_append] at reversed

theorem mem_of_mem_trimEnd (member : c ∈ trimEnd text) : c ∈ text := by
  obtain ⟨back, same, -⟩ := exists_blanks_trimEnd text
  rw [same]
  exact List.mem_append_left _ member

@[simp]
theorem trim_trimEnd (text : Chars) : trim (trimEnd text) = trim text := by
  obtain ⟨back, whole, blanks⟩ := exists_blanks_trimEnd text
  calc
    trim (trimEnd text) = trim (trimEnd text ++ back) := (trim_append_of_blank blanks _).symm
    _ = trim text := by rw [← whole]

theorem exists_blanks_trim (text : Chars) :
    ∃ front back, text = front ++ trim text ++ back ∧
      ∀ c ∈ front ++ back, isBlank c = true := by
  obtain ⟨front, same, blanks⟩ := exists_blanks_trimStart text
  obtain ⟨back, ends, others⟩ := exists_blanks_trimEnd (trimStart text)
  refine ⟨front, back, ?_, fun c member => ?_⟩
  · calc
      text = front ++ trimStart text := same
      _ = front ++ (trim text ++ back) := congrArg _ ends
      _ = front ++ trim text ++ back := (List.append_assoc ..).symm
  · exact (List.mem_append.mp member).elim (blanks c) (others c)

end Parley.Text
