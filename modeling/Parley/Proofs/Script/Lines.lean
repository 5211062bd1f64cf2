import Parley.Compilation
import Parley.Proofs.Text.Trimming
import Parley.Proofs.Text.Words

/-!
# Lines and comments

A comment behind a line changes nothing about it: neither the statement that it is read as nor
the variable that it declares, if it does.  A statement loses it with the first `//`; the value of
a declaration may hold a `//` of its own, but only between quotes, which a comment without quotes
cannot close.  A line of blanks and a comment is nothing at all.
-/

namespace Parley.Script

open Parley.Text

namespace Statement

/-- The statements of a script are those of its first lines and then those of the others. -/
theorem allFrom_append (number : Nat) (first second : List Chars) :
    allFrom number (first ++ second) =
      allFrom number first ++ allFrom (number + first.length) second := by
  induction first generalizing number with
  | nil => rfl
  | cons raw first ih =>
      rw [List.cons_append, allFrom, allFrom, ih, List.append_assoc, List.length_cons]
      congr 3
      omega

/-! ## Comments behind statements -/

/-- Of a comment behind a line, a blank is left at most. -/
theorem dropComment_append (raw comment : Chars) :
    dropComment (raw ++ ' ' :: '/' :: '/' :: comment) = dropComment raw ∨
      dropComment (raw ++ ' ' :: '/' :: '/' :: comment) = dropComment raw ++ [' '] := by
  induction raw with
  | nil => exact Or.inr rfl
  | cons c rest ih =>
      have next : (rest ++ ' ' :: '/' :: '/' :: comment).head? = some '/' ↔
          rest.head? = some '/' := by
        cases rest <;> simp
      simp only [List.cons_append, dropComment, next]
      split
      · exact Or.inl rfl
      · exact ih.imp (congrArg _) (congrArg _)

/-- A comment behind a line does not matter. -/
theorem read?_append_comment (number : Nat) (raw comment : Chars) :
    read? number (raw ++ ' ' :: '/' :: '/' :: comment) = read? number raw := by
  simp only [read?]
  rcases dropComment_append raw comment with same | blank
  · rw [same]
  · have stops : ∀ c ∈ [' '].head?, isTab c = false := by
      intro c member
      cases member
      rfl
    obtain ⟨taken, left⟩ := takeWhile_append_of_head (dropComment raw) stops
    rw [blank, taken, left, trim_append_blank rfl]

end Statement

/-! ## Comments behind declarations -/

namespace Declaration

variable {gap comment : Chars}

/-- What stands behind a value: a blank at least and a comment within the line. -/
structure IsTail (tail : Chars) : Prop where
  head : ∀ c ∈ tail.head?, isBlank c = true
  comments : ∃ comment, trimStart tail = '/' :: '/' :: comment
  closed : '"' ∉ tail
  oneLine : '\n' ∉ tail

theorem isWord_eq_false_of_isBlank {c : Char} (blank : isBlank c = true) : isWord c = false := by
  rcases word : isWord c with _ | _
  · rfl
  · rw [isBlank_eq_false_of_isWord word] at blank
    cases blank

theorem isBareChar_eq_false_of_isBlank {c : Char} (blank : isBlank c = true) :
    isBareChar c = false := by
  have other : c ≠ '.' := by
    rintro rfl
    cases blank
  simp [isBareChar, isWord_eq_false_of_isBlank blank, other]

namespace IsTail

variable {tail text : Chars} (comments : IsTail tail)

include comments

theorem ne_nil : tail ≠ [] := by
  rintro rfl
  obtain ⟨comment, same⟩ := comments.comments
  cases same

theorem stops {p : Char → Bool} (blanks : ∀ c, isBlank c = true → p c = false) :
    ∀ c ∈ tail.head?, p c = false :=
  fun c member => blanks c (comments.head c member)

theorem trimStart_append (text : Chars) :
    (trimStart text = [] ∧ ∃ comment, trimStart (text ++ tail) = '/' :: '/' :: comment) ∨
      (trimStart text ≠ [] ∧ trimStart (text ++ tail) = trimStart text ++ tail) := by
  by_cases empty : trimStart text = []
  · have blanks := trimStart_eq_nil_iff.mp empty
    rw [trimStart_append_of_blank blanks]
    exact Or.inl ⟨empty, comments.comments⟩
  · exact Or.inr ⟨empty, trimStart_append_of_solid empty tail⟩

/-- Behind a value there is nothing but a comment before exactly if there is now. -/
theorem endsHere_append (oneLine : '\n' ∉ text) : endsHere (text ++ tail) = endsHere text := by
  have line : '\n' ∉ trimStart (text ++ tail) := fun member =>
    (List.mem_append.mp ((List.dropWhile_suffix isBlank).subset member)).elim oneLine
      comments.oneLine
  obtain ⟨t, others, tailEq⟩ := List.exists_cons_of_ne_nil comments.ne_nil
  have blank : isBlank t = true := comments.head t (by rw [tailEq]; rfl)
  unfold endsHere
  rcases comments.trimStart_append text with ⟨empty, comment, same⟩ | ⟨some, same⟩
  · rw [same] at line ⊢
    rw [empty]
    have : '\n' ∉ comment := fun member => line (by simp [member])
    simpa using this
  · rw [same] at line ⊢
    rcases shape : trimStart text with _ | ⟨c, _ | ⟨d, rest⟩⟩ <;> rw [shape] at some line
    · exact absurd rfl some
    · have other : t ≠ '/' := by
        rintro rfl
        cases blank
      simp [tailEq, other]
    · by_cases marked : c = '/' ∧ d = '/'
      · obtain ⟨rfl, rfl⟩ := marked
        have rests : '\n' ∉ rest ++ tail := fun member => line (by simpa using member)
        have own : '\n' ∉ rest := fun member => rests (List.mem_append_left _ member)
        simp only [List.cons_append, List.contains_eq_mem, rests, own]
      · have apart : ∀ comment more, c :: d :: more ≠ '/' :: '/' :: comment := by
          intro comment more same
          cases same
          exact marked ⟨rfl, rfl⟩
        rw [List.cons_append, List.cons_append]
        split
        · rename_i same
          cases same
        · rename_i same
          exact absurd same (apart _ _)
        · split
          · rename_i same
            cases same
          · rename_i same
            exact absurd same (apart _ _)
          · rfl

theorem cutAt?_append (text : Chars) :
    cutAt? '"' (text ++ tail) =
      (cutAt? '"' text).map fun (inner, rest) => (inner, rest ++ tail) := by
  induction text with
  | nil =>
      rcases found : cutAt? '"' tail with _ | ⟨inner, rest⟩
      · exact found
      · obtain ⟨same, -⟩ := eq_of_cutAt? found
        exact absurd (by simp [same]) comments.closed
  | cons c text ih =>
      rw [List.cons_append, cutAt?, cutAt?]
      split
      · rfl
      · rw [ih]
        cases cutAt? '"' text <;> rfl

theorem quotedValue?_append (oneLine : '\n' ∉ text) :
    quotedValue? (text ++ tail) = quotedValue? text := by
  rw [quotedValue?, quotedValue?, comments.cutAt?_append]
  rcases found : cutAt? '"' text with _ | ⟨inner, rest⟩
  · rfl
  · have within : '\n' ∉ rest := by
      obtain ⟨same, -⟩ := eq_of_cutAt? found
      exact fun member => oneLine (by simp [same, member])
    dsimp only [Option.map_some]
    rw [comments.endsHere_append within]

theorem bareValue?_append (minus : Chars) (oneLine : '\n' ∉ text) :
    bareValue? minus (text ++ tail) = bareValue? minus text := by
  have stops : ∀ c ∈ tail.head?, isBareChar c = false :=
    comments.stops fun c blank => isBareChar_eq_false_of_isBlank blank
  obtain ⟨taken, left⟩ := takeWhile_append_of_head text stops
  have within : '\n' ∉ text.dropWhile isBareChar := fun member =>
    oneLine ((List.dropWhile_suffix isBareChar).subset member)
  simp only [bareValue?, taken, left, comments.endsHere_append within]

theorem value?_append (some : text ≠ []) (oneLine : '\n' ∉ text) :
    value? (text ++ tail) = value? text := by
  obtain ⟨c, rest, rfl⟩ := List.exists_cons_of_ne_nil some
  have within : '\n' ∉ rest := fun member => oneLine (List.mem_cons_of_mem c member)
  by_cases quoted : c = '"'
  · rw [quoted]
    exact comments.quotedValue?_append within
  · by_cases negative : c = '-'
    · rw [negative]
      exact comments.bareValue?_append _ within
    · have bare : ∀ more, value? (c :: more) = bareValue? [] (c :: more) := by
        intro more
        unfold value?
        split <;> simp_all
      rw [bare rest]
      exact (bare _).trans (comments.bareValue?_append [] oneLine)

theorem value?_trimStart_append (oneLine : '\n' ∉ text) :
    value? (trimStart (text ++ tail)) = value? (trimStart text) := by
  rcases comments.trimStart_append text with ⟨empty, comment, same⟩ | ⟨some, same⟩
  · have none : value? ('/' :: '/' :: comment) = none := by
      show bareValue? [] ('/' :: '/' :: comment) = none
      rw [bareValue?, List.takeWhile_cons_of_neg (by decide)]
      rfl
    rw [same, empty, none]
    rfl
  · rw [same]
    exact comments.value?_append some fun member =>
      oneLine ((List.dropWhile_suffix isBlank).subset member)

end IsTail

/-- What the text behind the name of a declaration makes of it. -/
def assigned? (name : Chars) : Chars → Option Declaration
  | [] => none
  | c :: valueText =>
      if c = '=' ∧ name ≠ [] then
        (value? (trimStart valueText)).map fun value => ⟨String.ofList name, value⟩
      else none

/-- A declaration by its first character. -/
theorem read?_eq_assigned? {raw rest : Chars} {c : Char} (ends : trimEnd raw = c :: rest) :
    read? raw =
      if c = '$' then assigned? (rest.takeWhile isWord) (trimStart (rest.dropWhile isWord))
      else none := by
  rw [read?, ends]
  split
  · rename_i same
    cases same
    rw [if_pos rfl]
    split
    · rename_i valueText begins
      rw [begins, assigned?]
      by_cases unnamed : rest.takeWhile isWord = []
      · rw [if_pos unnamed, if_neg fun both => both.2 unnamed]
      · rw [if_neg unnamed, if_pos ⟨rfl, unnamed⟩]
    · rename_i other
      unfold assigned?
      split
      · rfl
      · rename_i d valueText same
        rw [if_neg]
        rintro ⟨rfl, -⟩
        exact other _ same
  · rename_i other
    rw [if_neg]
    rintro rfl
    exact other _ rfl

/-- A tail behind a line does not matter to what the line declares. -/
theorem read?_of_tail {raw commented tail : Chars} (comments : IsTail tail)
    (oneLine : '\n' ∉ trimEnd raw) (ends : trimEnd commented = trimEnd raw ++ tail) :
    read? commented = read? raw := by
  rcases kept : trimEnd raw with _ | ⟨c, rest⟩ <;> rw [kept] at oneLine ends
  · obtain ⟨t, others, rfl⟩ := List.exists_cons_of_ne_nil comments.ne_nil
    have other : t ≠ '$' := by
      rintro rfl
      cases comments.head '$' rfl
    rw [read?_eq_assigned? ends, if_neg other, read?, kept]
  · have stops : ∀ d ∈ tail.head?, isWord d = false :=
      comments.stops fun d blank => isWord_eq_false_of_isBlank blank
    obtain ⟨taken, left⟩ := takeWhile_append_of_head rest stops
    have within : '\n' ∉ trimStart (rest.dropWhile isWord) := fun member =>
      oneLine (List.mem_cons_of_mem c ((List.dropWhile_suffix isWord).subset
        ((List.dropWhile_suffix isBlank).subset member)))
    rw [List.cons_append] at ends
    rw [read?_eq_assigned? ends, read?_eq_assigned? kept, taken, left]
    congr 1
    rcases comments.trimStart_append (rest.dropWhile isWord) with
      ⟨empty, comment, same⟩ | ⟨some, same⟩
    · rw [same, empty]
      rfl
    · rw [same]
      obtain ⟨d, valueText, assigned⟩ := List.exists_cons_of_ne_nil some
      rw [assigned] at within ⊢
      rw [List.cons_append, assigned?, assigned?, comments.value?_trimStart_append fun member =>
        within (List.mem_cons_of_mem d member)]

theorem isTail_of_comment {gap comment : Chars} (blanks : ∀ c ∈ gap, isBlank c = true)
    (oneLine : '\n' ∉ gap) (closed : '"' ∉ comment) (oneLineComment : '\n' ∉ comment) :
    IsTail (gap ++ ' ' :: '/' :: '/' :: comment) where
  head c member := by
    cases gap with
    | nil =>
        cases member
        rfl
    | cons d gap =>
        cases member
        exact blanks c List.mem_cons_self
  comments := by
    refine ⟨comment, ?_⟩
    rw [trimStart_append_of_blank blanks, trimStart_cons_blank rfl]
    exact trimStart_cons_of_not_blank rfl _
  closed member := by
    rcases List.mem_append.mp member with member | member
    · cases blanks _ member
    · simp [closed] at member
  oneLine member := by
    rcases List.mem_append.mp member with member | member
    · exact oneLine member
    · simp [oneLineComment] at member

/-- A comment without quotes does not matter to what a line declares. -/
theorem read?_append_comment {raw comment : Chars} (oneLine : '\n' ∉ raw)
    (closed : '"' ∉ comment) (oneLineComment : '\n' ∉ comment) :
    read? (raw ++ ' ' :: '/' :: '/' :: comment) = read? raw := by
  obtain ⟨gap, whole, blanks⟩ := exists_blanks_trimEnd raw
  have tail : IsTail (gap ++ ' ' :: '/' :: '/' :: trimEnd comment) := by
    refine isTail_of_comment blanks (fun member => oneLine ?_)
      (fun member => closed (mem_of_mem_trimEnd member))
      fun member => oneLineComment (mem_of_mem_trimEnd member)
    rw [whole]
    exact List.mem_append_right _ member
  have last : ∀ c ∈ (raw ++ [' ', '/', '/']).getLast?, isBlank c = false := by
    intro c member
    rw [List.getLast?_append] at member
    cases member
    rfl
  refine read?_of_tail tail (fun member => oneLine (mem_of_mem_trimEnd member)) ?_
  calc
    trimEnd (raw ++ ' ' :: '/' :: '/' :: comment)
        = trimEnd (raw ++ [' ', '/', '/'] ++ comment) := by simp
    _ = raw ++ [' ', '/', '/'] ++ trimEnd comment := trimEnd_append_of_last last comment
    _ = trimEnd raw ++ gap ++ [' ', '/', '/'] ++ trimEnd comment := by rw [← whole]
    _ = trimEnd raw ++ (gap ++ ' ' :: '/' :: '/' :: trimEnd comment) := by simp

end Declaration

/-! ## Idle lines -/

/-- A line of blanks, or of blanks and a comment. -/
def IsIdle (raw : Chars) : Prop :=
  ∃ blanks, (∀ c ∈ blanks, isBlank c = true) ∧
    (raw = blanks ∨ ∃ comment, raw = blanks ++ '/' :: '/' :: comment)

namespace IsIdle

variable {raw : Chars} (idle : IsIdle raw)

include idle

theorem dropComment : ∀ c ∈ Statement.dropComment raw, isBlank c = true := by
  obtain ⟨blanks, each, whole⟩ := idle
  have kept : ∀ rest, (∀ c ∈ Statement.dropComment rest, isBlank c = true) →
      ∀ c ∈ Statement.dropComment (blanks ++ rest), isBlank c = true := by
    intro rest others
    clear whole
    induction blanks with
    | nil => exact others
    | cons c blanks ih =>
        have first := each c List.mem_cons_self
        have other : ¬ (c = '/' ∧ (blanks ++ rest).head? = some '/') := by
          rintro ⟨rfl, -⟩
          cases first
        rw [List.cons_append, Statement.dropComment, if_neg other]
        intro d member
        rcases List.mem_cons.mp member with rfl | member
        · exact first
        · exact ih (fun e among => each e (List.mem_cons_of_mem _ among)) d member
  rcases whole with rfl | ⟨comment, rfl⟩
  · simpa using kept [] (by simp [Statement.dropComment])
  · exact kept _ (by simp [Statement.dropComment])

theorem read?_statement (number : Nat) : Statement.read? number raw = none := by
  have blank : trim ((Statement.dropComment raw).dropWhile Statement.isTab) = [] :=
    trim_eq_nil_iff.mpr fun c member =>
      idle.dropComment c ((List.dropWhile_suffix Statement.isTab).subset member)
  simp only [Statement.read?]
  exact if_pos blank

theorem read?_declaration : Declaration.read? raw = none := by
  rcases kept : trimEnd raw with _ | ⟨c, rest⟩
  · rw [Declaration.read?, kept]
  · obtain ⟨back, same, -⟩ := exists_blanks_trimEnd raw
    have other : c ≠ '$' := by
      rintro rfl
      rw [kept] at same
      obtain ⟨_ | ⟨blank, blanks⟩, each, rfl | ⟨comment, rfl⟩⟩ := idle
      · cases same
      · cases same
      all_goals
        obtain ⟨rfl, -⟩ := List.cons.inj same
        cases each '$' List.mem_cons_self
    rw [Declaration.read?_eq_assigned? kept, if_neg other]

end IsIdle

/-! ## Significant lines -/

/-- A line that carries a construct: it is neither idle nor the declaration of a variable. -/
structure IsSignificant (raw : Chars) : Prop where
  busy : ¬ IsIdle raw
  undeclared : Declaration.read? raw = none

namespace Statement

theorem isBlank_of_isTab {c : Char} (tab : isTab c = true) : isBlank c = true := by
  rw [eq_of_beq tab]
  rfl

/-- What is dropped is nothing or a comment. -/
theorem eq_dropComment_or (raw : Chars) :
    raw = dropComment raw ∨ ∃ comment, raw = dropComment raw ++ '/' :: '/' :: comment := by
  induction raw with
  | nil => exact Or.inl rfl
  | cons c rest ih =>
      rw [dropComment]
      split
      · rename_i marked
        obtain ⟨rfl, next⟩ := marked
        obtain ⟨comment, rfl⟩ := List.head?_eq_some_iff.mp next
        exact Or.inr ⟨comment, rfl⟩
      · exact ih.imp (congrArg (c :: ·)) fun ⟨comment, same⟩ => ⟨comment, congrArg (c :: ·) same⟩

/-- The lines that are no statements are those of blanks and comments. -/
theorem read?_eq_none_iff {number : Nat} {raw : Chars} : read? number raw = none ↔ IsIdle raw := by
  refine ⟨fun unread => ?_, fun idle => idle.read?_statement number⟩
  have blanks : ∀ c ∈ dropComment raw, isBlank c = true := by
    simp only [read?] at unread
    split at unread
    · rename_i empty
      intro c member
      rw [← List.takeWhile_append_dropWhile (p := isTab) (l := dropComment raw)] at member
      rcases List.mem_append.mp member with tab | other
      · exact isBlank_of_isTab (List.all_eq_true.mp List.all_takeWhile c tab)
      · exact trim_eq_nil_iff.mp empty c other
    · cases unread
  exact ⟨dropComment raw, blanks, eq_dropComment_or raw⟩

/-- The significant lines are those that are read as statements. -/
theorem isSignificant_iff {number : Nat} {raw : Chars} :
    IsSignificant raw ↔ ∃ statement, readUndeclared? number raw = some statement := by
  unfold readUndeclared?
  rcases declared : Declaration.read? raw with _ | declaration
  · rcases read : read? number raw with _ | statement
    · have idle := read?_eq_none_iff.mp read
      exact ⟨fun significant => absurd idle significant.busy, fun ⟨_, found⟩ => nomatch found⟩
    · have busy : ¬ IsIdle raw := fun idle => by
        rw [idle.read?_statement number] at read
        cases read
      exact ⟨fun _ => ⟨statement, rfl⟩, fun _ => ⟨busy, declared⟩⟩
  · refine ⟨fun significant => ?_, fun ⟨_, found⟩ => nomatch found⟩
    rw [significant.undeclared] at declared
    cases declared

theorem number_of_readUndeclared? {number : Nat} {raw : Chars} {statement : Statement}
    (found : readUndeclared? number raw = some statement) : statement.number = number := by
  unfold readUndeclared? at found
  split at found
  · cases found
  · exact number_of_read? found

/-- Each statement is read from one line, behind the lines of the statements before it. -/
theorem exists_line_of_allFrom {number : Nat} {lines : List Chars} {before after : List Statement}
    {statement : Statement} (split : allFrom number lines = before ++ statement :: after) :
    ∃ front raw back, lines = front ++ raw :: back ∧ allFrom number front = before ∧
      readUndeclared? (number + front.length) raw = some statement := by
  induction lines generalizing number before with
  | nil => cases before <;> cases split
  | cons raw rest ih =>
      rw [allFrom] at split
      -- The line may be silent, it may be the one that is asked for, or it may come before it.
      rcases read : readUndeclared? number raw with _ | first <;> rw [read] at split
      · obtain ⟨front, found, back, rfl, same, reads⟩ := ih split
        refine ⟨raw :: front, found, back, rfl, ?_, ?_⟩
        · rw [allFrom, read, same]
          rfl
        · rw [← reads, List.length_cons, Nat.add_assoc, Nat.add_comm 1]
      · rcases before with _ | ⟨earlier, before⟩
        · obtain ⟨rfl, -⟩ := List.cons.inj split
          exact ⟨[], raw, rest, rfl, rfl, read⟩
        · obtain ⟨rfl, others⟩ := List.cons.inj split
          obtain ⟨front, found, back, rfl, same, reads⟩ := ih others
          refine ⟨raw :: front, found, back, rfl, ?_, ?_⟩
          · rw [allFrom, read, same]
            rfl
          · rw [← reads, List.length_cons, Nat.add_assoc, Nat.add_comm 1]

/-- The lines up to a statement decide about the statements up to it. -/
theorem allFrom_of_line {number : Nat} {front : List Chars} {raw : Chars} {statement : Statement}
    (reads : readUndeclared? (number + front.length) raw = some statement) (back : List Chars) :
    ∃ after, allFrom number (front ++ raw :: back) =
      allFrom number front ++ statement :: after := by
  refine ⟨allFrom (number + front.length + 1) back, ?_⟩
  rw [allFrom_append, allFrom, reads]
  rfl

end Statement

/-! ## Numbers -/

namespace Statement

/-- A statement with the number that its line has elsewhere. -/
def renumber (place : Nat → Nat) (statement : Statement) : Statement :=
  { statement with number := place statement.number }

theorem readUndeclared?_renumber (place : Nat → Nat) (number : Nat) (raw : Chars) :
    readUndeclared? (place number) raw = (readUndeclared? number raw).map (renumber place) := by
  unfold readUndeclared? read?
  split
  · rfl
  · dsimp only
    split <;> rfl

/-- Lines that stay together keep their statements, wherever they are moved. -/
theorem allFrom_renumber {place : Nat → Nat} {number moved : Nat} {lines : List Chars}
    (places : ∀ i < lines.length, place (number + i) = moved + i) :
    allFrom moved lines = (allFrom number lines).map (renumber place) := by
  induction lines generalizing number moved with
  | nil => rfl
  | cons raw rest ih =>
      have first : place number = moved := places 0 (Nat.succ_pos _)
      have others : ∀ i < rest.length, place (number + 1 + i) = moved + 1 + i := by
        intro i within
        have := places (i + 1) (Nat.succ_lt_succ within)
        rw [Nat.add_assoc, Nat.add_comm 1 i, this]
        omega
      rw [allFrom, allFrom, List.map_append, ← ih others, ← first, readUndeclared?_renumber,
        Option.toList_map]

end Statement

end Parley.Script
