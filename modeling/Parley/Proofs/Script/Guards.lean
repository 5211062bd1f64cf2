import Parley.Proofs.Script.OptionLayout
import Parley.Script.ArmLine

/-!
# Conditions of arms and of options

A condition stands behind the word `if` in a group, on a line of its own as an arm of a branch and
in front of the text of an option.  An arm takes the word off once.  An option takes it off as often
as it is repeated, so the two read a condition alike exactly if it does not begin with the word
itself.  What surrounds the condition makes no difference, as long as an option has a text.
-/

namespace Parley.Script

open Parley.Text

variable {guard text : Chars}

/-! ## Sources -/

/-- The group that holds the word and a condition: the source of an arm. -/
def guardSource (guard : Chars) : Chars :=
  '(' :: (OptionLine.ifWord ++ guard ++ [')'])

/-- The source of an option with a condition. -/
def guardedOptionSource (guard text : Chars) : Chars :=
  '>' :: ' ' :: (guardSource guard ++ ' ' :: text)

theorem leadingGroup?_guardSource (balanced : Balanced guard) (rest : Chars) :
    leadingGroup? (guardSource guard ++ rest) = some (OptionLine.ifWord ++ guard, rest) := by
  have word : Balanced OptionLine.ifWord := by decide
  exact leadingGroup?_eq_some_iff.mpr ⟨by simp [guardSource], word.append balanced⟩

theorem last_guardSource (guard : Chars) : (guardSource guard).getLast? = some ')' := by
  rw [guardSource, ← List.cons_append, List.getLast?_concat]

theorem isBlank_last_guardSource (guard : Chars) :
    ∀ c ∈ (guardSource guard).getLast?, isBlank c = false := by
  intro c member
  rw [last_guardSource] at member
  cases member
  rfl

/-! ## Arms -/

/-- An arm takes the word off once. -/
theorem ArmLine.read_guardSource (balanced : Balanced guard) :
    ArmLine.read (guardSource guard) =
      if trim guard = [] then
        .error (.malformed (.branchConditionEmpty (String.ofList (guardSource guard))))
      else .ok (some (trim guard)) := by
  have group : wholeGroup? (guardSource guard) = some (OptionLine.ifWord ++ guard) := by
    have found := leadingGroup?_guardSource balanced []
    rw [List.append_nil] at found
    rw [wholeGroup?, found]
  have inner : trim (OptionLine.ifWord ++ guard) = OptionLine.ifWord ++ trimEnd guard := by
    have start : trimStart (OptionLine.ifWord ++ guard) = OptionLine.ifWord ++ guard :=
      trimStart_cons_of_not_blank rfl _
    have last : ∀ c ∈ OptionLine.ifWord.getLast?, isBlank c = false := by
      rintro c ⟨⟩
      rfl
    rw [trim, start, trimEnd_append_of_last last]
  have other : "else".toList.isPrefixOf? (OptionLine.ifWord ++ trimEnd guard) = none := rfl
  have word : afterIf? (OptionLine.ifWord ++ trimEnd guard) = some (trimEnd guard) := rfl
  rw [read, group]
  dsimp only
  rw [inner, other]
  dsimp only
  rw [word, condition, trim_trimEnd]

/-! ## Options -/

namespace OptionLine

/-- What is left of the text of an option without the end marker. -/
def offeredText (text : Chars) : Chars :=
  trim (takeEndMarker (trimEnd text)).1

/-- What an option takes for its condition. -/
def takenGuard (guard : Chars) : Chars :=
  trim (dropRepeated ifWord (ifWord ++ guard))

theorem body_guardedOptionSource (guard text : Chars) :
    body (guardedOptionSource guard text) = guardSource guard ++ trimEnd (' ' :: text) := by
  have start : trimStart (guardSource guard ++ ' ' :: text) = guardSource guard ++ ' ' :: text :=
    trimStart_cons_of_not_blank rfl _
  rw [guardedOptionSource, body, trim_cons_blank rfl, trim, start,
    trimEnd_append_of_last (isBlank_last_guardSource guard)]

/-- Behind the mark of an option stands the condition with nothing behind it, or with a blank and
the text. -/
theorem trimEnd_blank_cons (text : Chars) :
    (trimEnd text = [] ∧ trimEnd (' ' :: text) = []) ∨
      (trimEnd text ≠ [] ∧ trimEnd (' ' :: text) = ' ' :: trimEnd text) := by
  by_cases empty : trimEnd text = []
  · refine Or.inl ⟨empty, trimEnd_eq_nil_iff.mpr (List.forall_mem_cons.mpr ⟨rfl, ?_⟩)⟩
    exact trimEnd_eq_nil_iff.mp empty
  · exact Or.inr ⟨empty, trimEnd_append_of_solid empty [' ']⟩

/-- The condition opens the line, so it is no command block. -/
theorem takeFinalGroup_guarded (balanced : Balanced guard) (flat : ∀ c ∈ text, isFlat c = true) :
    takeFinalGroup (guardSource guard ++ trimEnd (' ' :: text)) =
      (guardSource guard ++ trimEnd (' ' :: text), none) := by
  have trimmed : trimEnd (guardSource guard ++ trimEnd (' ' :: text)) =
      guardSource guard ++ trimEnd (' ' :: text) := by
    rw [trimEnd_append_of_last (isBlank_last_guardSource guard),
      trimEnd_of_last (last_trimEnd (' ' :: text))]
  rcases trimEnd_blank_cons text with ⟨-, empty⟩ | ⟨nonempty, kept⟩
  · rw [empty, List.append_nil] at trimmed ⊢
    have word : Balanced ifWord := by decide
    have place : finalGroupFrom 0 Nesting.top none (guardSource guard) = some 0 :=
      finalGroupFrom_group Balanced.nil (word.append balanced)
    simp only [takeFinalGroup, trimmed, last_guardSource, if_pos, place]
  · have others : ∀ c ∈ trimEnd text, isFlat c = true :=
      fun c member => flat c (mem_of_mem_trimEnd member)
    obtain ⟨c, last, -, other⟩ := exists_last_of_flat nonempty others (last_trimEnd text)
    have ends : (trimEnd (guardSource guard ++ trimEnd (' ' :: text))).getLast? ≠ some ')' := by
      rw [trimmed, kept, List.getLast?_append, List.getLast?_cons, Option.mem_def.mp last]
      exact fun same => other (Option.some.inj same)
    rw [takeFinalGroup_of_last ends, trimmed]

/-- The end marker is part of the text, if it is there. -/
theorem takeEndMarker_guarded (guard text : Chars) :
    ∃ rest, takeEndMarker (guardSource guard ++ trimEnd (' ' :: text)) =
        (guardSource guard ++ rest, (takeEndMarker (trimEnd text)).2) ∧
      trim rest = offeredText text := by
  rcases trimEnd_blank_cons text with ⟨empty, none⟩ | ⟨-, kept⟩
  · have unmarked : ¬ endMarker <:+ guardSource guard := by
      rintro ⟨front, same⟩
      have last := last_guardSource guard
      have bracket : endMarker.getLast? = some ']' := by decide +kernel
      rw [← same, List.getLast?_append, bracket] at last
      cases last
    refine ⟨[], ?_, by rw [offeredText, empty]; rfl⟩
    rw [none, empty, List.append_nil, takeEndMarker_of_not_suffix unmarked]
    rfl
  · rw [kept, offeredText]
    by_cases marked : endMarker <:+ trimEnd text
    · obtain ⟨front, same⟩ := marked
      refine ⟨trimEnd (' ' :: front), ?_, ?_⟩
      · rw [← same, takeEndMarker_append, ← List.cons_append, ← List.append_assoc,
          takeEndMarker_append, trimEnd_append_of_last (isBlank_last_guardSource guard)]
      · rw [← same, takeEndMarker_append, trim_trimEnd, trim_trimEnd, trim_cons_blank rfl]
    · have unmarked : ¬ endMarker <:+ guardSource guard ++ ' ' :: trimEnd text :=
        not_suffix_of_blank (by decide) marked (guardSource guard)
      refine ⟨' ' :: trimEnd text, ?_, ?_⟩
      · rw [takeEndMarker_of_not_suffix unmarked, takeEndMarker_of_not_suffix marked]
      · rw [takeEndMarker_of_not_suffix marked, trim_cons_blank rfl]

/-- An option takes the word off as often as it is repeated. -/
theorem takeCondition_guarded (balanced : Balanced guard) (rest : Chars) :
    takeCondition (guardSource guard ++ rest) =
      if takenGuard guard = [] then
        .error (.malformed (.optionConditionEmpty (String.ofList (guardSource guard ++ rest))))
      else .ok (some (takenGuard guard), trim rest) := by
  have opens : "(if".toList.isPrefixOf (guardSource guard ++ rest) = true := rfl
  rw [takeCondition, if_pos opens, leadingGroup?_guardSource balanced]
  rfl

/-- What is read of an option with a condition. -/
theorem read_guardedOptionSource_iff (balanced : Balanced guard)
    (flat : ∀ c ∈ text, isFlat c = true) {line : OptionLine} :
    read (guardedOptionSource guard text) = .ok line ↔
      takenGuard guard ≠ [] ∧ offeredText text ≠ [] ∧
        line = {
          text := String.ofList (offeredText text)
          condition := some (takenGuard guard)
          block := none
          terminal := (takeEndMarker (trimEnd text)).2 } := by
  obtain ⟨rest, marked, offered⟩ := takeEndMarker_guarded guard text
  simp only [read, body_guardedOptionSource, takeFinalGroup_guarded balanced flat, marked,
    takeCondition_guarded balanced, offered]
  by_cases none : takenGuard guard = []
  · simp [none, bind, Except.bind]
  · rw [if_neg none, ok_bind]
    by_cases empty : offeredText text = []
    · simp [empty, throw, throwThe, MonadExceptOf.throw]
    · simp [none, empty, pure, Except.pure, eq_comm]

end OptionLine

/-! ## The word repeated -/

theorem dropRepeated_go_suffix (head : Chars) (fuel : Nat) (text : Chars) :
    dropRepeated.go head fuel text <:+ text := by
  induction fuel generalizing text with
  | zero => exact List.suffix_refl text
  | succ fuel ih =>
      rw [dropRepeated.go]
      split
      · rename_i shorter found
        have whole := List.isPrefixOf?_eq_some_iff_append_eq.mp found
        exact (ih shorter).trans ⟨head, whole⟩
      · exact List.suffix_refl text

theorem dropRepeated_go_append (head text : Chars) (fuel : Nat) :
    dropRepeated.go head (fuel + 1) (head ++ text) = dropRepeated.go head fuel text := by
  have found : head.isPrefixOf? (head ++ text) = some text :=
    List.isPrefixOf?_eq_some_iff_append_eq.mpr rfl
  rw [dropRepeated.go, found]

theorem dropRepeated_go_of_absent {head text : Chars} (other : ¬ head <+: text) (fuel : Nat) :
    dropRepeated.go head fuel text = text := by
  cases fuel with
  | zero => rfl
  | succ fuel =>
      rw [dropRepeated.go]
      split
      · rename_i shorter found
        exact absurd ⟨shorter, List.isPrefixOf?_eq_some_iff_append_eq.mp found⟩ other
      · rfl

/-- The characters of a text that are no blanks. -/
def solidCount (text : Chars) : Nat :=
  text.countP fun c => !isBlank c

theorem solidCount_trim (text : Chars) : solidCount (trim text) = solidCount text := by
  obtain ⟨front, back, whole, blanks⟩ := exists_blanks_trim text
  have none : ∀ part, (∀ c ∈ part, isBlank c = true) → solidCount part = 0 := by
    intro part each
    refine List.countP_eq_zero.mpr fun c member => ?_
    simp [each c member]
  have first := none front fun c member => blanks c (List.mem_append_left _ member)
  have last := none back fun c member => blanks c (List.mem_append_right _ member)
  conv_rhs => rw [whole]
  unfold solidCount at first last ⊢
  rw [List.countP_append, List.countP_append, first, last]
  omega

/-- An option and an arm take the same for the condition exactly if it does not begin with the
word: otherwise the word of the condition is lost. -/
theorem takenGuard_eq_iff :
    OptionLine.takenGuard guard = trim guard ↔ ¬ OptionLine.ifWord <+: guard := by
  have taken : OptionLine.takenGuard guard =
      trim (dropRepeated.go OptionLine.ifWord (guard.length + 1) guard) := by
    have length : (OptionLine.ifWord ++ guard).length = guard.length + 1 + 1 :=
      List.length_append.trans (Nat.add_comm 2 guard.length)
    rw [OptionLine.takenGuard, dropRepeated, length, dropRepeated_go_append]
  rw [taken]
  constructor
  · rintro same ⟨rest, rfl⟩
    rw [dropRepeated_go_append] at same
    have counted := congrArg solidCount same
    rw [solidCount_trim, solidCount_trim] at counted
    have word : solidCount (OptionLine.ifWord ++ rest) = 2 + solidCount rest :=
      List.countP_append
    have fewer : ∀ fuel, solidCount (dropRepeated.go OptionLine.ifWord fuel rest) ≤
        solidCount rest :=
      fun fuel => (dropRepeated_go_suffix OptionLine.ifWord fuel rest).sublist.countP_le
    have := fewer (OptionLine.ifWord ++ rest).length
    omega
  · intro other
    rw [dropRepeated_go_of_absent other]

/-! ## Reading alike -/

/-- An option has the condition that an arm has, and it is refused where an arm is refused because
it has none. -/
structure ReadsAlike (guard text : Chars) : Prop where
  accepted : ∀ condition, ArmLine.read (guardSource guard) = .ok (some condition) →
    ∃ line, OptionLine.read (guardedOptionSource guard text) = .ok line ∧
      line.condition = some condition
  refused : ∀ content,
    ArmLine.read (guardSource guard) = .error (.malformed (.branchConditionEmpty content)) →
      ∃ fault, OptionLine.read (guardedOptionSource guard text) = .error fault

/-- A condition reads the same on an option as on an arm exactly if it is blank, which both refuse,
or it does not begin with the word `if` again and the option has a text besides its end marker. -/
theorem readsAlike_iff (balanced : Balanced guard) (flat : ∀ c ∈ text, isFlat c = true) :
    ReadsAlike guard text ↔
      trim guard = [] ∨ (¬ OptionLine.ifWord <+: guard ∧ OptionLine.offeredText text ≠ []) := by
  have arm := ArmLine.read_guardSource balanced
  by_cases blank : trim guard = []
  · rw [if_pos blank] at arm
    refine iff_of_true ⟨fun condition found => ?_, fun content found => ?_⟩ (Or.inl blank)
    · rw [arm] at found
      cases found
    · rcases read : OptionLine.read (guardedOptionSource guard text) with fault | line
      · exact ⟨fault, rfl⟩
      · obtain ⟨nonempty, -⟩ := (OptionLine.read_guardedOptionSource_iff balanced flat).mp read
        have other : ¬ OptionLine.ifWord <+: guard := by
          rintro ⟨rest, rfl⟩
          cases trim_eq_nil_iff.mp blank 'i' List.mem_cons_self
        exact absurd ((takenGuard_eq_iff.mpr other).trans blank) nonempty
  · rw [if_neg blank] at arm
    have same : OptionLine.takenGuard guard = trim guard ↔ ¬ OptionLine.ifWord <+: guard :=
      takenGuard_eq_iff
    constructor
    · rintro ⟨accepted, -⟩
      obtain ⟨line, read, condition⟩ := accepted _ arm
      obtain ⟨-, offered, rfl⟩ :=
        (OptionLine.read_guardedOptionSource_iff balanced flat).mp read
      exact Or.inr ⟨same.mp (Option.some.inj condition), offered⟩
    · rintro (empty | ⟨other, offered⟩)
      · exact absurd empty blank
      · have taken := same.mpr other
        refine ⟨fun condition found => ?_, fun content found => ?_⟩
        · rw [arm] at found
          cases found
          refine ⟨_, (OptionLine.read_guardedOptionSource_iff balanced flat).mpr
            ⟨?_, offered, rfl⟩, congrArg some taken⟩
          rwa [taken]
        · rw [arm] at found
          cases found

/-- A nested group, a quoted parenthesis and the word behind a blank. -/
theorem readsAlike_of_nested_guard :
    ReadsAlike " if((1), \")\") and $met".toList "Go on. [[end]]".toList := by
  refine (readsAlike_iff (by decide +kernel) (List.all_eq_true.mp (by decide +kernel))).mpr
    (Or.inr ⟨?_, by decide +kernel⟩)
  decide +kernel

/-- Without a blank behind the keyword, an option takes the first letters off the name of the
command that an arm calls. -/
theorem not_readsAlike_of_command_that_begins_with_keyword :
    ArmLine.read "(ififfy())".toList = .ok (some "iffy()".toList) ∧
      OptionLine.read "> (ififfy()) go".toList =
        .ok ⟨"go", some "fy()".toList, none, false⟩ ∧
      ¬ ReadsAlike "iffy()".toList "go".toList := by
  have arm : ArmLine.read (guardSource "iffy()".toList) = .ok (some "iffy()".toList) := by
    decide +kernel
  have option : OptionLine.read (guardedOptionSource "iffy()".toList "go".toList) =
      .ok ⟨"go", some "fy()".toList, none, false⟩ := by
    decide +kernel
  refine ⟨arm, option, fun alike => ?_⟩
  obtain ⟨line, read, condition⟩ := alike.accepted _ arm
  rw [option] at read
  cases read
  cases condition

end Parley.Script
