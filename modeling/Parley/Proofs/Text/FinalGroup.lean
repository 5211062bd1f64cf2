import Mathlib.Data.List.Induction
import Parley.Proofs.Text.Endings

/-!
# When a text ends in a group

A scan that remembers only the last parenthesis opened at top level finds the group in which a
text ends.  Every parenthesis that is open behind a text has been opened somewhere, and nothing
behind that place closes it.  So a balanced text that ends with a closing parenthesis ends in a
balanced group behind a balanced text, and there is only one way to take it apart like that.
-/

namespace Parley.Text

variable {text front inner other within : Chars}

namespace Nesting

variable {nesting after : Nesting} {c : Char} {level : Nat}

/-- What is read without coming back from a depth can be read outside of it. -/
theorem read?_of_deeper {more : Nat}
    (reads : (nesting.deeper more).read? c = some (after.deeper more)) :
    nesting.read? c = some after := by
  obtain ⟨depth, quoted⟩ := nesting
  obtain ⟨last, lastQuoted⟩ := after
  revert reads
  simp only [read?, read, deeper]
  grind

/-- Whoever is deeper than a level behind a character was so before, or has just gone there. -/
theorem opens_or_of_read? (reads : nesting.read? c = some after) (deep : level < after.depth) :
    level < nesting.depth ∨ c = '(' ∧ nesting = ⟨level, false⟩ ∧ after = ⟨level + 1, false⟩ := by
  obtain ⟨depth, quoted⟩ := nesting
  revert reads
  simp only [read?, read]
  grind

/-- A text is read up to its last character, and then that one is read. -/
theorem readAll?_concat_eq_some_iff :
    nesting.readAll? (text ++ [c]) = some after ↔
      ∃ before, nesting.readAll? text = some before ∧ before.read? c = some after := by
  have single : ∀ before : Nesting, before.readAll? [c] = before.read? c := by
    intro before
    rw [readAll?]
    cases before.read? c <;> rfl
  rw [readAll?_append, Option.bind_eq_some_iff]
  simp only [single]

end Nesting

/-! ## What is open has been opened -/

/-- Where parentheses are open behind a text, it falls apart at the one that opened a given
level: in front of that one everything deeper is closed, and behind it nothing is closed that
has not been opened there. -/
theorem exists_opening {level : Nat} {after : Nesting}
    (reads : Nesting.top.readAll? text = some (after.deeper (level + 1))) :
    ∃ front inner, text = front ++ '(' :: inner ∧
      Nesting.top.readAll? front = some ⟨level, false⟩ ∧
      Nesting.top.readAll? inner = some after := by
  induction text using List.reverseRecOn generalizing after with
  | nil =>
      have shallow : Nesting.top = after.deeper (level + 1) := Option.some.inj reads
      cases congrArg Nesting.depth shallow
  | append_singleton text c ih =>
      obtain ⟨before, first, last⟩ := Nesting.readAll?_concat_eq_some_iff.mp reads
      have deep : level < (after.deeper (level + 1)).depth := by
        show level < after.depth + (level + 1)
        omega
      rcases Nesting.opens_or_of_read? last deep with deep | ⟨rfl, rfl, opened⟩
      · -- The level was open before the last character, so that one is read behind the opening.
        obtain ⟨outside, rfl⟩ : ∃ outside : Nesting, before = outside.deeper (level + 1) :=
          ⟨⟨before.depth - (level + 1), before.quoted⟩,
            congrArg (Nesting.mk · before.quoted) (Nat.sub_add_cancel deep).symm⟩
        obtain ⟨front, inner, rfl, outer, reaches⟩ := ih first
        refine ⟨front, inner ++ [c], by simp, outer, ?_⟩
        exact Nesting.readAll?_concat_eq_some_iff.mpr
          ⟨outside, reaches, Nesting.read?_of_deeper last⟩
      · obtain ⟨depth, quoted⟩ := after
        have same : depth + (level + 1) = level + 1 ∧ quoted = false := by
          simpa [Nesting.deeper] using opened
        obtain rfl : depth = 0 := by omega
        obtain rfl : quoted = false := same.2
        exact ⟨text, [], rfl, first, rfl⟩

/-- A balanced text that ends with a closing parenthesis ends in a group. -/
theorem Balanced.exists_group (balanced : Balanced text) (last : text.getLast? = some ')') :
    ∃ front inner, text = front ++ '(' :: (inner ++ [')']) ∧ Balanced front ∧ Balanced inner := by
  obtain ⟨start, rfl⟩ := List.getLast?_eq_some_iff.mp last
  obtain ⟨before, reads, closes⟩ := Nesting.readAll?_concat_eq_some_iff.mp balanced
  have inside : before = Nesting.top.deeper 1 := by
    obtain ⟨depth, quoted⟩ := before
    revert closes
    simp only [Nesting.read?, Nesting.read, Nesting.top, Nesting.deeper]
    grind
  rw [inside] at reads
  obtain ⟨front, inner, rfl, outer, nested⟩ := exists_opening reads
  exact ⟨front, inner, by simp, outer, nested⟩

/-! ## Finding the group -/

/-- A text in which a final group is found is balanced. -/
theorem readAll?_of_finalGroupFrom {position place : Nat} {nesting : Nesting} {found : Option Nat}
    (finds : finalGroupFrom position nesting found text = some place) :
    nesting.readAll? text = some Nesting.top := by
  induction text generalizing position nesting found with
  | nil =>
      rw [finalGroupFrom] at finds
      split at finds
      · rename_i closed
        exact congrArg some closed
      · cases finds
  | cons c rest ih =>
      rw [finalGroupFrom] at finds
      rw [Nesting.readAll?]
      rcases read : nesting.read? c with _ | next
      · rw [read] at finds
        cases finds
      · rw [read] at finds
        exact ih finds

/-- A text ends in a group: behind some balanced text there is another one in parentheses. -/
structure EndsInGroup (text front inner : Chars) : Prop where
  parts : text = front ++ '(' :: (inner ++ [')'])
  nonempty : front ≠ []
  outer : Balanced front
  nested : Balanced inner

/-- There is one way only in which a text ends in a group. -/
theorem EndsInGroup.unique (ends : EndsInGroup text front inner)
    (another : EndsInGroup text other within) : front = other ∧ inner = within := by
  have place := finalGroupFrom_group ends.outer ends.nested
  have placeOther := finalGroupFrom_group another.outer another.nested
  rw [← ends.parts] at place
  rw [← another.parts, place] at placeOther
  have same : front ++ '(' :: (inner ++ [')']) = other ++ '(' :: (within ++ [')']) :=
    ends.parts.symm.trans another.parts
  obtain ⟨fronts, groups⟩ := List.append_inj same (Option.some.inj placeOther)
  exact ⟨fronts, List.append_cancel_right (List.cons.inj groups).2⟩

/-- Blanks behind a text make no difference to its final group. -/
theorem takeFinalGroup_trimEnd (text : Chars) :
    takeFinalGroup (trimEnd text) = takeFinalGroup text := by
  rw [takeFinalGroup, takeFinalGroup, trimEnd_of_last (last_trimEnd text)]

theorem takeFinalGroup_of_endsInGroup (ends : EndsInGroup (trimEnd text) front inner) :
    takeFinalGroup text = (trimEnd front, some inner) := by
  rw [← takeFinalGroup_trimEnd, ends.parts]
  exact takeFinalGroup_group ends.nonempty ends.outer ends.nested

theorem takeFinalGroup_of_not_endsInGroup
    (ungrouped : ¬ ∃ front inner, EndsInGroup (trimEnd text) front inner) :
    takeFinalGroup text = (trimEnd text, none) := by
  by_cases last : (trimEnd text).getLast? = some ')'
  · simp only [takeFinalGroup, if_pos last]
    rcases finds : finalGroupFrom 0 Nesting.top none (trimEnd text) with _ | place
    · rfl
    · have balanced : Balanced (trimEnd text) := readAll?_of_finalGroupFrom finds
      obtain ⟨front, inner, parts, outer, nested⟩ := balanced.exists_group last
      -- A balanced text ends in a group, so the group that is found opens it.
      have opens : front = [] := by
        refine Classical.byContradiction fun nonempty => ?_
        exact ungrouped ⟨front, inner, parts, nonempty, outer, nested⟩
      have start := finalGroupFrom_group outer nested
      rw [← parts, finds, opens] at start
      cases start
      rfl
  · exact takeFinalGroup_of_last last

/-- A group is split off exactly if the text, without the blanks at its end, ends in one behind
a text that is not empty; then what is in front of the group is left, again without the blanks
at its end.  Otherwise the whole text is left.  There is one way only to take a text apart like
that. -/
theorem takeFinalGroup_finds_group (text : Chars) :
    (∀ body inner, takeFinalGroup text = (body, some inner) ↔
      ∃ front, EndsInGroup (trimEnd text) front inner ∧ body = trimEnd front) ∧
    (takeFinalGroup text = (trimEnd text, none) ↔
      ¬ ∃ front inner, EndsInGroup (trimEnd text) front inner) ∧
    ∀ front inner other within, EndsInGroup (trimEnd text) front inner →
      EndsInGroup (trimEnd text) other within → front = other ∧ inner = within := by
  have found_iff : ∀ body inner, takeFinalGroup text = (body, some inner) ↔
      ∃ front, EndsInGroup (trimEnd text) front inner ∧ body = trimEnd front := by
    intro body inner
    constructor
    · intro taken
      by_cases some : ∃ front inner, EndsInGroup (trimEnd text) front inner
      · obtain ⟨front, other, ends⟩ := some
        rw [takeFinalGroup_of_endsInGroup ends] at taken
        cases taken
        exact ⟨front, ends, rfl⟩
      · rw [takeFinalGroup_of_not_endsInGroup some] at taken
        cases taken
    · rintro ⟨front, ends, rfl⟩
      exact takeFinalGroup_of_endsInGroup ends
  refine ⟨found_iff, ⟨?_, takeFinalGroup_of_not_endsInGroup⟩, ?_⟩
  · rintro whole ⟨front, inner, ends⟩
    rw [takeFinalGroup_of_endsInGroup ends] at whole
    cases congrArg Prod.snd whole
  · exact fun front inner other within ends another => ends.unique another

/-- The last of two groups is split off, with a parenthesis between its quotes; the only group of
a text stays where it opens the text. -/
theorem takeFinalGroup_finds_second_group :
    let spoken := "NPC: (waves) Hi (Print(\")\")) ".toList
    let front := "NPC: (waves) Hi ".toList
    let inner := "Print(\")\")".toList
    let action := "(smiles)".toList
    EndsInGroup (trimEnd spoken) front inner ∧
      takeFinalGroup spoken = ("NPC: (waves) Hi".toList, some inner) ∧
      (∀ other within, EndsInGroup (trimEnd spoken) other within →
        front = other ∧ inner = within) ∧
      takeFinalGroup action = (action, none) ∧
      ¬ ∃ front inner, EndsInGroup (trimEnd action) front inner := by
  intro spoken front inner action
  have ends : EndsInGroup (trimEnd spoken) front inner :=
    ⟨by decide, by decide, by decide, by decide⟩
  have whole : takeFinalGroup action = (trimEnd action, none) := by decide
  obtain ⟨found, -, unique⟩ := takeFinalGroup_finds_group spoken
  obtain ⟨-, left, -⟩ := takeFinalGroup_finds_group action
  have taken := (found (trimEnd front) inner).mpr ⟨front, ends, rfl⟩
  have trimmed : trimEnd front = "NPC: (waves) Hi".toList := by decide
  rw [trimmed] at taken
  exact ⟨ends, taken, fun other within => unique front inner other within ends, whole,
    left.mp whole⟩

end Parley.Text
