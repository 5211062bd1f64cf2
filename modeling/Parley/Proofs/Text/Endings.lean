import Parley.Proofs.Text.Groups
import Parley.Proofs.Text.Trimming

/-!
# What a text ends in

A group behind a balanced text is the last of the groups that are opened at top level, so it
is the one that is taken off the end, whatever other groups stand in front of it and however
it is nested itself.  Only what opens the text is never taken off.  A mark without blanks ends a
text exactly if it ends what stands behind the last blank.
-/

namespace Parley.Text

variable {text front inner : Chars}

/-- What can be read can be read deeper. -/
theorem Nesting.readAll?_deeper {nesting after : Nesting} (more : Nat)
    (reads : nesting.readAll? text = some after) :
    (nesting.deeper more).readAll? text = some (after.deeper more) := by
  induction text generalizing nesting with
  | nil =>
      cases reads
      rfl
  | cons c rest ih =>
      obtain ⟨next, first, others⟩ := Option.bind_eq_some_iff.mp reads
      rw [readAll?, read?_deeper more first]
      exact ih others

theorem Balanced.grouped (balanced : Balanced inner) : Balanced ('(' :: (inner ++ [')'])) := by
  show (Nesting.top.deeper 1).readAll? (inner ++ [')']) = some Nesting.top
  rw [Nesting.readAll?_append, Nesting.readAll?_deeper 1 balanced]
  rfl

/-! ## Where the last group opens -/

/-- Reading on, some group or other has been found. -/
theorem exists_finalGroupFrom_append {nesting after : Nesting}
    (reads : nesting.readAll? text = some after) (position : Nat) (found : Option Nat)
    (rest : Chars) :
    ∃ last, finalGroupFrom position nesting found (text ++ rest) =
      finalGroupFrom (position + text.length) after last rest := by
  induction text generalizing nesting position found with
  | nil =>
      cases reads
      exact ⟨found, rfl⟩
  | cons c text ih =>
      obtain ⟨next, first, others⟩ := Option.bind_eq_some_iff.mp reads
      obtain ⟨last, same⟩ :=
        ih others (position + 1) (if c = '(' ∧ nesting.isTop then some position else found)
      refine ⟨last, ?_⟩
      rw [List.cons_append, finalGroupFrom, first, List.length_cons, Nat.add_comm text.length,
        ← Nat.add_assoc]
      exact same

/-- Between parentheses no further group opens at top level. -/
theorem finalGroupFrom_deeper {nesting after : Nesting}
    (reads : nesting.readAll? text = some after) (position : Nat) (found : Option Nat)
    (rest : Chars) :
    finalGroupFrom position (nesting.deeper 1) found (text ++ rest) =
      finalGroupFrom (position + text.length) (after.deeper 1) found rest := by
  induction text generalizing nesting position with
  | nil =>
      cases reads
      rfl
  | cons c text ih =>
      obtain ⟨next, first, others⟩ := Option.bind_eq_some_iff.mp reads
      have nested : (nesting.deeper 1).isTop = false := by
        simp [Nesting.isTop, Nesting.deeper]
      rw [List.cons_append, finalGroupFrom, Nesting.read?_deeper 1 first, List.length_cons,
        Nat.add_comm text.length, ← Nat.add_assoc, if_neg (by simp [nested])]
      exact ih others (position + 1)

theorem finalGroupFrom_group (balanced : Balanced front) (inside : Balanced inner) :
    finalGroupFrom 0 Nesting.top none (front ++ '(' :: (inner ++ [')'])) =
      some front.length := by
  obtain ⟨last, same⟩ :=
    exists_finalGroupFrom_append balanced 0 none ('(' :: (inner ++ [')']))
  have within := finalGroupFrom_deeper inside (front.length + 1) (some front.length) [')']
  rw [same, Nat.zero_add]
  exact within

/-! ## Taking it off -/

/-- A group behind a balanced text is taken off, and so are the blanks in front of it. -/
theorem takeFinalGroup_group (nonempty : front ≠ []) (balanced : Balanced front)
    (inside : Balanced inner) :
    takeFinalGroup (front ++ '(' :: (inner ++ [')'])) = (trimEnd front, some inner) := by
  have last : (front ++ '(' :: (inner ++ [')'])).getLast? = some ')' := by
    rw [← List.cons_append, ← List.append_assoc, List.getLast?_concat]
  have trimmed : trimEnd (front ++ '(' :: (inner ++ [')'])) =
      front ++ '(' :: (inner ++ [')']) := by
    refine trimEnd_of_last fun c member => ?_
    rw [last] at member
    cases member
    rfl
  have place := finalGroupFrom_group balanced inside
  have behind : (front ++ '(' :: (inner ++ [')'])).drop (front.length + 1) = inner ++ [')'] := by
    rw [← List.drop_drop, List.drop_left]
    rfl
  have ahead : (front ++ '(' :: (inner ++ [')'])).take front.length = front := List.take_left
  obtain ⟨start, length⟩ :=
    Nat.exists_eq_add_one_of_ne_zero (mt List.length_eq_zero_iff.mp nonempty)
  rw [length] at place behind ahead
  simp only [takeFinalGroup, trimmed]
  rw [if_pos last, place]
  dsimp only
  rw [ahead, behind, List.dropLast_concat]

theorem takeFinalGroup_of_last (other : (trimEnd text).getLast? ≠ some ')') :
    takeFinalGroup text = (trimEnd text, none) :=
  if_neg other

/-- A text with a group behind it, if there is one. -/
def withFinalGroup (text : Chars) : Option Chars → Chars
  | some inner => text ++ ' ' :: '(' :: (inner ++ [')'])
  | none => text

/-- A text without quotes and parentheses ends in none. -/
theorem exists_last_of_flat (nonempty : text ≠ []) (flat : ∀ c ∈ text, isFlat c = true)
    (solid : ∀ c ∈ text.getLast?, isBlank c = false) :
    ∃ c ∈ text.getLast?, isBlank c = false ∧ c ≠ ')' := by
  have last := List.getLast?_eq_some_getLast nonempty
  have plain := isFlat_iff.mp (flat _ (List.getLast_mem nonempty))
  exact ⟨_, last, solid _ last, plain.2.2⟩

/-- A group that is put behind a text is taken off again, and where there is none, none is found. -/
theorem takeFinalGroup_withFinalGroup {group : Option Chars} (balanced : Balanced text)
    (ends : ∃ c ∈ text.getLast?, isBlank c = false ∧ c ≠ ')')
    (inside : ∀ inner ∈ group, Balanced inner) :
    takeFinalGroup (withFinalGroup text group) = (text, group) := by
  obtain ⟨c, last, solid, other⟩ := ends
  have trimmed : trimEnd text = text := by
    refine trimEnd_of_last fun d member => ?_
    cases last.symm.trans member
    exact solid
  cases group with
  | none =>
      have apart : (trimEnd text).getLast? ≠ some ')' := by
        rw [trimmed, last]
        exact fun same => other (Option.some.inj same)
      rw [withFinalGroup, takeFinalGroup_of_last apart, trimmed]
  | some inner =>
      have blank : Balanced [' '] := by decide
      have front : withFinalGroup text (some inner) =
          (text ++ [' ']) ++ '(' :: (inner ++ [')']) := by
        rw [withFinalGroup, List.append_assoc, List.singleton_append]
      rw [front, takeFinalGroup_group (by simp) (balanced.append blank) (inside inner rfl),
        trimEnd_append_blank text rfl, trimmed]

/-! ## Marks -/

/-- A mark does not reach back over a blank. -/
theorem not_suffix_of_blank {mark : Chars} (solid : ' ' ∉ mark) (other : ¬ mark <:+ text)
    (front : Chars) : ¬ mark <:+ front ++ ' ' :: text := by
  intro marked
  have blank : ' ' :: text <:+ front ++ ' ' :: text := List.suffix_append ..
  rcases List.suffix_or_suffix_of_suffix marked blank with within | around
  · rcases List.suffix_cons_iff.mp within with same | within
    · exact solid (same ▸ List.mem_cons_self)
    · exact other within
  · exact solid (around.subset List.mem_cons_self)

end Parley.Text
