import Parley.Proofs.Draft.Append
import Parley.Proofs.Draft.Returns
import Parley.Proofs.Draft.Sound

/-!
# Borders of dialogues

Whatever a line of a finished draft leads to is a node of it.  Since a dialogue is read as if
nothing stood before it, no link crosses the place in the graph where a dialogue begins.
-/

namespace Parley

open Parley.Script

variable {scope : Scope} {statements : List Statement} {final : Draft} {place count : Nat}

/-- Each choice is that of an option. -/
theorem exists_choiceAt (read : Draft.empty.stepAll scope statements = .ok final)
    (within : count ≤ statements.length) {id : ChoiceIndex}
    (known : id < (draftAfter scope statements count).graph.choices.size) :
    ∃ place < count, constructAt statements place = some .option ∧
      choiceAt scope statements place = id := by
  revert known
  refine draftAfter_induction (motive := fun count =>
    id < (draftAfter scope statements count).graph.choices.size →
      ∃ place < count, constructAt statements place = some .option ∧
        choiceAt scope statements place = id)
    read (Nat.zero_le _) within ?_ ?_
  · exact fun known => absurd known (Nat.not_lt_zero id)
  · intro place statement _ _ found stepped soFar known
    rw [Draft.size_choices_of_step stepped] at known
    by_cases older : id < (draftAfter scope statements place).graph.choices.size
    · obtain ⟨earlier, before, option, same⟩ := soFar older
      exact ⟨earlier, Nat.lt_succ_of_lt before, option, same⟩
    · by_cases construct : statement.construct = .option
      · rw [if_pos construct] at known
        refine ⟨place, Nat.lt_succ_self place, construct ▸ constructAt_of_found found, ?_⟩
        exact Nat.le_antisymm (Nat.le_of_not_lt older) (Nat.le_of_lt_succ known)
      · rw [if_neg construct] at known
        exact absurd known older

/-- A finished choice belongs to the line under which its option offers it. -/
theorem root_choice_final (read : Draft.empty.stepAll scope statements = .ok final)
    (option : constructAt statements place = some .option) (within : place < statements.length) :
    some (final.closeDialogue.graph.choice (choiceAt scope statements place)).root =
      rootAt scope statements place := by
  rw [← root_choice_draftAfter read option within (Nat.le_refl _), draftAfter_length read,
    Graph.choice_congr final.graphChoices_closeDialogue]

/-- Each finished choice is that of an option, and belongs to the line under which that offers
it. -/
theorem exists_rootAt_final (read : Draft.empty.stepAll scope statements = .ok final)
    {id : ChoiceIndex} (known : id < final.closeDialogue.graph.choices.size) :
    ∃ place < statements.length, constructAt statements place = some .option ∧
      choiceAt scope statements place = id ∧
      rootAt scope statements place = some (final.closeDialogue.graph.choice id).root := by
  rw [final.graphChoices_closeDialogue, ← draftAfter_length read] at known
  obtain ⟨place, within, option, rfl⟩ := exists_choiceAt read (Nat.le_refl _) known
  exact ⟨place, within, option, rfl, (root_choice_final read option within).symm⟩

/-- Later options make later choices. -/
theorem choiceAt_lt_choiceAt (read : Draft.empty.stepAll scope statements = .ok final)
    (option : constructAt statements place = some .option) (before : place < count)
    (within : count ≤ statements.length) :
    choiceAt scope statements place < choiceAt scope statements count := by
  obtain ⟨statement, found, offers⟩ := Option.map_eq_some_iff.mp option
  have opened := Draft.size_choices_of_step (step_draftAfter read found)
  rw [if_pos offers] at opened
  have mono := size_choices_mono read (Nat.succ_le_of_lt before) within
  rw [opened] at mono
  exact Nat.lt_of_succ_le mono

/-- The root of a choice is a line that is there. -/
theorem root_lt (read : Draft.empty.stepAll scope statements = .ok final)
    (within : count ≤ statements.length) {id : ChoiceIndex}
    (known : id < (draftAfter scope statements count).graph.choices.size) :
    ((draftAfter scope statements count).graph.choice id).root <
      (draftAfter scope statements count).graph.lines.size := by
  obtain ⟨place, before, option, rfl⟩ := exists_choiceAt read within known
  obtain ⟨spoken, earlier, plain, rooted, -⟩ := exists_rootAt read option
  have root := root_choice_draftAfter read option before within
  rw [rooted] at root
  obtain ⟨statement, found, speaks⟩ := Option.map_eq_some_iff.mp plain.constructAt_eq
  rw [Option.some.inj root]
  exact Nat.lt_of_lt_of_le (lineAt_lt read found speaks)
    (size_draftAfter_mono read (Nat.lt_trans earlier before))

/-- Return markers lead to a line that is there. -/
theorem lt_of_next_marked (read : Draft.empty.stepAll scope statements = .ok final)
    (marks : Marks statements place count) (marked : 0 < count) {target : LineIndex}
    (leads : (final.closeDialogue.graph.line (lineAt scope statements place)).next =
      some target) : target < final.closeDialogue.graph.lines.size := by
  have kept := @next_lineAt_kept _ _ _ _ _ read marks marked
  obtain ⟨statement, speech, found, speaks, readSpeech, rfl⟩ := marks
  have within := (List.getElem?_eq_some_iff.mp found).1
  have stepped := step_draftAfter read found
  have opened := lineAt_lt read found speaks
  have mono := size_draftAfter_mono read (Nat.succ_le_of_lt within)
  obtain ⟨⟨choice, isChoice, follows⟩, -⟩ :=
    Draft.marked_of_step (orderly_draftAfter place) speaks readSpeech marked stepped
  have isOpen : choice ∈ (draftAfter scope statements place).choices :=
    (List.dropWhile_sublist _).mem (List.mem_of_getElem? isChoice)
  have known : choice.id < (draftAfter scope statements (place + 1)).graph.choices.size :=
    Nat.lt_of_lt_of_le ((nested_draftAfter place).knownChoices choice isOpen)
      (size_choices_mono read (Nat.le_succ place) within)
  have root := root_lt read (Nat.succ_le_of_lt within) known
  rw [← lineAt_eq read found speaks] at follows
  have closed := Draft.Extends.closeDialogue final
  have same := kept within (Nat.le_refl _)
  rw [draftAfter_length read] at mono same
  rw [closed.next _ (Nat.lt_of_lt_of_le opened mono), same, follows] at leads
  cases leads
  exact Nat.lt_of_lt_of_le (Nat.lt_of_lt_of_le root mono) closed.size

/-- Whatever a line of a finished draft leads to is there. -/
theorem within_of_stepAll (read : Draft.empty.stepAll scope statements = .ok final) :
    final.closeDialogue.graph.Within := by
  have forward := forward_of_stepAll read
  have sound := (Draft.Sound.empty.stepAll read).closeDialogue.graph
  constructor
  · intro id target leads
    rcases forward.next id target leads with ⟨-, known⟩ | ⟨place, count, marks, marked, rfl⟩
    · exact known
    · exact lt_of_next_marked read marks marked leads
  · exact fun id target into => (forward.into id target into).2
  · exact fun id branch => (sound.lines id).branch branch
  · intro id choice offered
    rw [choices_line_final read] at offered
    obtain ⟨place, isRoot, rfl⟩ := List.mem_map.mp offered
    obtain ⟨member, rooted⟩ := List.mem_filter.mp isRoot
    have option := constructAt_of_rootAt (of_decide_eq_true rooted)
    obtain ⟨statement, found, offers⟩ := Option.map_eq_some_iff.mp option
    have opened := Draft.size_choices_of_step (step_draftAfter read found)
    rw [if_pos offers] at opened
    have mono := size_choices_mono read (Nat.succ_le_of_lt (List.mem_range.mp member))
      (Nat.le_refl _)
    rw [opened, draftAfter_length read] at mono
    rw [final.graphChoices_closeDialogue]
    exact Nat.lt_of_succ_le mono
  · exact fun id branch => (sound.choices id).branch branch

/-- No link crosses the place in the graph where a dialogue begins. -/
theorem partsAt_of_dialogue (read : Draft.empty.stepAll scope statements = .ok final)
    (begins : constructAt statements place = some .dialogue) :
    final.closeDialogue.graph.PartsAt
      (draftAfter scope statements (place + 1)).graph.lines.size := by
  obtain ⟨statement, found, construct⟩ := Option.map_eq_some_iff.mp begins
  have first := read_take read place
  have titled := (Draft.Titled.empty.stepAll read).nodup
  have declared := Draft.declared_of_stepAll first
  have new : ∀ title ∈ Draft.titlesOf (statement :: statements.drop (place + 1)),
      title ∉ (draftAfter scope statements place).declared := by
    intro title later
    rw [Draft.declared_of_stepAll read, ← take_append_cons_drop found, Draft.titlesOf_append]
      at titled
    obtain ⟨nodup, -, -⟩ := List.nodup_append.mp titled
    obtain ⟨-, -, apart⟩ := List.nodup_append.mp ((List.reverse_perm _).nodup_iff.mp nodup)
    rw [declared]
    intro earlier
    rcases List.mem_append.mp earlier with earlier | none
    · exact apart title (List.mem_reverse.mp earlier) title later rfl
    · cases none
  have rest := read_drop read found
  rw [Draft.stepAll_dialogue construct new] at rest
  rcases second : Draft.empty.stepAll scope (statement :: statements.drop (place + 1))
    with fault | alone
  · rw [second] at rest
    cases rest
  rw [second] at rest
  cases rest
  have border : (draftAfter scope statements (place + 1)).graph =
      (draftAfter scope statements place).closeDialogue.graph := by
    have stepped := step_draftAfter read found
    unfold Draft.step at stepped
    simp only [construct] at stepped
    obtain ⟨title, -, -, -, same⟩ := Draft.stepTitle_eq_ok_iff.mp stepped
    rw [same, Draft.beginDialogue, Draft.closeDialogue_closeDeepBranches]
  rw [border, Draft.onto_closeDialogue]
  exact Graph.partsAt_append (within_of_stepAll first) (within_of_stepAll second)

end Parley
