import Parley.Proofs.Draft.Stacks

/-!
# First lines of dialogues

The first statement behind a title gives the dialogue its first line.  Nothing takes that line
away, so a script in which any dialogue has been begun has entries.
-/

namespace Parley.Draft

open Parley.Script

variable {scope : Scope} {draft before after final : Draft} {statement : Statement} {title : String}
  {line : LineIndex}

/-- Some dialogue has a first line. -/
def HasEntry (draft : Draft) : Prop :=
  ∃ title line, draft.graph.entries.get? title = some line

theorem HasEntry.isEmpty_eq_false (has : draft.HasEntry) : draft.graph.entries.isEmpty = false := by
  obtain ⟨title, line, found⟩ := has
  rw [NameMap.isEmpty]
  rcases stored : draft.graph.entries.entries with _ | ⟨entry, rest⟩
  · rw [NameMap.get?, stored] at found
    cases found
  · rfl

/-- A first line stays where first lines are only added. -/
theorem HasEntry.of_entries (has : before.HasEntry)
    (added : after.graph.entries = before.graph.entries ∨
      ∃ title line, after.graph.entries = before.graph.entries.insert title line) :
    after.HasEntry := by
  rcases added with same | ⟨title, line, inserted⟩
  · rw [HasEntry, same]
    exact has
  · exact ⟨title, line, by rw [inserted, NameMap.get?_insert_self]⟩

theorem entries_completeBranch (draft : Draft) (branch : OpenNode) (outer : List OpenNode) :
    ({ draft with branches := outer }.completeBranch branch).graph.entries =
      draft.graph.entries := by
  unfold completeBranch
  split <;> rfl

theorem entries_foldl_setNext (graph : Graph) (changed : List OpenNode) (next : LineIndex) :
    (changed.foldl (fun graph stray => graph.setNext stray.id next) graph).entries =
      graph.entries := by
  induction changed generalizing graph with
  | nil => rfl
  | cons stray rest ih => exact ih (graph.setNext stray.id next)

theorem entries_attachBranch (draft : Draft) (title : String) (branch : BranchIndex) :
    (draft.attachBranch title branch).graph.entries =
      if draft.latest = .title then
        draft.graph.entries.insert title draft.graph.lines.size
      else draft.graph.entries := by
  unfold attachBranch
  split
  · rename_i latest
    rw [if_pos latest]
    rfl
  all_goals
    rename_i latest
    rw [if_neg (by simp [latest])]
    split <;> rfl

theorem entries_attachSpeech {title : String} {line : LineIndex} {indent : Nat}
    (attached : draft.attachSpeech title line indent = .ok after) :
    after.graph.entries =
      if draft.latest = .title then draft.graph.entries.insert title line
      else draft.graph.entries := by
  unfold attachSpeech at attached
  split at attached
  · rename_i latest
    cases attached
    rw [if_neg (by simp [latest])]
  · rename_i latest
    cases attached
    rw [if_pos latest]
    rfl
  all_goals
    rename_i latest
    rw [if_neg (by simp [latest])]
    split at attached
  · cases attached
  · cases attached
    exact entries_foldl_setNext _ _ _
  all_goals
    cases attached
    rfl

theorem entries_offer (draft : Draft) (choice : Choice) (terminal : Bool) (indent : Nat) :
    (draft.offer choice terminal indent).graph.entries = draft.graph.entries := by
  have ended : ∀ added : Draft, added.finishBodiless.graph.entries = added.graph.entries := by
    intro added
    unfold finishBodiless
    split
    · split <;> rfl
    · rfl
  unfold offer
  split <;> exact ended (draft.addChoiceUnder choice)

/-- A spoken line is the first of its dialogue exactly if it stands behind the title. -/
theorem entries_of_stepSpeech (read : draft.stepSpeech scope statement = .ok after) :
    ∃ title line, draft.currentTitle = .ok title ∧ after.graph.entries =
      if (draft.makeRoom statement.indent).latest = .title then
        draft.graph.entries.insert title line
      else draft.graph.entries := by
  obtain ⟨title, speech, commands, attached, directed, current, -, -, -, attach, direct, rfl⟩ :=
    stepSpeech_eq_ok_iff.mp read
  have room : (draft.makeRoom statement.indent).graph.entries = draft.graph.entries := by
    refine (closeBranchAt_keeps (fun draft => draft.graph.entries) entries_completeBranch
      (draft.settleChoice statement.indent) statement.indent).trans ?_
    unfold settleChoice
    split
    · split
      · split <;> rfl
      · rfl
    · rfl
  have directedEntries : directed.graph.entries = attached.graph.entries := by
    unfold directSpeech at direct
    split at direct
    · cases direct
      rfl
    · split at direct <;> cases direct
      rfl
  refine ⟨title, (draft.makeRoom statement.indent).graph.lines.size, current, ?_⟩
  show (directed.gatherStrays _ _).graph.entries = _
  have gathered : ∀ line, (directed.gatherStrays line statement.indent).graph.entries =
      directed.graph.entries := by
    intro line
    unfold gatherStrays
    split
    · exact entries_foldl_setNext _ _ _
    · rfl
  rw [gathered, directedEntries, entries_attachSpeech attach, ← room]
  rfl

theorem entries_of_stepIfArm (read : draft.stepIfArm scope statement = .ok after) :
    ∃ title line, draft.currentTitle = .ok title ∧ after.graph.entries =
      if draft.latest = .title then draft.graph.entries.insert title line
      else draft.graph.entries := by
  obtain ⟨title, source, conditions, current, -, -, -, rfl⟩ := stepIfArm_eq_ok_iff.mp read
  exact ⟨title, draft.graph.lines.size, current,
    entries_attachBranch _ title draft.graph.branches.size⟩

theorem entries_closeDeepBranches (draft : Draft) (indent : Nat) :
    (draft.closeDeepBranches indent).graph.entries = draft.graph.entries :=
  closeDeepBranches_keeps (fun draft => draft.graph.entries) entries_completeBranch draft indent

/-- A statement only adds first lines. -/
theorem HasEntry.step (has : before.HasEntry) (read : before.step scope statement = .ok after) :
    after.HasEntry := by
  have closed : (before.closeDeepBranches statement.indent).HasEntry :=
    has.of_entries (Or.inl (before.entries_closeDeepBranches statement.indent))
  apply closed.of_entries
  unfold Draft.step at read
  split at read
  · obtain ⟨title, -, -, -, rfl⟩ := stepTitle_eq_ok_iff.mp read
    exact Or.inl (closeDialogue_keeps (fun draft => draft.graph.entries) entries_completeBranch _)
  · obtain ⟨option, commands, conditions, root, -, -, -, -, rfl⟩ := stepOption_eq_ok_iff.mp read
    exact Or.inl (entries_offer _ _ _ _)
  · obtain ⟨title, line, -, entries⟩ := entries_of_stepIfArm read
    split at entries
    · exact Or.inr ⟨title, line, entries⟩
    · exact Or.inl entries
  · obtain ⟨source, branch, conditions, -, -, -, -, rfl⟩ := stepElseArm_eq_ok_iff.mp read
    exact Or.inl rfl
  · obtain ⟨title, line, -, entries⟩ := entries_of_stepSpeech read
    split at entries
    · exact Or.inr ⟨title, line, entries⟩
    · exact Or.inl entries

theorem HasEntry.stepAll (has : before.HasEntry) {statements : List Statement}
    (read : before.stepAll scope statements = .ok final) : final.HasEntry := by
  induction statements generalizing before with
  | nil =>
      cases read
      exact has
  | cons statement rest ih =>
      obtain ⟨middle, first, others⟩ := stepAll_cons_eq_ok_iff.mp read
      exact ih (has.step first) others

/-! ## Behind a title -/

/-- A title that is being read is the current one. -/
theorem title_eq_some {title : String} (current : draft.currentTitle = .ok title) :
    draft.title = some title := by
  unfold currentTitle at current
  split at current
  · cases current
    assumption
  · cases current

/-- Behind a title there is room for a first line, for a branch and for another dialogue. -/
theorem construct_of_latest_title (latest : before.latest = .title) (none : before.branches = [])
    (read : before.step scope statement = .ok after) :
    statement.construct = .dialogue ∨ statement.construct = .speech ∨
      statement.construct = .ifArm := by
  have closed : before.closeDeepBranches statement.indent = before :=
    before.closeDeepBranches_of_nil _ none
  unfold step at read
  rw [closed] at read
  dsimp only at read
  split at read <;> rename_i construct
  · exact Or.inl construct
  · obtain ⟨option, commands, conditions, root, -, -, -, found, -⟩ := stepOption_eq_ok_iff.mp read
    have notLine : ¬((before.abandonDeepLines statement.indent).latest = .line ∨
        (before.abandonDeepLines statement.indent).latest = .choice) := by
      simp [abandonDeepLines, latest]
    rw [optionRoot, if_neg notLine] at found
    cases found
  · exact Or.inr (Or.inr construct)
  · obtain ⟨source, branch, conditions, -, found, -⟩ := stepElseArm_eq_ok_iff.mp read
    rw [branchAt, none] at found
    cases found
  · exact Or.inr (Or.inl construct)

/-- A title is the last thing made exactly after it has been read. -/
theorem latest_eq_title_iff_of_step (read : before.step scope statement = .ok after) :
    after.latest = .title ↔ statement.construct = .dialogue := by
  unfold step at read
  split at read <;> rename_i construct <;> simp only [construct, reduceCtorEq, iff_false, iff_true]
  · obtain ⟨title, -, -, -, rfl⟩ := stepTitle_eq_ok_iff.mp read
    rfl
  · obtain ⟨option, -, -, -, latest⟩ := stacks_of_stepOption read
    obtain ⟨_, _, _, root, -, -, -, found, -⟩ := stepOption_eq_ok_iff.mp read
    rw [latest]
    split
    · intro begins
      rw [optionRoot, if_neg] at found
      · cases found
      · show ¬ ((before.closeDeepBranches statement.indent).latest = .line ∨
          (before.closeDeepBranches statement.indent).latest = .choice)
        rw [begins]
        decide
    · decide
  · obtain ⟨-, -, latest⟩ := stacks_of_stepIfArm read
    rw [latest]
    decide
  · obtain ⟨-, -, latest⟩ := stacks_of_stepElseArm read
    rw [latest]
    decide
  · obtain ⟨-, -, latest⟩ := stacks_of_stepSpeech read
    rw [latest]
    decide

/-- What a spoken line finds where it takes its place is a title exactly if it stands behind
one. -/
theorem latest_makeRoom_eq_title_iff (none : draft.latest = .title → draft.branches = [])
    (indent : Nat) : (draft.makeRoom indent).latest = .title ↔ draft.latest = .title := by
  constructor
  · intro begins
    have settled : (draft.settleChoice indent).latest = .title := by
      by_cases same : (draft.settleChoice indent).latest = .title
      · exact same
      · unfold makeRoom closeBranchAt completeBranch at begins
        split at begins
        · split at begins
          · split at begins
            · exact begins
            · cases begins
          · exact begins
        · exact begins
    unfold settleChoice at settled
    split at settled
    · split at settled
      · split at settled
        · cases settled
        · exact settled
      · exact settled
    · exact settled
  · intro latest
    rw [makeRoom, settleChoice, if_neg (by simp [latest]), closeBranchAt, none latest]
    exact latest

theorem latest_closeDeepBranches_eq_title_iff
    (none : draft.latest = .title → draft.branches = []) (indent : Nat) :
    (draft.closeDeepBranches indent).latest = .title ↔ draft.latest = .title := by
  constructor
  · intro begins
    by_cases complete : draft.CompleteBelow indent
    · rwa [closeDeepBranches_of_completeBelow complete] at begins
    · rw [latest_closeDeepBranches_of_not_completeBelow complete] at begins
      cases begins
  · intro latest
    rwa [draft.closeDeepBranches_of_nil indent (none latest)]

/-- The first line of the dialogue that is being read, and of no other, is added behind its
title. -/
theorem exists_entry_iff_of_entries (current : draft.latest = .title → draft.title = some title)
    (entries : after.graph.entries =
      if draft.latest = .title then draft.graph.entries.insert title line
      else draft.graph.entries) (other : String) :
    (∃ line, after.graph.entries.get? other = some line) ↔
      (∃ line, draft.graph.entries.get? other = some line) ∨
        draft.latest = .title ∧ draft.title = some other := by
  by_cases latest : draft.latest = .title
  · rw [if_pos latest] at entries
    rw [entries, NameMap.get?_insert, current latest]
    by_cases same : other = title
    · simp [latest, same]
    · have different : title ≠ other := fun equal => same equal.symm
      simp [latest, same, different]
  · rw [if_neg latest] at entries
    simp [entries, latest]

/-- A statement gives a dialogue its first line exactly if it stands behind the title and speaks
or opens a branch. -/
theorem exists_entry_iff_of_step (none : before.latest = .title → before.branches = [])
    (read : before.step scope statement = .ok after) (title : String) :
    (∃ line, after.graph.entries.get? title = some line) ↔
      (∃ line, before.graph.entries.get? title = some line) ∨
        (before.latest = .title ∧ before.title = some title) ∧
          (statement.construct = .speech ∨ statement.construct = .ifArm) := by
  have same := before.entries_closeDeepBranches statement.indent
  have begins := latest_closeDeepBranches_eq_title_iff none statement.indent
  have untouched : before.latest = .title →
      before.closeDeepBranches statement.indent = before ∧ before.branches = [] :=
    fun latest => ⟨before.closeDeepBranches_of_nil _ (none latest), none latest⟩
  unfold step at read
  dsimp only at read
  generalize before.closeDeepBranches statement.indent = closed at *
  have current : ∀ found, closed.currentTitle = .ok found →
      before.latest = .title → before.title = some found := by
    intro found isCurrent latest
    rw [(untouched latest).1] at isCurrent
    exact title_eq_some isCurrent
  split at read <;> rename_i construct <;> simp only [construct, reduceCtorEq, or_self, or_true,
    and_true, and_false, or_false]
  · obtain ⟨title, -, -, -, rfl⟩ := stepTitle_eq_ok_iff.mp read
    have kept := closeDialogue_keeps (fun draft => draft.graph.entries) entries_completeBranch closed
    rw [beginDialogue, kept, same]
  · obtain ⟨option, commands, conditions, root, -, -, -, -, rfl⟩ := stepOption_eq_ok_iff.mp read
    rw [entries_offer, abandonDeepLines, same]
  · obtain ⟨found, line, isCurrent, entries⟩ := entries_of_stepIfArm read
    simp only [begins, same] at entries
    exact exists_entry_iff_of_entries (current found isCurrent) entries title
  · obtain ⟨source, branch, conditions, -, -, -, -, rfl⟩ := stepElseArm_eq_ok_iff.mp read
    rw [← same]
    rfl
  · obtain ⟨found, line, isCurrent, entries⟩ := entries_of_stepSpeech read
    have room := closed.latest_makeRoom_eq_title_iff
      (fun latest => (untouched (begins.mp latest)).1 ▸ (untouched (begins.mp latest)).2)
      statement.indent
    simp only [room, begins, same] at entries
    exact exists_entry_iff_of_entries (current found isCurrent) entries title

/-- The first statement behind a title gives the dialogue its first line. -/
theorem hasEntry_of_step (latest : before.latest = .title) (titled : before.title = some title)
    (none : before.branches = []) (stays : statement.construct ≠ .dialogue)
    (read : before.step scope statement = .ok after) : after.HasEntry := by
  have opens := (construct_of_latest_title latest none read).resolve_left stays
  exact ⟨title, (exists_entry_iff_of_step (fun _ => none) read title).mpr
    (Or.inr ⟨⟨latest, titled⟩, opens⟩)⟩

end Parley.Draft
