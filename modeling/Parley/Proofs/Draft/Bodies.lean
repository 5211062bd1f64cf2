import Parley.Proofs.Draft.Nested

/-!
# Where the body of an option begins

The statement after an option decides what becomes of it: it begins the body of the
option or shows that there is none.  Later statements concern the option again only
when its choice is the last thing made a second time, and that takes a terminal option
which shows the choice before it to have no body.
-/

namespace Parley

open Parley.Script

/-- What is written over from time to time until a stop is then what it was exactly if nothing
was written, provided that the same is never written again. -/
theorem eq_iff_of_writes {α : Type} (record given : Nat → Option α) {value : Option α}
    {start stop : Nat} (le : start ≤ stop) (past : ∀ time, stop ≤ time → given time = none)
    (writes : ∀ time, start ≤ time → time < stop →
      record (time + 1) = (given time).or (record time))
    (fresh : ∀ time, start ≤ time → time < stop → ∀ written, given time = some written →
      some written ≠ value) :
    record stop = value ↔ record start = value ∧ ∀ time, start ≤ time → given time = none := by
  induction le with
  | refl =>
      constructor
      · exact fun same => ⟨same, past⟩
      · exact And.left
  | @step stop le ih =>
      rw [writes stop le (Nat.lt_succ_self stop)]
      rcases new : given stop with _ | written
      · rw [Option.none_or]
        apply ih
        · intro time after
          rcases Nat.lt_or_eq_of_le after with after | rfl
          · exact past time after
          · exact new
        · exact fun time after before => writes time after (Nat.lt_succ_of_lt before)
        · exact fun time after before => fresh time after (Nat.lt_succ_of_lt before)
      · rw [Option.some_or]
        constructor
        · intro same
          exact absurd same (fresh stop le (Nat.lt_succ_self stop) written new)
        · rintro ⟨-, silent⟩
          rw [silent stop le] at new
          cases new

namespace Draft

variable {scope : Scope} {draft after : Draft} {statement : Statement} {choice : OpenNode}

/-- Where no branch is deeper, closing deep branches does nothing. -/
theorem closeDeepBranches_of_shallow {indent : Nat}
    (shallow : ∀ branch ∈ draft.branches, branch.indent ≤ indent) :
    draft.closeDeepBranches indent = draft := by
  have none : draft.branches.takeWhile (fun branch => indent < branch.indent) = [] := by
    rcases stack : draft.branches with _ | ⟨branch, outer⟩
    · rfl
    · apply List.takeWhile_cons_of_neg
      have level := shallow branch (stack ▸ List.mem_cons_self)
      simpa using level
  have parts : draft.branches.takeWhile (fun branch => indent < branch.indent) ++
      draft.branches.dropWhile (fun branch => indent < branch.indent) = draft.branches :=
    List.takeWhile_append_dropWhile
  rw [none, List.nil_append] at parts
  rw [closeDeepBranches, none, parts]
  rfl

/-- A choice that is the last thing made where a spoken line takes its place was so before. -/
theorem latestChoice?_of_makeRoom {indent : Nat}
    (last : (draft.makeRoom indent).latestChoice? = some choice) :
    draft.latestChoice? = some choice := by
  have notLine : ∀ settled : Draft, settled.latest = .line →
      (settled.closeBranchAt indent).latestChoice? ≠ some choice := by
    intro settled line
    rw [latestChoice?, latest_closeBranchAt_of_line line, if_neg (by simp)]
    simp
  -- Closing a branch without a trace leaves the choices as they are.
  have kept : ∀ settled : Draft, (settled.closeBranchAt indent).latestChoice? = some choice →
      settled.latestChoice? = some choice := by
    intro settled lastSettled
    unfold closeBranchAt at lastSettled
    split at lastSettled
    · split at lastSettled
      · unfold completeBranch at lastSettled
        split at lastSettled
        · exact lastSettled
        · rw [latestChoice?] at lastSettled
          cases lastSettled
      · exact lastSettled
    · exact lastSettled
  have settledLast := kept _ last
  unfold settleChoice at settledLast
  split at settledLast
  · split at settledLast
    · split at settledLast
      · rw [latestChoice?] at settledLast
        cases settledLast
      · exact settledLast
    · exact settledLast
  · exact settledLast

/-- A choice that a statement ends is the last thing made before it. -/
theorem latestChoice?_of_endedBy (ended : draft.endedBy statement = some choice) :
    draft.latestChoice? = some choice := by
  unfold endedBy at ended
  dsimp only at ended
  split at ended
  · exact (closeDeepBranches_of_latestChoice? ended).1
  · exact (closeDeepBranches_of_latestChoice? (Option.filter_eq_some_iff.mp ended).1).1
  all_goals cases ended

/-- A choice whose body a statement begins is the last thing made before it. -/
theorem latestChoice?_of_enteredBy (entered : draft.enteredBy statement = some choice) :
    draft.latestChoice? = some choice := by
  unfold enteredBy at entered
  split at entered
  · exact (closeDeepBranches_of_latestChoice? entered).1
  · exact (closeDeepBranches_of_latestChoice? (latestChoice?_of_makeRoom entered)).1
  all_goals cases entered

/-- A choice that is offered is recorded as it is. -/
theorem choice_offer_size (nested : ∀ open' ∈ draft.choices, open'.id < draft.graph.choices.size)
    (offered : Choice) (terminal : Bool) (indent : Nat) :
    (draft.offer offered terminal indent).graph.choice draft.graph.choices.size = offered := by
  have known : draft.graph.choices.size < (draft.addChoiceUnder offered).graph.choices.size := by
    show _ < (draft.graph.addChoice offered).choices.size
    rw [Graph.size_choices_addChoice]
    exact Nat.lt_succ_self _
  have other : (draft.addChoiceUnder offered).latestChoice?.map OpenNode.id ≠
      some draft.graph.choices.size := by
    intro same
    obtain ⟨last, found, equal⟩ := Option.map_eq_some_iff.mp same
    have found' : draft.latestChoice? = some last := found
    unfold latestChoice? at found'
    split at found'
    · have older := nested last (List.mem_of_head? found')
      exact Nat.ne_of_lt older equal
    · cases found'
  rw [graph_offer, choice_finishBodiless _ known, if_neg other]
  exact draft.graph.choice_addChoice_size offered

end Draft

section Reading

variable (scope : Scope) (statements : List Statement)

/-- The choice that the statement at a place offers, if it is an option. -/
def choiceAt (place : Nat) : ChoiceIndex :=
  (draftAfter scope statements place).graph.choices.size

/-- The branch that the statement at a place opens, if it is a first arm. -/
def branchOpenedAt (place : Nat) : BranchIndex :=
  (draftAfter scope statements place).graph.branches.size

/-- The statement at a place is an option, and is terminal or not. -/
def IsOption (terminal : Bool) (place : Nat) : Prop :=
  ∃ statement option, statements[place]? = some statement ∧ statement.construct = .option ∧
    OptionLine.read statement.content = .ok option ∧ option.terminal = terminal

/-- The statement at a later place shows that an option has no body. -/
def Ends (earlier later : Nat) : Prop :=
  ∃ statement, statements[later]? = some statement ∧
    ((draftAfter scope statements later).endedBy statement).map OpenNode.id =
      some (choiceAt scope statements earlier)

/-- The statement at a later place begins the body of an option. -/
def Enters (earlier later : Nat) : Prop :=
  ∃ statement, statements[later]? = some statement ∧
    ((draftAfter scope statements later).enteredBy statement).map OpenNode.id =
      some (choiceAt scope statements earlier)

/-- Right before the later place stand terminal options, and right before them, but after the
earlier place, an option that may have a body. -/
def AfterTerminal (earlier later : Nat) : Prop :=
  ∃ option, earlier < option ∧ option + 1 < later ∧ IsOption statements false option ∧
    ∀ between, option < between → between < later → IsOption statements true between

variable {scope statements} {final : Draft} {place earlier later : Nat} {statement : Statement}

/-- Choices are only ever added. -/
theorem size_choices_mono (read : Draft.empty.stepAll scope statements = .ok final)
    {count : Nat} (le : place ≤ count) (within : count ≤ statements.length) :
    (draftAfter scope statements place).graph.choices.size ≤
      (draftAfter scope statements count).graph.choices.size := by
  refine draftAfter_induction (motive := fun count =>
    (draftAfter scope statements place).graph.choices.size ≤
      (draftAfter scope statements count).graph.choices.size) read le within (Nat.le_refl _) ?_
  intro index statement _ _ _ stepped soFar
  rw [Draft.size_choices_of_step stepped]
  exact Nat.le_add_right_of_le soFar

/-- Branches are only ever added. -/
theorem size_branches_mono (read : Draft.empty.stepAll scope statements = .ok final)
    {count : Nat} (le : place ≤ count) (within : count ≤ statements.length) :
    (draftAfter scope statements place).graph.branches.size ≤
      (draftAfter scope statements count).graph.branches.size := by
  refine draftAfter_induction (motive := fun count =>
    (draftAfter scope statements place).graph.branches.size ≤
      (draftAfter scope statements count).graph.branches.size) read le within (Nat.le_refl _) ?_
  intro index statement _ _ _ stepped soFar
  rw [Draft.size_branches_of_step stepped]
  exact Nat.le_add_right_of_le soFar

theorem IsOption.lt_length {terminal : Bool} (option : IsOption statements terminal place) :
    place < statements.length := by
  obtain ⟨_, _, found, _⟩ := option
  exact (List.getElem?_eq_some_iff.mp found).1

/-- An option adds one choice. -/
theorem IsOption.size_choices (read : Draft.empty.stepAll scope statements = .ok final)
    {terminal : Bool} (option : IsOption statements terminal place) :
    (draftAfter scope statements (place + 1)).graph.choices.size =
      choiceAt scope statements place + 1 := by
  obtain ⟨statement, _, found, construct, _⟩ := option
  rw [Draft.size_choices_of_step (step_draftAfter read found), if_pos construct]
  rfl

/-- Later options make later choices. -/
theorem IsOption.choiceAt_lt (read : Draft.empty.stepAll scope statements = .ok final)
    {terminal : Bool} (option : IsOption statements terminal earlier) (before : earlier < later)
    (within : later ≤ statements.length) :
    choiceAt scope statements earlier < choiceAt scope statements later := by
  have mono := size_choices_mono read (Nat.succ_le_of_lt before) within
  rw [option.size_choices read] at mono
  exact mono

/-- An option adds a choice without links. -/
theorem IsOption.fresh (read : Draft.empty.stepAll scope statements = .ok final)
    {terminal : Bool} (option : IsOption statements terminal place) :
    ((draftAfter scope statements (place + 1)).graph.choice
        (choiceAt scope statements place)).next = none ∧
      ((draftAfter scope statements (place + 1)).graph.choice
        (choiceAt scope statements place)).branch = none := by
  obtain ⟨statement, _, found, construct, _⟩ := option
  have stepped := step_draftAfter read found
  let closed := (draftAfter scope statements place).closeDeepBranches statement.indent
  have size : closed.graph.choices.size = choiceAt scope statements place :=
    congrArg Array.size (Draft.graphChoices_closeDeepBranches _ statement.indent)
  have stepOption : closed.stepOption scope statement =
      .ok (draftAfter scope statements (place + 1)) := by
    unfold Draft.step at stepped
    simpa only [construct] using stepped
  obtain ⟨line, commands, conditions, root, -, -, -, -, after⟩ :=
    Draft.stepOption_eq_ok_iff.mp stepOption
  have older : ∀ choice ∈ (closed.abandonDeepLines statement.indent).choices,
      choice.id < closed.graph.choices.size := by
    intro choice member
    rw [size]
    exact (nested_draftAfter place).knownChoices choice
      ((Draft.choices_closeDeepBranches_suffix _ statement.indent).mem member)
  have recorded : (draftAfter scope statements (place + 1)).graph.choice
      (choiceAt scope statements place) =
        Choice.fresh line.text conditions commands root := by
    rw [after, ← size]
    exact Draft.choice_offer_size older _ line.terminal statement.indent
  rw [recorded]
  exact ⟨rfl, rfl⟩

/-- An option that may have a body is the last thing made and the innermost choice. -/
structure IsLast (scope : Scope) (statements : List Statement) (place : Nat) : Prop where
  latest : (draftAfter scope statements (place + 1)).latest = .choice
  innermost : ∃ outer, (draftAfter scope statements (place + 1)).choices =
    ⟨choiceAt scope statements place, indentAt statements place⟩ :: outer
  shallow : ∀ branch ∈ (draftAfter scope statements (place + 1)).branches,
    branch.indent ≤ indentAt statements place
  root : ∃ line outer, (draftAfter scope statements (place + 1)).lines =
    ⟨line, indentAt statements place⟩ :: outer
  fresh : ((draftAfter scope statements (place + 1)).graph.choice
    (choiceAt scope statements place)).next = none ∧
    ((draftAfter scope statements (place + 1)).graph.choice
      (choiceAt scope statements place)).branch = none

theorem IsOption.isLast (read : Draft.empty.stepAll scope statements = .ok final)
    (option : IsOption statements false place) : IsLast scope statements place := by
  have unlinked := option.fresh read
  obtain ⟨statement, line, found, construct, readLine, opens⟩ := option
  have stepped := step_draftAfter read found
  have indent := indentAt_eq found
  have nested : (draftAfter scope statements place).Nested := nested_draftAfter place
  let closed := (draftAfter scope statements place).closeDeepBranches statement.indent
  have size : closed.graph.choices.size = choiceAt scope statements place :=
    congrArg Array.size (Draft.graphChoices_closeDeepBranches _ statement.indent)
  have stepOption : closed.stepOption scope statement =
      .ok (draftAfter scope statements (place + 1)) := by
    unfold Draft.step at stepped
    simpa only [construct] using stepped
  obtain ⟨other, readOther, branches, choices, latest⟩ := Draft.stacks_of_stepOption stepOption
  rw [readLine] at readOther
  cases readOther
  rw [opens] at choices latest
  obtain ⟨_, commands, conditions, root, -, -, -, offeredUnder, after⟩ :=
    Draft.stepOption_eq_ok_iff.mp stepOption
  constructor
  · exact latest
  · exact ⟨_, by rw [choices, size, indent]; rfl⟩
  · intro branch member
    rw [branches, Draft.branches_closeDeepBranches] at member
    rw [indent]
    exact le_of_mem_dropWhile nested.sortedBranches member
  · unfold Draft.optionRoot at offeredUnder
    rw [after, Draft.lines_offer, indent]
    split at offeredUnder
    · split at offeredUnder
      · cases offeredUnder
      · rename_i owner outer stack
        split at offeredUnder
        · rename_i level
          exact ⟨owner.id, outer, by rw [stack, ← level]⟩
        · cases offeredUnder
    · cases offeredUnder
  · exact unlinked

/-! ## The body of an option -/

/-- The statement after an option that may have a body is one level deeper and a spoken line or a
first arm. -/
def BodyBegins (statements : List Statement) (place : Nat) : Prop :=
  (constructAt statements (place + 1) = some .speech ∨
    constructAt statements (place + 1) = some .ifArm) ∧
  indentAt statements (place + 1) = indentAt statements place + 1

/-- What stands one level deeper than an option takes its place right behind it: no branch is
closed, and the option stays open. -/
theorem IsLast.roomFor (last : IsLast scope statements place)
    (deeper : statement.indent = indentAt statements place + 1) :
    let draft := draftAfter scope statements (place + 1)
    draft.closeDeepBranches statement.indent = draft ∧ draft.roomFor statement = draft := by
  intro draft
  obtain ⟨outer, innermost⟩ := last.innermost
  have shallow : ∀ branch ∈ draft.branches, branch.indent < statement.indent := by
    intro branch member
    rw [deeper]
    exact Nat.lt_succ_of_le (last.shallow branch member)
  have closed : draft.closeDeepBranches statement.indent = draft :=
    Draft.closeDeepBranches_of_shallow fun branch member => Nat.le_of_lt (shallow branch member)
  have settled : draft.settleChoice statement.indent = draft := by
    rw [Draft.settleChoice, if_pos last.latest]
    simp only [draft, innermost]
    rw [if_neg (by simp [deeper])]
  refine ⟨closed, ?_⟩
  rw [Draft.roomFor, closed, Draft.makeRoom, settled, Draft.closeBranchAt]
  rcases stack : draft.branches with _ | ⟨branch, rest⟩
  · rfl
  · have level := shallow branch (stack ▸ List.mem_cons_self)
    exact if_neg (Nat.ne_of_lt level)

/-- What begins one level deeper than an option begins its body. -/
theorem enters_of_bodyBegins (read : Draft.empty.stepAll scope statements = .ok final)
    (option : IsOption statements false place) (begins : BodyBegins statements place) :
    Enters scope statements place (place + 1) ∧ ¬ Ends scope statements place (place + 1) := by
  have last := option.isLast read
  obtain ⟨outer, innermost⟩ := last.innermost
  let draft := draftAfter scope statements (place + 1)
  have latestChoice : draft.latestChoice? =
      some ⟨choiceAt scope statements place, indentAt statements place⟩ := by
    rw [Draft.latestChoice?, if_pos last.latest, innermost]
    rfl
  obtain ⟨constructs, deeper⟩ := begins
  have known : ∃ statement, statements[place + 1]? = some statement ∧
      statement.indent = indentAt statements place + 1 := by
    rcases found : statements[place + 1]? with _ | statement
    · simp [constructAt, found] at constructs
    · refine ⟨statement, rfl, ?_⟩
      rw [← deeper, indentAt, found]
      rfl
  obtain ⟨statement, found, indent⟩ := known
  obtain ⟨closed, room⟩ : draft.closeDeepBranches statement.indent = draft ∧
      draft.roomFor statement = draft := last.roomFor indent
  -- The body is deeper than the choice, so the choice is not ended.
  have notEnded : draft.endedBy statement = none ∨ statement.construct = .option := by
    simp only [Draft.endedBy, closed, latestChoice]
    rcases statement.construct <;> simp [Option.filter, indent]
  rw [constructAt, found, Option.map_some] at constructs
  have entered : draft.enteredBy statement =
      some ⟨choiceAt scope statements place, indentAt statements place⟩ := by
    unfold Draft.enteredBy
    rw [closed, room, latestChoice]
    rcases constructs with speaks | opens
    · rw [Option.some.inj speaks]
    · rw [Option.some.inj opens]
  constructor
  · exact ⟨statement, found, congrArg (Option.map OpenNode.id) entered⟩
  · rintro ⟨other, foundOther, ended⟩
    rw [found] at foundOther
    cases foundOther
    rcases notEnded with none | isOption
    · rw [none] at ended
      cases ended
    · rw [isOption] at constructs
      rcases constructs with same | same <;> cases same

/-! ## The record of a choice -/

/-- The line that the statement at a place makes the successor of a choice. -/
def nextGivenAt (scope : Scope) (statements : List Statement) (id : ChoiceIndex) (place : Nat) :
    Option LineIndex :=
  statements[place]?.bind fun statement =>
    (draftAfter scope statements place).nextGiven statement id

/-- The branch that the statement at a place lets a choice lead to. -/
def branchGivenAt (scope : Scope) (statements : List Statement) (id : ChoiceIndex) (place : Nat) :
    Option BranchIndex :=
  statements[place]?.bind fun statement =>
    (draftAfter scope statements place).branchGiven statement id

section Record

variable {id : ChoiceIndex} {start stop : Nat}

/-- The links of a choice after one more statement. -/
theorem links_draftAfter_succ (read : Draft.empty.stepAll scope statements = .ok final)
    (known : id < (draftAfter scope statements start).graph.choices.size) (le : start ≤ place)
    (within : place < statements.length) :
    ((draftAfter scope statements (place + 1)).graph.choice id).next =
      (nextGivenAt scope statements id place).or
        ((draftAfter scope statements place).graph.choice id).next ∧
    ((draftAfter scope statements (place + 1)).graph.choice id).branch =
      (branchGivenAt scope statements id place).or
        ((draftAfter scope statements place).graph.choice id).branch := by
  have found : statements[place]? = some statements[place] := List.getElem?_eq_getElem within
  have knownThen := Nat.lt_of_lt_of_le known (size_choices_mono read le (Nat.le_of_lt within))
  rw [nextGivenAt, branchGivenAt, found,
    Draft.choice_of_step (step_draftAfter read found) knownThen]
  exact ⟨rfl, rfl⟩

theorem nextGivenAt_of_length_le (outside : statements.length ≤ place) :
    nextGivenAt scope statements id place = none := by
  rw [nextGivenAt, List.getElem?_eq_none outside, Option.bind_none]

theorem branchGivenAt_of_length_le (outside : statements.length ≤ place) :
    branchGivenAt scope statements id place = none := by
  rw [branchGivenAt, List.getElem?_eq_none outside, Option.bind_none]

/-- Nothing happens to choices where a script ends. -/
theorem choice_closeDialogue_final (read : Draft.empty.stepAll scope statements = .ok final) :
    final.closeDialogue.graph.choice id =
      (draftAfter scope statements statements.length).graph.choice id := by
  rw [draftAfter_length read]
  exact Graph.choice_congr final.graphChoices_closeDialogue id

/-- In the end a choice has an old successor exactly if it had it before and got no new
one. -/
theorem next_choice_eq_iff (read : Draft.empty.stepAll scope statements = .ok final)
    (known : id < (draftAfter scope statements start).graph.choices.size)
    (within : start ≤ statements.length) {next : Option LineIndex}
    (old : ∀ line, next = some line → line < (draftAfter scope statements start).graph.lines.size) :
    (final.closeDialogue.graph.choice id).next = next ↔
      ((draftAfter scope statements start).graph.choice id).next = next ∧
        ∀ place, start ≤ place → nextGivenAt scope statements id place = none := by
  rw [choice_closeDialogue_final read]
  apply eq_iff_of_writes
    (fun count => ((draftAfter scope statements count).graph.choice id).next) _ within
  · exact fun place outside => nextGivenAt_of_length_le outside
  · intro place after before
    exact (links_draftAfter_succ read known after before).1
  · intro place after before line given same
    obtain ⟨statement, _, givenThen⟩ := Option.bind_eq_some_iff.mp given
    have new := Draft.size_le_of_nextGiven givenThen
    have mono := size_draftAfter_mono read after
    exact Nat.not_lt_of_le (Nat.le_trans mono new) (old line same.symm)

/-- In the end a choice leads to an old branch exactly if it did before and was not led to a
new one. -/
theorem branch_choice_eq_iff (read : Draft.empty.stepAll scope statements = .ok final)
    (known : id < (draftAfter scope statements start).graph.choices.size)
    (within : start ≤ statements.length) {branch : Option BranchIndex}
    (old : ∀ node, branch = some node →
      node < (draftAfter scope statements start).graph.branches.size) :
    (final.closeDialogue.graph.choice id).branch = branch ↔
      ((draftAfter scope statements start).graph.choice id).branch = branch ∧
        ∀ place, start ≤ place → branchGivenAt scope statements id place = none := by
  rw [choice_closeDialogue_final read]
  apply eq_iff_of_writes
    (fun count => ((draftAfter scope statements count).graph.choice id).branch) _ within
  · exact fun place outside => branchGivenAt_of_length_le outside
  · intro place after before
    exact (links_draftAfter_succ read known after before).2
  · intro place after before node given same
    obtain ⟨statement, _, givenThen⟩ := Option.bind_eq_some_iff.mp given
    have new := Draft.eq_size_of_branchGiven givenThen
    have mono := size_branches_mono read after (Nat.le_of_lt before)
    exact Nat.not_lt_of_le (new ▸ mono) (old node same.symm)

/-- A statement gives a choice no link exactly if it neither ends it nor begins its body. -/
theorem givenAt_eq_none_iff :
    nextGivenAt scope statements (choiceAt scope statements earlier) later = none ∧
        branchGivenAt scope statements (choiceAt scope statements earlier) later = none ↔
      ¬ (Ends scope statements earlier later ∨ Enters scope statements earlier later) := by
  rw [not_or, nextGivenAt, branchGivenAt, Ends, Enters]
  rcases statements[later]? with _ | statement
  · simp
  · simpa using Draft.nextGiven_eq_none_and_branchGiven_eq_none_iff

/-- Only the first arm of a branch lets a choice lead to a branch. -/
theorem branchGivenAt_eq_none_iff :
    branchGivenAt scope statements (choiceAt scope statements earlier) later = none ↔
      ¬ (constructAt statements later = some .ifArm ∧ Enters scope statements earlier later) := by
  rw [branchGivenAt, constructAt, Enters]
  rcases statements[later]? with _ | statement
  · simp
  · simp [Draft.branchGiven]

/-- What ends an option makes the relay that follows it. -/
theorem nextGivenAt_of_ends (ends : Ends scope statements earlier later) :
    nextGivenAt scope statements (choiceAt scope statements earlier) later =
      some (draftAfter scope statements later).graph.lines.size := by
  obtain ⟨statement, found, ended⟩ := ends
  rw [nextGivenAt, found]
  exact if_pos ended

end Record

/-! ## Coming back to an option -/

/-- Where a choice is the last thing made, the option that made it stands right before, or
there are only terminal options in between. -/
theorem exists_option_of_latest (read : Draft.empty.stepAll scope statements = .ok final)
    {count : Nat} (within : count ≤ statements.length)
    (latest : (draftAfter scope statements count).latest = .choice) :
    ∃ option, option < count ∧ IsOption statements false option ∧
      ∀ between, option < between → between < count → IsOption statements true between := by
  revert latest
  refine draftAfter_induction (motive := fun count =>
    (draftAfter scope statements count).latest = .choice →
      ∃ option, option < count ∧ IsOption statements false option ∧
        ∀ between, option < between → between < count → IsOption statements true between)
    read (Nat.zero_le count) within ?_ ?_
  · intro latest
    cases latest
  · intro place statement _ _ found stepped soFar latest
    let closed := (draftAfter scope statements place).closeDeepBranches statement.indent
    unfold Draft.step at stepped
    split at stepped
    · obtain ⟨title, -, -, -, after⟩ := Draft.stepTitle_eq_ok_iff.mp stepped
      rw [after] at latest
      cases latest
    · rename_i construct
      obtain ⟨option, readOption, -, -, latestAfter⟩ := Draft.stacks_of_stepOption stepped
      have isOption : IsOption statements option.terminal place :=
        ⟨statement, option, found, construct, readOption, rfl⟩
      rcases terminal : option.terminal with _ | _
      · refine ⟨place, Nat.lt_succ_self place, terminal ▸ isOption, ?_⟩
        exact fun between after before => absurd before (Nat.not_lt_of_le after)
      · -- A terminal option does not count as what was made last.
        rw [terminal, if_pos rfl, latest] at latestAfter
        have before := (Draft.latest_closeDeepBranches_eq_choice_iff.mp latestAfter.symm).1
        obtain ⟨other, earlier, opens, terminals⟩ := soFar before
        refine ⟨other, Nat.lt_succ_of_lt earlier, opens, fun between after early => ?_⟩
        rcases Nat.lt_or_eq_of_le (Nat.le_of_lt_succ early) with early | rfl
        · exact terminals between after early
        · exact terminal ▸ isOption
    · obtain ⟨-, -, latestAfter⟩ := Draft.stacks_of_stepIfArm stepped
      rw [latest] at latestAfter
      cases latestAfter
    · obtain ⟨-, -, latestAfter⟩ := Draft.stacks_of_stepElseArm stepped
      rw [latest] at latestAfter
      cases latestAfter
    · obtain ⟨-, -, latestAfter⟩ := Draft.stacks_of_stepSpeech stepped
      rw [latest] at latestAfter
      cases latestAfter

theorem IsOption.terminal_eq {first second : Bool} (option : IsOption statements first place)
    (other : IsOption statements second place) : first = second := by
  obtain ⟨statement, line, found, -, readLine, terminal⟩ := option
  obtain ⟨_, _, foundOther, -, readOther, terminalOther⟩ := other
  rw [found] at foundOther
  cases foundOther
  rw [readLine] at readOther
  cases readOther
  exact terminal.symm.trans terminalOther

theorem IsOption.constructAt_eq {terminal : Bool} (option : IsOption statements terminal place) :
    constructAt statements place = some .option := by
  obtain ⟨statement, _, found, construct, _⟩ := option
  exact Option.map_eq_some_iff.mpr ⟨statement, found, construct⟩

/-- An option whose body has begun becomes the last thing made again only after terminal
options. -/
theorem afterTerminal_of_latestChoice? (read : Draft.empty.stepAll scope statements = .ok final)
    (option : IsOption statements false earlier) (begins : BodyBegins statements earlier)
    (within : later ≤ statements.length) (after : earlier + 1 < later)
    (last : (draftAfter scope statements later).latestChoice?.map OpenNode.id =
      some (choiceAt scope statements earlier)) :
    AfterTerminal statements earlier later := by
  have latest : (draftAfter scope statements later).latest = .choice := by
    unfold Draft.latestChoice? at last
    split at last
    · assumption
    · cases last
  obtain ⟨other, before, opens, terminals⟩ := exists_option_of_latest read within latest
  have notOption : ∀ terminal, ¬ IsOption statements terminal (earlier + 1) := by
    intro terminal isOption
    rcases begins.1 with speaks | opensBranch
    · rw [isOption.constructAt_eq] at speaks
      cases speaks
    · rw [isOption.constructAt_eq] at opensBranch
      cases opensBranch
  have inside : earlier < other := by
    rcases Nat.lt_trichotomy other earlier with outside | same | inside
    · have isTerminal := terminals earlier outside (Nat.lt_of_succ_lt after)
      cases option.terminal_eq isTerminal
    · exact absurd (terminals (earlier + 1) (same ▸ Nat.lt_succ_self _) after) (notOption true)
    · exact inside
  refine ⟨other, inside, ?_, opens, terminals⟩
  rcases Nat.lt_or_eq_of_le (Nat.succ_le_of_lt before) with apart | adjacent
  · exact apart
  · -- Right after the other option, its own choice is the last one.
    obtain ⟨outer, innermost⟩ := (opens.isLast read).innermost
    have adjacent' : other + 1 = later := adjacent
    rw [adjacent'] at innermost
    rw [Draft.latestChoice?, if_pos latest, innermost] at last
    have less := option.choiceAt_lt read inside (Nat.le_trans (Nat.le_of_lt before) within)
    have same : choiceAt scope statements other = choiceAt scope statements earlier :=
      Option.some.inj last
    exact absurd same.symm (Nat.ne_of_lt less)

/-! ## Being inside a body -/

/-- A place lies in the body of an option: from the option on, everything belongs to the same
dialogue and is deeper than the option. -/
structure InBodyOf (statements : List Statement) (option place : Nat) : Prop where
  isOption : IsOption statements false option
  after : option < place
  inside : ∀ between, option < between → between ≤ place →
    constructAt statements between ≠ some .dialogue ∧
      indentAt statements option < indentAt statements between

/-- Each open choice is that of an option whose body has not ended. -/
theorem exists_option_of_open (read : Draft.empty.stepAll scope statements = .ok final)
    {count : Nat} (within : count ≤ statements.length) :
    ∀ choice ∈ (draftAfter scope statements count).choices, ∃ option, option < count ∧
      IsOption statements false option ∧
      choice = ⟨choiceAt scope statements option, indentAt statements option⟩ ∧
      ∀ between, option < between → between < count →
        constructAt statements between ≠ some .dialogue ∧
          indentAt statements option < indentAt statements between := by
  refine draftAfter_induction (motive := fun count =>
    ∀ choice ∈ (draftAfter scope statements count).choices, ∃ option, option < count ∧
      IsOption statements false option ∧
      choice = ⟨choiceAt scope statements option, indentAt statements option⟩ ∧
      ∀ between, option < between → between < count →
        constructAt statements between ≠ some .dialogue ∧
          indentAt statements option < indentAt statements between)
    read (Nat.zero_le count) within ?_ ?_
  · intro choice member
    cases member
  · intro place statement _ _ found stepped soFar choice member
    obtain ⟨opened, kept, choices, fresh, suffix, shallower⟩ :=
      Draft.exists_choices_of_step (nested_draftAfter place) stepped
    rw [choices] at member
    rcases List.mem_append.mp member with new | old
    · rcases fresh with rfl | ⟨rfl, construct, line, readLine, opens⟩
      · cases new
      · refine ⟨place, Nat.lt_succ_self place, ⟨statement, line, found, construct, readLine,
          opens⟩, ?_, fun between after before => absurd before (Nat.not_lt_of_le after)⟩
        rw [List.mem_singleton.mp new, indentAt_eq found]
        rfl
    · obtain ⟨option, before, isOption, same, inside⟩ := soFar choice (suffix.mem old)
      obtain ⟨deeper, stays⟩ := shallower choice old
      refine ⟨option, Nat.lt_succ_of_lt before, isOption, same, fun between after early => ?_⟩
      rcases Nat.lt_or_eq_of_le (Nat.le_of_lt_succ early) with early | rfl
      · exact inside between after early
      · rw [constructAt_of_found found, indentAt_eq found]
        rw [same] at deeper
        exact ⟨fun title => stays (Option.some.inj title), deeper⟩

end Reading

end Parley
