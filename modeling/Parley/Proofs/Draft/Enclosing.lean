import Parley.Proofs.Draft.Roots

/-!
# The options around a place

An option encloses what comes after it, as long as that is deeper than the option and belongs to
its dialogue.  In a script without terminal options the open choices are exactly those of the
options that enclose the place that has been reached, the innermost first.
-/

namespace Parley

open Parley.Script

/-- Of nodes that get no deeper, those that are left by dropping the deep ones are the shallow
ones. -/
theorem dropWhile_eq_filter {stack : List OpenNode} {indent : Nat}
    (sorted : stack.Pairwise fun inner outer => outer.indent ≤ inner.indent) :
    stack.dropWhile (fun node => indent ≤ node.indent) =
      stack.filter fun node => node.indent < indent := by
  rw [dropWhile_eq_filter_of_pairwise]
  · simp only [← decide_not, Nat.not_le]
  · refine (sorted.sublist (List.dropWhile_sublist _)).imp fun no_deeper deep => ?_
    simp only [decide_eq_true_eq] at deep ⊢
    exact Nat.le_trans deep no_deeper

/-- Everything between an option and a place is deeper than the option and belongs to its
dialogue. -/
def StaysOpen (statements : List Statement) (option count : Nat) : Prop :=
  constructAt statements option = some .option ∧
    ∀ between < count, option < between → constructAt statements between ≠ some .dialogue ∧
      indentAt statements option < indentAt statements between

/-- An option encloses a later place of its dialogue if everything after it, up to and including
that place, is deeper. -/
def Encloses (statements : List Statement) (option place : Nat) : Prop :=
  option < place ∧ constructAt statements option = some .option ∧
    ∀ between ≤ place, option < between → constructAt statements between ≠ some .dialogue ∧
      indentAt statements option < indentAt statements between

instance (statements : List Statement) (option count : Nat) :
    Decidable (StaysOpen statements option count) :=
  inferInstanceAs (Decidable (_ ∧ ∀ between < count, _))

theorem encloses_iff {statements : List Statement} {option place : Nat} :
    Encloses statements option place ↔
      option < place ∧ StaysOpen statements option (place + 1) := by
  simp only [StaysOpen, Encloses, Nat.lt_succ_iff]

instance (statements : List Statement) (option place : Nat) :
    Decidable (Encloses statements option place) :=
  decidable_of_iff _ encloses_iff.symm

/-- The options that are open when a number of statements has been read, the innermost
first. -/
def openOptions (statements : List Statement) (count : Nat) : List Nat :=
  (List.range count).reverse.filter fun option => StaysOpen statements option count

/-- The options that enclose a place, the innermost first. -/
def enclosing (statements : List Statement) (place : Nat) : List Nat :=
  (List.range place).reverse.filter fun option => Encloses statements option place

section Source

variable {statements : List Statement} {option place count : Nat}

theorem staysOpen_succ_iff (before : option < count) :
    StaysOpen statements option (count + 1) ↔
      StaysOpen statements option count ∧ constructAt statements count ≠ some .dialogue ∧
        indentAt statements option < indentAt statements count := by
  constructor
  · rintro ⟨isOption, inside⟩
    exact ⟨⟨isOption, fun between early => inside between (Nat.lt_succ_of_lt early)⟩,
      inside count (Nat.lt_succ_self count) before⟩
  · rintro ⟨⟨isOption, inside⟩, last⟩
    refine ⟨isOption, fun between early after => ?_⟩
    rcases Nat.lt_or_eq_of_le (Nat.le_of_lt_succ early) with early | rfl
    · exact inside between early after
    · exact last

/-- The options that stay open when a statement has been read are those that are shallower, unless
it begins a dialogue. -/
theorem filter_staysOpen_succ :
    ((List.range count).reverse.filter fun option => StaysOpen statements option (count + 1)) =
      if constructAt statements count = some .dialogue then []
      else (openOptions statements count).filter fun option =>
        indentAt statements option < indentAt statements count := by
  have known : ∀ option ∈ (List.range count).reverse, option < count :=
    fun option member => List.mem_range.mp (List.mem_reverse.mp member)
  split
  · rename_i begins
    refine List.filter_eq_nil_iff.mpr fun option member => ?_
    simp [staysOpen_succ_iff (known option member), begins]
  · rename_i stays
    rw [openOptions, List.filter_filter]
    refine List.filter_congr fun option member => ?_
    simp [staysOpen_succ_iff (known option member), stays, Bool.and_comm]

theorem openOptions_succ :
    openOptions statements (count + 1) =
      (if constructAt statements count = some .option then [count] else []) ++
        if constructAt statements count = some .dialogue then []
        else (openOptions statements count).filter fun option =>
          indentAt statements option < indentAt statements count := by
  rw [openOptions, List.range_succ, List.reverse_append, List.reverse_singleton,
    List.singleton_append, List.filter_cons, filter_staysOpen_succ]
  have itself : StaysOpen statements count (count + 1) ↔
      constructAt statements count = some .option := by
    constructor
    · exact And.left
    · intro isOption
      refine ⟨isOption, fun between early after => ?_⟩
      exact absurd early (Nat.not_lt_of_le after)
  by_cases isOption : constructAt statements count = some .option <;> simp [itself, isOption]

/-- The options around a place are those open ones that are shallower. -/
theorem enclosing_eq (stays : constructAt statements place ≠ some .dialogue) :
    enclosing statements place = (openOptions statements place).filter fun option =>
      indentAt statements option < indentAt statements place := by
  have shallower := @filter_staysOpen_succ statements place
  rw [if_neg stays] at shallower
  rw [← shallower, enclosing]
  refine List.filter_congr fun option member => ?_
  have before := List.mem_range.mp (List.mem_reverse.mp member)
  simp [encloses_iff, before]

end Source

section Reading

variable {scope : Scope} {statements : List Statement} {final : Draft} {place count : Nat}
  {statement : Statement}

/-- The node of the choice that an option makes. -/
def choiceNode (scope : Scope) (statements : List Statement) (option : Nat) : OpenNode :=
  ⟨choiceAt scope statements option, indentAt statements option⟩

/-- Without terminal options before it, an option is no deeper than the choice that was made
last. -/
theorem le_of_latest_choice (read : Draft.empty.stepAll scope statements = .ok final)
    (unterminated : ∀ place, ¬ IsOption statements true place)
    (found : statements[place]? = some statement) (offers : statement.construct = .option)
    {choice : OpenNode} (last : (draftAfter scope statements place).latestChoice? = some choice) :
    statement.indent ≤ choice.indent := by
  have within := Nat.le_of_lt (List.getElem?_eq_some_iff.mp found).1
  have latest : (draftAfter scope statements place).latest = .choice := by
    unfold Draft.latestChoice? at last
    split at last
    · assumption
    · cases last
  obtain ⟨option, before, isOption, terminals⟩ := exists_option_of_latest read within latest
  have adjacent : option + 1 = place := by
    apply Nat.le_antisymm before
    apply Nat.le_of_not_lt
    exact fun early => unterminated _ (terminals (option + 1) (Nat.lt_succ_self option) early)
  have isLast := isOption.isLast read
  obtain ⟨outer, innermost⟩ := isLast.innermost
  obtain ⟨line, rest, lines⟩ := isLast.root
  rw [adjacent] at innermost lines
  rw [Draft.latestChoice?, if_pos latest, innermost] at last
  cases last
  -- The line under which the earlier option is offered is still open, so it is the root.
  apply Nat.le_of_not_lt
  intro deeper
  have deeper' : indentAt statements option < statement.indent := deeper
  have stepped := step_draftAfter read found
  unfold Draft.step at stepped
  simp only [offers] at stepped
  obtain ⟨_, _, _, root, -, -, -, isRoot, -⟩ := Draft.stepOption_eq_ok_iff.mp stepped
  obtain ⟨others, stack⟩ := Draft.exists_of_optionRoot isRoot
  let closed := (draftAfter scope statements place).closeDeepBranches statement.indent
  have remaining : closed.lines.dropWhile (fun line => statement.indent < line.indent) =
      ⟨root, statement.indent⟩ :: others := stack
  rw [Draft.dropWhile_lines_closeDeepBranches, lines, List.dropWhile_cons_of_neg (by
    simpa using Nat.le_of_lt deeper')] at remaining
  injection remaining with same
  injection same with _ level
  exact Nat.ne_of_lt deeper' level

/-- Without terminal options, a statement closes the choices that are not shallower and opens one
if it is an option. -/
theorem choices_draftAfter_succ (read : Draft.empty.stepAll scope statements = .ok final)
    (unterminated : ∀ place, ¬ IsOption statements true place)
    (found : statements[place]? = some statement) :
    (draftAfter scope statements (place + 1)).choices =
      (if statement.construct = .option then [choiceNode scope statements place] else []) ++
        if statement.construct = .dialogue then []
        else (draftAfter scope statements place).choices.filter fun choice =>
          choice.indent < statement.indent := by
  let before := draftAfter scope statements place
  let closed := before.closeDeepBranches statement.indent
  have stepped := step_draftAfter read found
  have nested : before.Nested := nested_draftAfter place
  have left : closed.choices.dropWhile (fun choice => statement.indent ≤ choice.indent) =
      before.choices.filter fun choice => choice.indent < statement.indent := by
    rw [← dropWhile_eq_filter nested.sortedChoices]
    exact before.dropWhile_choices_closeDeepBranches statement.indent
  unfold Draft.step at stepped
  split at stepped
  · rename_i construct
    obtain ⟨title, -, -, -, same⟩ := Draft.stepTitle_eq_ok_iff.mp stepped
    rw [same, if_neg (by simp [construct]), if_pos construct]
    rfl
  · rename_i construct
    obtain ⟨option, readOption, -, choices, -⟩ := Draft.stacks_of_stepOption stepped
    have opens : option.terminal = false := by
      rcases terminal : option.terminal with _ | _
      · rfl
      · exact absurd ⟨statement, option, found, construct, readOption, terminal⟩
          (unterminated place)
    have size : closed.graph.choices.size = choiceAt scope statements place :=
      congrArg Array.size (before.graphChoices_closeDeepBranches statement.indent)
    have dropped :
        (if closed.latest = .choice then closed.choices.drop 1 else closed.choices).dropWhile
            (fun choice => statement.indent ≤ choice.indent) =
          closed.choices.dropWhile fun choice => statement.indent ≤ choice.indent := by
      split
      · rename_i latest
        rcases stack : closed.choices with _ | ⟨top, outer⟩
        · rfl
        · have last : closed.latestChoice? = some top := by
            rw [Draft.latestChoice?, if_pos latest, stack]
            rfl
          have level := le_of_latest_choice read unterminated found construct
            (Draft.closeDeepBranches_of_latestChoice? last).1
          rw [List.dropWhile_cons_of_pos (by simpa using level)]
          rfl
      · rfl
    rw [choices, if_neg (by simp [opens]), if_pos construct,
      if_neg (show ¬ statement.construct = .dialogue by simp [construct]), ← left, ← dropped,
      choiceNode, indentAt_eq found, ← size]
  · rename_i construct
    obtain ⟨-, choices, -⟩ := Draft.stacks_of_stepIfArm stepped
    rw [if_neg (by simp [construct]), if_neg (by simp [construct]), choices]
    exact left
  · rename_i construct
    obtain ⟨-, choices, -⟩ := Draft.stacks_of_stepElseArm stepped
    rw [if_neg (by simp [construct]), if_neg (by simp [construct]), choices]
    exact left
  · rename_i construct
    obtain ⟨-, choices, -⟩ := Draft.stacks_of_stepSpeech stepped
    rw [if_neg (by simp [construct]), if_neg (by simp [construct]), choices]
    exact left

/-- Without terminal options, the open choices are those of the open options. -/
theorem choices_eq_openOptions (read : Draft.empty.stepAll scope statements = .ok final)
    (unterminated : ∀ place, ¬ IsOption statements true place)
    (within : count ≤ statements.length) :
    (draftAfter scope statements count).choices =
      (openOptions statements count).map (choiceNode scope statements) := by
  refine draftAfter_induction (motive := fun count =>
    (draftAfter scope statements count).choices =
      (openOptions statements count).map (choiceNode scope statements))
    read (Nat.zero_le count) within rfl ?_
  intro place statement _ _ found _ soFar
  have indents : ((openOptions statements place).map (choiceNode scope statements)).filter
      (fun choice => choice.indent < statement.indent) =
        ((openOptions statements place).filter fun option =>
          indentAt statements option < indentAt statements place).map
            (choiceNode scope statements) := by
    rw [List.filter_map, indentAt_eq found]
    rfl
  rw [choices_draftAfter_succ read unterminated found, soFar, openOptions_succ,
    constructAt_of_found found, indents, List.map_append]
  simp only [Option.some_inj]
  by_cases offers : statement.construct = .option
  · simp [offers]
  · by_cases begins : statement.construct = .dialogue <;> simp [offers, begins]

end Reading

end Parley
