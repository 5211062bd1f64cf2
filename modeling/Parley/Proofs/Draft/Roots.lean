import Parley.Proofs.Draft.Attached
import Parley.Proofs.Draft.Bodies

/-!
# The lines under which choices are offered

An option is offered under the innermost open line, its root, and it stays there: the root of a
choice never changes, and no line loses a choice.  Only plain spoken lines of the dialogue are
open, so every root is one of them.
-/

namespace Parley

open Parley.Script

namespace Draft

variable {scope : Scope} {draft before after : Draft} {statement : Statement}

/-- The line under which a statement offers a choice, if it is an option. -/
def rootOf (draft : Draft) (statement : Statement) : Option LineIndex :=
  if statement.construct = .option then
    (((draft.closeDeepBranches statement.indent).abandonDeepLines statement.indent).optionRoot
      statement.indent).toOption
  else none

/-- An option that may stand where it stands belongs to the innermost open line, at its own
indentation. -/
theorem exists_of_optionRoot {indent : Nat} {root : LineIndex}
    (found : draft.optionRoot indent = .ok root) :
    ∃ outer, draft.lines = ⟨root, indent⟩ :: outer := by
  unfold optionRoot at found
  split at found
  · split at found
    · cases found
    · rename_i top outer stack
      split at found
      · rename_i level
        cases found
        exact ⟨outer, by rw [stack, ← level]⟩
      · cases found
  · cases found

theorem choices_line_addChoiceUnder (draft : Draft) (choice : Choice)
    (known : choice.root < draft.graph.lines.size) (id : LineIndex) :
    ((draft.addChoiceUnder choice).graph.line id).choices = (draft.graph.line id).choices ++
      if choice.root = id then [draft.graph.choices.size] else [] := by
  rw [addChoiceUnder, Graph.line_modifyLine_eq]
  show (if choice.root = id ∧ id < draft.graph.lines.size then _ else draft.graph.line id).choices =
    _
  by_cases same : choice.root = id
  · rw [if_pos ⟨same, same ▸ known⟩, if_pos same]
    rfl
  · rw [if_neg fun both => same both.1, if_neg same, List.append_nil]

theorem choices_line_attachBranch (draft : Draft) (title : String) (branch : BranchIndex)
    (id : LineIndex) :
    ((draft.attachBranch title branch).graph.line id).choices = (draft.graph.line id).choices := by
  unfold attachBranch
  split
  · show ((draft.graph.addLine { Line.relay with branch := some branch }).line id).choices = _
    rw [Graph.line_addLine]
    split
    · rename_i new
      rw [Graph.line_eq_relay _ (Nat.le_of_eq new.symm)]
    · rfl
  · split <;> rfl
  all_goals
    split
    · rw [Graph.line_modifyLine_eq]
      split <;> rfl
    · rfl

/-- An option is listed under its root, and nothing else changes the choices of a line. -/
theorem choices_line_of_step (orderly : before.Orderly)
    (read : before.step scope statement = .ok after) (id : LineIndex) :
    (after.graph.line id).choices = (before.graph.line id).choices ++
      if before.rootOf statement = some id then [before.graph.choices.size] else [] := by
  let closed := before.closeDeepBranches statement.indent
  let dedented := closed.abandonDeepLines statement.indent
  have closedChoices : (closed.graph.line id).choices = (before.graph.line id).choices :=
    congrArg Prod.snd (before.attached_closeDeepBranches statement.indent id)
  have size : closed.graph.choices.size = before.graph.choices.size :=
    congrArg Array.size (before.graphChoices_closeDeepBranches statement.indent)
  by_cases offers : statement.construct = .option
  · unfold step at read
    simp only [offers] at read
    obtain ⟨option, commands, conditions, root, -, -, -, found, rfl⟩ :=
      stepOption_eq_ok_iff.mp read
    obtain ⟨outer, stack⟩ := exists_of_optionRoot found
    have dedentedOrderly := ((Extends.closeDeepBranches before statement.indent).trans
      (Extends.abandonDeepLines _ statement.indent)).orderly orderly
    have known : root < dedented.graph.lines.size := by
      apply dedentedOrderly.known
      exact List.mem_map.mpr ⟨⟨root, statement.indent⟩,
        List.mem_append_left _ (stack ▸ List.mem_cons_self), rfl⟩
    have isRoot : before.rootOf statement = some root := by
      rw [rootOf, if_pos offers, found]
      rfl
    let offered := Choice.fresh option.text conditions commands root
    have listed := dedented.choices_line_addChoiceUnder offered known id
    have ended := congrArg Prod.snd ((dedented.addChoiceUnder offered).attached_finishBodiless id)
    rw [isRoot, graph_offer, ← closedChoices, ← size]
    simp only [Option.some_inj]
    exact ended.trans listed
  · rw [rootOf, if_neg offers, if_neg (by simp), List.append_nil]
    by_cases opens : statement.construct = .ifArm
    · unfold step at read
      simp only [opens] at read
      obtain ⟨title, source, conditions, -, -, -, -, rfl⟩ := stepIfArm_eq_ok_iff.mp read
      rw [← closedChoices]
      exact choices_line_attachBranch { closed with
        graph := closed.graph.addBranch ⟨[⟨conditions, none⟩]⟩
        branches := ⟨closed.graph.branches.size, statement.indent⟩ :: closed.branches } title _ id
    · exact congrArg Prod.snd (attached_of_step offers opens read id)

/-- The root of a choice never changes. -/
theorem root_choice_of_step (read : before.step scope statement = .ok after) {id : ChoiceIndex}
    (known : id < before.graph.choices.size) :
    (after.graph.choice id).root = (before.graph.choice id).root := by
  rw [choice_of_step read known]

/-- The choice that an option makes belongs to the line under which it is offered. -/
theorem root_choice_of_offered (nested : before.Nested)
    (offers : statement.construct = .option) (read : before.step scope statement = .ok after) :
    before.rootOf statement = some (after.graph.choice before.graph.choices.size).root := by
  let dedented := (before.closeDeepBranches statement.indent).abandonDeepLines statement.indent
  unfold step at read
  simp only [offers] at read
  obtain ⟨option, commands, conditions, root, -, -, -, found, rfl⟩ := stepOption_eq_ok_iff.mp read
  have size : dedented.graph.choices.size = before.graph.choices.size :=
    congrArg Array.size (before.graphChoices_closeDeepBranches statement.indent)
  have known : ∀ choice ∈ dedented.choices, choice.id < dedented.graph.choices.size := by
    intro choice member
    rw [size]
    exact nested.knownChoices choice
      ((before.choices_closeDeepBranches_suffix statement.indent).mem member)
  have offered := choice_offer_size known (Choice.fresh option.text conditions commands root)
    option.terminal statement.indent
  rw [size] at offered
  rw [rootOf, if_pos offers, found, offered]
  rfl

/-! ## Open lines -/

/-- Making room for a spoken line only puts relays on top of the open lines, and only deep
ones. -/
theorem exists_lines_roomFor (draft : Draft) (statement : Statement) :
    ∃ relays, (draft.roomFor statement).lines = relays ++ draft.lines ∧
      ∀ relay ∈ relays, statement.indent < relay.indent := by
  let closed := draft.closeDeepBranches statement.indent
  obtain ⟨deep, lines, deeper⟩ := draft.exists_lines_closeDeepBranches statement.indent
  have settled : (closed.settleChoice statement.indent).lines = deep ++ draft.lines := by
    rw [← lines]
    unfold settleChoice
    split
    · split
      · split <;> rfl
      · rfl
    · rfl
  have outer : ∀ relay ∈ deep, statement.indent < relay.indent :=
    fun relay member => Nat.lt_of_succ_lt (deeper relay member).1
  show ∃ relays, ((closed.settleChoice statement.indent).closeBranchAt statement.indent).lines =
    relays ++ draft.lines ∧ _
  unfold closeBranchAt
  split
  · rename_i branch rest stack
    split
    · rename_i level
      unfold completeBranch
      split
      · exact ⟨deep, settled, outer⟩
      · refine ⟨⟨_, branch.indent + 1⟩ :: deep, congrArg (List.cons _) settled, ?_⟩
        intro relay member
        rcases List.mem_cons.mp member with rfl | member
        · exact level ▸ Nat.lt_succ_self _
        · exact outer relay member
    · exact ⟨deep, settled, outer⟩
  · exact ⟨deep, settled, outer⟩

/-- What stands open when a spoken line has followed the line before it are deep relays on top of
lines that were open. -/
theorem exists_lines_release (draft : Draft) (statement : Statement) :
    ∃ relays kept, ((draft.roomFor statement).release statement.indent).lines = relays ++ kept ∧
      (∀ relay ∈ relays, statement.indent < relay.indent) ∧ kept <:+ draft.lines := by
  obtain ⟨relays, room, deep⟩ := draft.exists_lines_roomFor statement
  unfold release
  dsimp only
  rw [room]
  split
  · -- The line that is followed is the outermost relay, if there is any.
    rcases relays with _ | ⟨relay, others⟩
    · exact ⟨[], draft.lines.drop 1, rfl, List.forall_mem_nil _, List.drop_suffix _ _⟩
    · exact ⟨others, draft.lines, rfl,
        fun other member => deep other (List.mem_cons_of_mem relay member), List.suffix_refl _⟩
  · exact ⟨relays, draft.lines, rfl, deep, List.suffix_refl _⟩

/-- The relays are dropped with the deep lines. -/
theorem exists_dropWhile_lines_release (draft : Draft) (statement : Statement) :
    ∃ kept, kept <:+ draft.lines ∧
      (((draft.roomFor statement).release statement.indent).lines.dropWhile
          fun line => statement.indent < line.indent) =
        kept.dropWhile fun line => statement.indent < line.indent := by
  obtain ⟨relays, kept, lines, deep, suffix⟩ := draft.exists_lines_release statement
  refine ⟨kept, suffix, ?_⟩
  rw [lines]
  apply List.dropWhile_append_of_pos
  intro relay member
  simpa using deep relay member

/-- A statement leaves the lines open that are no deeper than itself, or fewer of them, and opens
one if it is a plain spoken line. -/
theorem exists_lines_of_step (read : before.step scope statement = .ok after) :
    ∃ own kept, after.lines = own ++ kept.dropWhile (fun line => statement.indent < line.indent) ∧
      (own = [] ∨ own = [⟨(before.roomFor statement).graph.lines.size, statement.indent⟩] ∧
        statement.construct = .speech ∧
        ∃ speech, Speech.read statement.content = .ok speech ∧ speech.returnDepth = 0) ∧
      kept <:+ before.lines ∧ (kept = [] ∨ statement.construct ≠ .dialogue) := by
  by_cases begins : statement.construct = .dialogue
  · unfold step at read
    simp only [begins] at read
    obtain ⟨title, -, -, -, rfl⟩ := stepTitle_eq_ok_iff.mp read
    exact ⟨[], [], rfl, Or.inl rfl, List.nil_suffix, Or.inl rfl⟩
  · by_cases speaks : statement.construct = .speech
    · unfold step at read
      simp only [speaks] at read
      obtain ⟨speech, readSpeech, lines⟩ := lines_of_stepSpeech read
      obtain ⟨kept, suffix, left⟩ := before.exists_dropWhile_lines_release statement
      refine ⟨_, kept, left ▸ lines, ?_, suffix, Or.inr begins⟩
      split
      · rename_i plain
        exact Or.inr ⟨rfl, speaks, speech, readSpeech, plain⟩
      · exact Or.inl rfl
    · exact ⟨[], before.lines, lines_of_step_silent speaks begins read, Or.inl rfl,
        List.suffix_refl _, Or.inr begins⟩

/-- What a statement leaves open are lines that were open and, if it is a plain spoken line, its
own. -/
theorem mem_lines_of_step (read : before.step scope statement = .ok after) {node : OpenNode}
    (member : node ∈ after.lines) :
    (node ∈ before.lines ∧ statement.construct ≠ .dialogue) ∨
      (node = ⟨(before.roomFor statement).graph.lines.size, statement.indent⟩ ∧
        statement.construct = .speech ∧
        ∃ speech, Speech.read statement.content = .ok speech ∧ speech.returnDepth = 0) := by
  obtain ⟨own, kept, lines, opened, suffix, stays⟩ := exists_lines_of_step read
  rw [lines] at member
  rcases List.mem_append.mp member with new | old
  · rcases opened with rfl | ⟨rfl, speaks, plain⟩
    · cases new
    · exact Or.inr ⟨List.mem_singleton.mp new, speaks, plain⟩
  · rcases stays with rfl | stays
    · cases old
    · exact Or.inl ⟨suffix.mem ((List.dropWhile_sublist _).mem old), stays⟩

end Draft

section Reading

variable (scope : Scope) (statements : List Statement)

/-- The line under which the statement at a place offers a choice, if it is an option. -/
def rootAt (place : Nat) : Option LineIndex :=
  statements[place]?.bind (draftAfter scope statements place).rootOf

variable {scope statements} {final : Draft} {place count : Nat}

/-- Each open line is that of a plain spoken statement of the dialogue. -/
theorem exists_plain_of_open (read : Draft.empty.stepAll scope statements = .ok final)
    (within : count ≤ statements.length) :
    ∀ node ∈ (draftAfter scope statements count).lines, ∃ spoken, spoken < count ∧
      IsPlain statements spoken ∧
      node = ⟨lineAt scope statements spoken, indentAt statements spoken⟩ ∧
      ∀ between, spoken < between → between < count →
        constructAt statements between ≠ some .dialogue := by
  refine draftAfter_induction (motive := fun count =>
    ∀ node ∈ (draftAfter scope statements count).lines, ∃ spoken, spoken < count ∧
      IsPlain statements spoken ∧
      node = ⟨lineAt scope statements spoken, indentAt statements spoken⟩ ∧
      ∀ between, spoken < between → between < count →
        constructAt statements between ≠ some .dialogue)
    read (Nat.zero_le count) within ?_ ?_
  · intro node member
    cases member
  · intro place statement _ _ found stepped soFar node member
    rcases Draft.mem_lines_of_step stepped member with
      ⟨old, stays⟩ | ⟨rfl, speaks, speech, readSpeech, plain⟩
    · obtain ⟨spoken, before, isPlain, same, inside⟩ := soFar node old
      refine ⟨spoken, Nat.lt_succ_of_lt before, isPlain, same, fun between after early => ?_⟩
      rcases Nat.lt_or_eq_of_le (Nat.le_of_lt_succ early) with early | rfl
      · exact inside between after early
      · rw [constructAt_of_found found]
        exact fun title => stays (Option.some.inj title)
    · refine ⟨place, Nat.lt_succ_self place, ⟨statement, speech, found, speaks, readSpeech, plain⟩,
        ?_, fun between after early => absurd early (Nat.not_lt_of_le after)⟩
      rw [lineAt_eq read found speaks, indentAt_eq found]

/-- An option is offered under a plain spoken line of its dialogue, at the same indentation. -/
theorem exists_rootAt (read : Draft.empty.stepAll scope statements = .ok final)
    (option : constructAt statements place = some .option) :
    ∃ spoken, spoken < place ∧ IsPlain statements spoken ∧
      rootAt scope statements place = some (lineAt scope statements spoken) ∧
      indentAt statements spoken = indentAt statements place ∧
      SameDialogue statements spoken place := by
  obtain ⟨statement, found, offers⟩ := Option.map_eq_some_iff.mp option
  have within := Nat.le_of_lt (List.getElem?_eq_some_iff.mp found).1
  have stepped := step_draftAfter read found
  unfold Draft.step at stepped
  simp only [offers] at stepped
  obtain ⟨_, _, _, root, -, -, -, isRoot, -⟩ := Draft.stepOption_eq_ok_iff.mp stepped
  obtain ⟨outer, stack⟩ := Draft.exists_of_optionRoot isRoot
  have opened : ⟨root, statement.indent⟩ ∈ (draftAfter scope statements place).lines := by
    have dedented : ⟨root, statement.indent⟩ ∈
        ((draftAfter scope statements place).closeDeepBranches statement.indent).lines.dropWhile
          fun line => statement.indent < line.indent :=
      List.mem_of_mem_head? (congrArg List.head? stack)
    rw [Draft.dropWhile_lines_closeDeepBranches] at dedented
    exact (List.dropWhile_sublist _).mem dedented
  obtain ⟨spoken, before, plain, same, inside⟩ := exists_plain_of_open read within _ opened
  injection same with sameRoot sameIndent
  refine ⟨spoken, before, plain, ?_, ?_, inside⟩
  · rw [rootAt, found, Option.bind_some, Draft.rootOf, if_pos offers, isRoot, sameRoot]
    rfl
  · rw [indentAt_eq found, sameIndent]

theorem constructAt_of_rootAt {root : LineIndex}
    (rooted : rootAt scope statements place = some root) :
    constructAt statements place = some .option := by
  obtain ⟨statement, found, isRoot⟩ := Option.bind_eq_some_iff.mp rooted
  rw [constructAt_of_found found]
  unfold Draft.rootOf at isRoot
  split at isRoot
  · rename_i offers
    rw [offers]
  · cases isRoot

/-- The choices of a line are those of the options offered under it, in their order. -/
theorem choices_line_draftAfter (read : Draft.empty.stepAll scope statements = .ok final)
    (within : count ≤ statements.length) (id : LineIndex) :
    ((draftAfter scope statements count).graph.line id).choices =
      ((List.range count).filter fun place => rootAt scope statements place = some id).map
        (choiceAt scope statements) := by
  refine draftAfter_induction (motive := fun count =>
    ((draftAfter scope statements count).graph.line id).choices =
      ((List.range count).filter fun place => rootAt scope statements place = some id).map
        (choiceAt scope statements))
    read (Nat.zero_le count) within rfl ?_
  intro place statement _ _ found stepped soFar
  have isRoot : rootAt scope statements place =
      (draftAfter scope statements place).rootOf statement := by
    rw [rootAt, found]
    rfl
  rw [Draft.choices_line_of_step (orderly_draftAfter place) stepped, soFar, ← isRoot,
    List.range_succ, List.filter_append, List.map_append]
  by_cases rooted : rootAt scope statements place = some id
  · simp [rooted, choiceAt]
  · simp [rooted]

theorem choices_line_final (read : Draft.empty.stepAll scope statements = .ok final)
    (id : LineIndex) :
    (final.closeDialogue.graph.line id).choices =
      ((List.range statements.length).filter fun place =>
        rootAt scope statements place = some id).map (choiceAt scope statements) := by
  rw [← choices_line_draftAfter read (Nat.le_refl _), draftAfter_length read]
  exact congrArg Prod.snd (final.attached_closeDialogue id)

/-- A choice keeps the root that its option has given it. -/
theorem root_choice_draftAfter (read : Draft.empty.stepAll scope statements = .ok final)
    (option : constructAt statements place = some .option) (after : place < count)
    (within : count ≤ statements.length) :
    some ((draftAfter scope statements count).graph.choice (choiceAt scope statements place)).root =
      rootAt scope statements place := by
  obtain ⟨statement, found, offers⟩ := Option.map_eq_some_iff.mp option
  have stepped := step_draftAfter read found
  have opened := Draft.size_choices_of_step stepped
  rw [if_pos offers] at opened
  refine draftAfter_induction (motive := fun count =>
    some ((draftAfter scope statements count).graph.choice (choiceAt scope statements place)).root =
      rootAt scope statements place)
    read (Nat.succ_le_of_lt after) within ?_ ?_
  · rw [rootAt, found, Option.bind_some,
      Draft.root_choice_of_offered (nested_draftAfter place) offers stepped]
    rfl
  · intro later other behind before _ steppedLater soFar
    have mono := size_choices_mono read behind (Nat.le_of_lt (Nat.lt_of_lt_of_le before within))
    rw [opened] at mono
    have kept := Draft.root_choice_of_step steppedLater (Nat.lt_of_succ_le mono)
    exact (congrArg some kept).trans soFar

end Reading

end Parley
