import Parley.Proofs.Draft.Attached
import Parley.Proofs.Draft.Bodies

/-!
# Options without a body

An option that is not followed by its body is ended by the next statement or never: the
next statement closes its choice, so no later one can give it a link.  If it is ended, it
leads to a relay that stands aside among the strays, where no branch can be attached
to it, until a spoken line follows it.
-/

namespace Parley

open Parley.Script

namespace Draft

variable {scope : Scope} {draft before after : Draft} {statement : Statement}

/-! ## Standing aside -/

/-- A relay without a branch that is not among the lines to which a branch is attached. -/
structure Aside (relay : LineIndex) (draft : Draft) : Prop where
  known : relay < draft.graph.lines.size
  isRelay : (draft.graph.line relay).isRelay = true
  unbranched : (draft.graph.line relay).branch = none
  notOpen : ∀ node ∈ draft.lines, node.id ≠ relay

namespace Aside

variable {relay : LineIndex}

/-- An edit that opens no line but new ones and attaches no branch to the relay. -/
theorem extend (aside : before.Aside relay) (extended : before.Extends after)
    (branch : (after.graph.line relay).branch = (before.graph.line relay).branch)
    (lines : ∀ node ∈ after.lines, node ∈ before.lines ∨ before.graph.lines.size ≤ node.id) :
    after.Aside relay where
  known := Nat.lt_of_lt_of_le aside.known extended.size
  isRelay := by
    have said := congrArg Line.text (extended.unlinked relay aside.known)
    rw [← aside.isRelay, Line.isRelay, Line.isRelay]
    exact congrArg Option.isNone said
  unbranched := branch.trans aside.unbranched
  notOpen node member := by
    rcases lines node member with old | new
    · exact aside.notOpen node old
    · exact Nat.ne_of_gt (Nat.lt_of_lt_of_le aside.known new)

theorem completeBranch (aside : draft.Aside relay) (branch : OpenNode) (outer : List OpenNode) :
    ({ draft with branches := outer }.completeBranch branch).Aside relay := by
  apply aside.extend (Extends.completeBranch draft branch outer)
  · unfold Draft.completeBranch
    split
    · rfl
    · exact congrArg Line.branch (draft.graph.line_addLine_of_lt Line.relay aside.known)
  · unfold Draft.completeBranch
    split
    · exact fun node member => Or.inl member
    · intro node member
      rcases List.mem_cons.mp member with rfl | old
      · exact Or.inr (Nat.le_refl _)
      · exact Or.inl old

theorem closeDeepBranches (aside : draft.Aside relay) (indent : Nat) :
    (draft.closeDeepBranches indent).Aside relay :=
  draft.closeDeepBranches_induction
    (fun _ branch outer _ held => held.completeBranch branch outer) indent aside

theorem closeBranchAt (aside : draft.Aside relay) (indent : Nat) :
    (draft.closeBranchAt indent).Aside relay :=
  draft.closeBranchAt_induction
    (fun _ branch outer _ held => held.completeBranch branch outer) indent aside

theorem closeDialogue (aside : draft.Aside relay) : draft.closeDialogue.Aside relay :=
  draft.closeDialogue_induction
    (fun _ branch outer _ held => held.completeBranch branch outer) aside

theorem abandonDeepLines (aside : draft.Aside relay) (indent : Nat) :
    (draft.abandonDeepLines indent).Aside relay :=
  aside.extend (Extends.abandonDeepLines draft indent) rfl
    fun _ member => Or.inl ((List.dropWhile_sublist _).mem member)

theorem offer (aside : draft.Aside relay) (choice : Choice) (terminal : Bool) (indent : Nat) :
    (draft.offer choice terminal indent).Aside relay := by
  have listed : ((draft.addChoiceUnder choice).graph.line relay).branch =
      (draft.graph.line relay).branch := by
    rw [addChoiceUnder, Graph.line_modifyLine_eq]
    split <;> rfl
  have size : (draft.addChoiceUnder choice).graph.lines.size = draft.graph.lines.size :=
    Graph.size_lines_modifyLine _ _ _
  have ended : ∀ added : Draft, relay < added.graph.lines.size →
      (added.finishBodiless.graph.line relay).branch = (added.graph.line relay).branch := by
    intro added known
    unfold Draft.finishBodiless
    split
    · split
      · exact congrArg Line.branch (added.graph.line_addLine_of_lt Line.relay known)
      · rfl
    · rfl
  apply aside.extend (Extends.offer draft choice terminal indent)
  · rw [graph_offer]
    exact (ended (draft.addChoiceUnder choice) (size ▸ aside.known)).trans listed
  · intro node member
    rw [lines_offer] at member
    exact Or.inl member

theorem openBranch (aside : draft.Aside relay) (title : String) (conditions : List Call)
    (indent : Nat) : (draft.openBranch title conditions indent).Aside relay := by
  -- A branch is attached to a new line, to a choice or to the innermost open line.
  have attached : ∀ (added : Draft) (branch : BranchIndex), added.Aside relay →
      ((added.attachBranch title branch).graph.line relay).branch =
        (added.graph.line relay).branch := by
    intro added branch held
    have owned : ∀ owner rest, added.lines = owner :: rest →
        ((added.graph.modifyLine owner.id fun line =>
          { line with branch := some branch }).line relay).branch =
            (added.graph.line relay).branch := by
      intro owner rest stack
      have other := held.notOpen owner (stack ▸ List.mem_cons_self)
      rw [Graph.line_modifyLine_eq, if_neg fun both => other both.1]
    unfold attachBranch
    split
    · exact congrArg Line.branch (added.graph.line_addLine_of_lt _ held.known)
    · split <;> rfl
    all_goals
      split
      · rename_i owner rest stack
        exact owned owner rest stack
      · rfl
  let added : Draft := { draft with
    graph := draft.graph.addBranch ⟨[⟨conditions, none⟩]⟩
    branches := ⟨draft.graph.branches.size, indent⟩ :: draft.branches }
  have held : added.Aside relay := ⟨aside.known, aside.isRelay, aside.unbranched, aside.notOpen⟩
  apply aside.extend (Extends.openBranch draft title conditions indent)
  · exact attached added draft.graph.branches.size held
  · intro node member
    have kept : node ∈ (added.attachBranch title draft.graph.branches.size).lines :=
      (List.dropWhile_sublist _).mem member
    rw [lines_attachBranch] at kept
    exact Or.inl kept

theorem extendBranch (aside : draft.Aside relay) (branch : BranchIndex) (conditions : List Call)
    (indent : Nat) : (draft.extendBranch branch conditions indent).Aside relay :=
  aside.extend (Extends.extendBranch draft branch conditions indent) rfl
    fun _ member => Or.inl ((List.dropWhile_sublist _).mem member)

theorem makeRoom (aside : draft.Aside relay) (indent : Nat) :
    (draft.makeRoom indent).Aside relay := by
  apply closeBranchAt
  apply aside.extend (Extends.settleChoice draft indent)
  · unfold settleChoice
    split
    · split
      · split
        · exact congrArg Line.branch (draft.graph.line_addLine_of_lt Line.relay aside.known)
        · rfl
      · rfl
    · rfl
  · intro node member
    unfold settleChoice at member
    split at member
    · split at member
      · split at member <;> exact Or.inl member
      · exact Or.inl member
    · exact Or.inl member

/-- Placing a spoken line links lines but attaches no branch. -/
theorem stepSpeech (aside : (draft.makeRoom statement.indent).Aside relay)
    (read : draft.stepSpeech scope statement = .ok after) : after.Aside relay := by
  obtain ⟨spoken, -, lines⟩ := lines_of_stepSpeech read
  obtain ⟨title, speech, commands, attached, directed, -, -, -, -, attach, direct, rfl⟩ :=
    stepSpeech_eq_ok_iff.mp read
  let room := draft.makeRoom statement.indent
  have places := places_of_attachSpeech rfl attach direct
  have attachBranch := congrArg Prod.fst (attached_attachSpeech attach relay)
  have directBranch := congrArg Prod.fst (attached_directSpeech direct relay)
  have gatherBranch := congrArg Prod.fst
    (directed.attached_gatherStrays room.graph.lines.size statement.indent relay)
  have roomBranch := congrArg Line.branch (room.graph.line_addLine_of_lt
    (Line.spoken speech.speaker speech.text speech.expression commands) aside.known)
  constructor
  · rw [places.size]
    exact Nat.lt_succ_of_lt aside.known
  · have said := congrArg Line.text (places.unlinked relay aside.known)
    rw [← aside.isRelay, Line.isRelay, Line.isRelay]
    exact congrArg Option.isNone said
  · calc
      ((directed.gatherStrays room.graph.lines.size statement.indent).graph.line relay).branch
          = (directed.graph.line relay).branch := gatherBranch
      _ = (attached.graph.line relay).branch := directBranch
      _ = ((room.addLine _).graph.line relay).branch := attachBranch
      _ = (room.graph.line relay).branch := roomBranch
      _ = none := aside.unbranched
  · intro node member
    rw [lines] at member
    rcases List.mem_append.mp member with new | old
    · split at new
      · rw [List.mem_singleton.mp new]
        exact Nat.ne_of_gt aside.known
      · cases new
    · have released := (List.dropWhile_sublist _).mem old
      apply aside.notOpen
      unfold release at released
      dsimp only at released
      split at released
      · exact List.mem_of_mem_drop released
      · exact released

/-- What stands aside stays there. -/
theorem step (aside : before.Aside relay) (read : before.step scope statement = .ok after) :
    after.Aside relay := by
  have closed := aside.closeDeepBranches statement.indent
  unfold Draft.step at read
  split at read
  · obtain ⟨title, -, -, -, rfl⟩ := stepTitle_eq_ok_iff.mp read
    have ended := closed.closeDialogue
    exact ⟨ended.known, ended.isRelay, ended.unbranched, fun _ member => by cases member⟩
  · obtain ⟨option, commands, conditions, root, -, -, -, -, rfl⟩ := stepOption_eq_ok_iff.mp read
    exact (closed.abandonDeepLines _).offer _ _ _
  · obtain ⟨title, source, conditions, -, -, -, -, rfl⟩ := stepIfArm_eq_ok_iff.mp read
    exact closed.openBranch _ _ _
  · obtain ⟨source, branch, conditions, -, -, -, -, rfl⟩ := stepElseArm_eq_ok_iff.mp read
    exact closed.extendBranch _ _ _
  · exact (closed.makeRoom _).stepSpeech read

end Aside

/-! ## What comes after a choice -/

/-- While a choice is what was made last, a spoken line has to be one level deeper. -/
theorem indent_of_checkSpeech {indent : Nat} {choice : OpenNode}
    (last : draft.latestChoice? = some choice) (fits : draft.checkSpeech indent = .ok ()) :
    indent = choice.indent + 1 := by
  unfold latestChoice? at last
  split at last
  · rename_i latest
    rcases stack : draft.choices with _ | ⟨top, outer⟩
    · rw [stack] at last
      cases last
    · rw [stack] at last
      cases last
      by_cases level : choice.indent + 1 = indent
      · exact level.symm
      · simp [checkSpeech, latest, stack, topIndent, level, bind, Except.bind, pure,
          Except.pure, throw, throwThe, MonadExceptOf.throw] at fits
  · cases last

/-- While a choice is what was made last, a branch has to begin one level deeper. -/
theorem indent_of_checkIfArm {indent : Nat} {choice : OpenNode}
    (last : draft.latestChoice? = some choice) (fits : draft.checkIfArm indent = .ok ()) :
    indent = choice.indent + 1 := by
  unfold latestChoice? at last
  split at last
  · rename_i latest
    rcases stack : draft.choices with _ | ⟨top, outer⟩
    · rw [stack] at last
      cases last
    · rw [stack] at last
      cases last
      by_cases level : choice.indent + 1 = indent
      · exact level.symm
      · simp [checkIfArm, latest, stack, topIndent, level, bind, Except.bind, Functor.map,
          Except.map, throw, throwThe, MonadExceptOf.throw] at fits
  · cases last

/-- A spoken line that is deeper than the last choice does not show it to have no body. -/
theorem settleChoice_of_deeper {indent : Nat} {choice : OpenNode}
    (last : draft.latestChoice? = some choice) (deeper : choice.indent < indent) :
    draft.settleChoice indent = draft := by
  unfold latestChoice? at last
  split at last
  · rename_i latest
    rcases stack : draft.choices with _ | ⟨top, outer⟩
    · rw [stack] at last
      cases last
    · rw [stack] at last
      cases last
      simp [settleChoice, latest, stack, Nat.not_le_of_lt deeper]
  · cases last

/-- What begins the body of a choice is one level deeper. -/
theorem indent_of_enteredBy (read : before.step scope statement = .ok after) {choice : OpenNode}
    (entered : before.enteredBy statement = some choice) :
    statement.indent = choice.indent + 1 := by
  unfold enteredBy at entered
  unfold step at read
  split at entered
  · rename_i construct
    simp only [construct] at read
    obtain ⟨title, source, conditions, -, fits, -, -, -⟩ := stepIfArm_eq_ok_iff.mp read
    exact indent_of_checkIfArm entered fits
  · rename_i construct
    simp only [construct] at read
    obtain ⟨title, speech, commands, attached, directed, -, fits, -, -, -, -, -⟩ :=
      stepSpeech_eq_ok_iff.mp read
    have last := latestChoice?_of_makeRoom entered
    have deeper : choice.indent < statement.indent := by
      by_cases shallow : statement.indent ≤ choice.indent
      · have gone := latestChoice?_makeRoom_of_ended last shallow
        have still : ((before.closeDeepBranches statement.indent).makeRoom
            statement.indent).latestChoice? = some choice := entered
        rw [gone] at still
        cases still
      · exact Nat.lt_of_not_le shallow
    rw [settleChoice_of_deeper last deeper] at fits
    exact indent_of_checkSpeech last fits
  all_goals cases entered

/-! ## Ending a choice -/

theorem aside_endChoice (known : ∀ node ∈ draft.lines, node.id < draft.graph.lines.size)
    (choice : OpenNode) : (draft.endChoice choice).Aside draft.graph.lines.size := by
  have relay : (draft.endChoice choice).graph.line draft.graph.lines.size = Line.relay :=
    draft.graph.line_addLine_size Line.relay
  constructor
  · show _ < (draft.graph.addLine Line.relay).lines.size
    rw [Graph.size_lines_addLine]
    exact Nat.lt_succ_self _
  · rw [relay]
    rfl
  · rw [relay]
    rfl
  · exact fun node member => Nat.ne_of_lt (known node member)

theorem finishBodiless_of_latestChoice? {choice : OpenNode}
    (last : draft.latestChoice? = some choice) :
    draft.finishBodiless =
      { draft with choices := draft.choices.drop 1 }.endChoice choice := by
  unfold latestChoice? at last
  split at last
  · rename_i latest
    rcases stack : draft.choices with _ | ⟨top, outer⟩
    · rw [stack] at last
      cases last
    · rw [stack] at last
      cases last
      rw [finishBodiless, if_pos latest, stack]
      rfl
  · cases last

theorem settleChoice_of_latestChoice? {indent : Nat} {choice : OpenNode}
    (last : draft.latestChoice? = some choice) (shallow : indent ≤ choice.indent) :
    draft.settleChoice indent = { draft.endChoice choice with latest := .line } := by
  unfold latestChoice? at last
  split at last
  · rename_i latest
    rcases stack : draft.choices with _ | ⟨top, outer⟩
    · rw [stack] at last
      cases last
    · rw [stack] at last
      cases last
      rw [settleChoice, if_pos latest, stack]
      exact if_pos shallow
  · cases last

/-- An option that ends a choice leaves its relay behind. -/
theorem aside_of_offer (known : ∀ node ∈ draft.lines, node.id < draft.graph.lines.size)
    {choice : OpenNode} (last : draft.latestChoice? = some choice) (offered : Choice)
    (terminal : Bool) (indent : Nat) :
    (draft.offer offered terminal indent).Aside draft.graph.lines.size ∧
      draft.graph.lines.size ∈ (draft.offer offered terminal indent).waiting := by
  let added := draft.addChoiceUnder offered
  have size : added.graph.lines.size = draft.graph.lines.size := Graph.size_lines_modifyLine _ _ _
  have lastAdded : added.latestChoice? = some choice := last
  have settled := finishBodiless_of_latestChoice? lastAdded
  let popped : Draft := { added with choices := added.choices.drop 1 }
  have older : ∀ node ∈ popped.lines, node.id < popped.graph.lines.size :=
    fun node member => Nat.lt_of_lt_of_eq (known node member) size.symm
  have aside : (popped.endChoice choice).Aside draft.graph.lines.size := by
    have held := aside_endChoice older choice
    rwa [show popped.graph.lines.size = draft.graph.lines.size from size] at held
  have strays : (draft.offer offered terminal indent).strays =
      ⟨draft.graph.lines.size, choice.indent + 1⟩ :: draft.strays := by
    rw [← size]
    unfold offer
    split <;> exact congrArg Draft.strays settled
  have graph := draft.graph_offer offered terminal indent
  rw [show (draft.addChoiceUnder offered).finishBodiless = _ from settled] at graph
  constructor
  · constructor
    · rw [graph]
      exact aside.known
    · rw [graph]
      exact aside.isRelay
    · rw [graph]
      exact aside.unbranched
    · rw [lines_offer]
      exact fun node member => Nat.ne_of_lt (known node member)
  · rw [waiting, waitingNodes, strays]
    simp

/-- Where a spoken line ends a choice, the relay of the choice stands aside and the line
follows it. -/
theorem aside_of_makeRoom (known : ∀ node ∈ draft.lines, node.id < draft.graph.lines.size)
    {choice : OpenNode} {indent : Nat} (last : draft.latestChoice? = some choice)
    (shallow : indent ≤ choice.indent) :
    (draft.makeRoom indent).Aside draft.graph.lines.size ∧
      draft.graph.lines.size ∈ (draft.makeRoom indent).predecessors indent := by
  have settled := settleChoice_of_latestChoice? last shallow
  have aside := aside_endChoice known choice
  have settledAside : (draft.settleChoice indent).Aside draft.graph.lines.size := by
    rw [settled]
    exact ⟨aside.known, aside.isRelay, aside.unbranched, aside.notOpen⟩
  have kept : ∀ (closing : Draft) (branch : OpenNode) (outer : List OpenNode),
      ({ closing with branches := outer }.completeBranch branch).strays = closing.strays := by
    intro closing branch outer
    unfold completeBranch
    split <;> rfl
  have strays : (draft.makeRoom indent).strays =
      ⟨draft.graph.lines.size, choice.indent + 1⟩ :: draft.strays := by
    rw [makeRoom, closeBranchAt_keeps Draft.strays kept, settled]
    rfl
  have latest : (draft.makeRoom indent).latest = .line := by
    apply latest_closeBranchAt_of_line
    rw [settled]
  refine ⟨settledAside.closeBranchAt indent, List.mem_append_left _ ?_⟩
  -- The relay is the first stray, and it is deep enough to be taken with the rest.
  rw [followed, if_pos latest, strays, List.takeWhile_cons_of_pos (by simp; omega)]
  simp

end Draft

section Reading

variable {scope : Scope} {statements : List Statement} {final : Draft} {place later : Nat}
  {statement : Statement}

theorem IsLast.latestChoice? (last : IsLast scope statements place) :
    (draftAfter scope statements (place + 1)).latestChoice? =
      some ⟨choiceAt scope statements place, indentAt statements place⟩ := by
  obtain ⟨outer, innermost⟩ := last.innermost
  rw [Draft.latestChoice?, if_pos last.latest, innermost]
  rfl

/-- What is deeper than the option before it begins its body. -/
theorem bodyBegins_of_deeper (read : Draft.empty.stepAll scope statements = .ok final)
    (option : IsOption statements false place) (found : statements[place + 1]? = some statement)
    (stays : statement.construct ≠ .dialogue)
    (deeper : indentAt statements place < statement.indent) :
    BodyBegins statements place := by
  have last := option.isLast read
  have indent := indentAt_eq found
  have construct := constructAt_of_found found
  let draft := draftAfter scope statements (place + 1)
  have shallow : ∀ branch ∈ draft.branches, branch.indent < statement.indent :=
    fun branch member => Nat.lt_of_le_of_lt (last.shallow branch member) deeper
  have closed : draft.closeDeepBranches statement.indent = draft :=
    Draft.closeDeepBranches_of_shallow fun branch member => Nat.le_of_lt (shallow branch member)
  have stepped := step_draftAfter read found
  unfold Draft.step at stepped
  rw [closed] at stepped
  split at stepped
  · rename_i isTitle
    exact absurd isTitle stays
  · -- An option stands as deep as the line that offers it.
    obtain ⟨_, _, _, root, -, -, -, offered, -⟩ := Draft.stepOption_eq_ok_iff.mp stepped
    obtain ⟨line, outer, lines⟩ := last.root
    have kept : (draft.abandonDeepLines statement.indent).lines =
        ⟨line, indentAt statements place⟩ :: outer := by
      show draft.lines.dropWhile _ = _
      rw [lines, List.dropWhile_cons_of_neg]
      simpa using Nat.le_of_lt deeper
    unfold Draft.optionRoot at offered
    rw [kept] at offered
    simp only [Nat.ne_of_lt deeper, if_false] at offered
    split at offered <;> cases offered
  · rename_i arm
    obtain ⟨_, _, _, -, fits, -, -, -⟩ := Draft.stepIfArm_eq_ok_iff.mp stepped
    have level := Draft.indent_of_checkIfArm last.latestChoice? fits
    exact ⟨Or.inr (by rw [construct, arm]), by rw [indent, level]⟩
  · obtain ⟨_, branch, _, -, open', -, -, -⟩ := Draft.stepElseArm_eq_ok_iff.mp stepped
    obtain ⟨outer, stack⟩ := Draft.branchAt_eq_ok_iff.mp open'
    exact absurd (shallow _ (stack ▸ List.mem_cons_self)) (Nat.lt_irrefl _)
  · rename_i speaks
    obtain ⟨_, _, _, _, _, -, fits, -, -, -, -, -⟩ := Draft.stepSpeech_eq_ok_iff.mp stepped
    rw [Draft.settleChoice_of_deeper last.latestChoice? deeper] at fits
    have level := Draft.indent_of_checkSpeech last.latestChoice? fits
    exact ⟨Or.inl (by rw [construct, speaks]), by rw [indent, level]⟩

/-- The statement after an option closes its choice unless it begins its body. -/
theorem closed_of_not_bodyBegins (read : Draft.empty.stepAll scope statements = .ok final)
    (option : IsOption statements false place) (found : statements[place + 1]? = some statement)
    (bodiless : ¬ BodyBegins statements place) :
    ∀ node ∈ (draftAfter scope statements (place + 2)).choices,
      node.id ≠ choiceAt scope statements place := by
  have stepped := step_draftAfter read found
  have nested : (draftAfter scope statements (place + 1)).Nested := nested_draftAfter (place + 1)
  obtain ⟨outer, innermost⟩ := (option.isLast read).innermost
  obtain ⟨opened, kept, choices, fresh, suffix, shallower⟩ :=
    Draft.exists_choices_of_step nested stepped
  intro node member same
  rw [choices] at member
  rcases List.mem_append.mp member with new | old
  · rcases fresh with rfl | ⟨rfl, -⟩
    · cases new
    · rw [List.mem_singleton.mp new, option.size_choices read] at same
      exact Nat.succ_ne_self _ same
  · -- The choice of the option is the innermost one, and no other has its place.
    have nestedChoices := nested.choices
    rw [innermost] at nestedChoices
    have isInnermost : node = ⟨choiceAt scope statements place, indentAt statements place⟩ := by
      have inside := suffix.mem old
      rw [innermost] at inside
      rcases List.mem_cons.mp inside with rfl | around
      · rfl
      · have older := (List.rel_of_pairwise_cons nestedChoices around).1
        exact absurd same (Nat.ne_of_lt older)
    obtain ⟨deeper, stays⟩ := shallower node old
    rw [isInnermost] at deeper
    exact bodiless (bodyBegins_of_deeper read option found stays deeper)

/-- A choice that has been closed stays closed. -/
theorem closed_of_closed (read : Draft.empty.stepAll scope statements = .ok final)
    {id : ChoiceIndex} {start count : Nat} (le : start ≤ count)
    (within : count ≤ statements.length)
    (known : id < (draftAfter scope statements start).graph.choices.size)
    (closed : ∀ node ∈ (draftAfter scope statements start).choices, node.id ≠ id) :
    ∀ node ∈ (draftAfter scope statements count).choices, node.id ≠ id := by
  refine draftAfter_induction (motive := fun count =>
    ∀ node ∈ (draftAfter scope statements count).choices, node.id ≠ id) read le within closed ?_
  intro index statement after before found stepped soFar node member
  obtain ⟨opened, kept, choices, fresh, suffix, -⟩ :=
    Draft.exists_choices_of_step (nested_draftAfter index) stepped
  rw [choices] at member
  rcases List.mem_append.mp member with new | old
  · rcases fresh with rfl | ⟨rfl, -⟩
    · cases new
    · rw [List.mem_singleton.mp new]
      have mono := size_choices_mono read after
        (Nat.le_of_lt (List.getElem?_eq_some_iff.mp found).1)
      exact Nat.ne_of_gt (Nat.lt_of_lt_of_le known mono)
  · exact soFar node (suffix.mem old)

/-- A choice that has been closed gets no link any more. -/
theorem untouched_of_closed (closed : ∀ node ∈ (draftAfter scope statements later).choices,
      node.id ≠ choiceAt scope statements place) :
    ¬ (Ends scope statements place later ∨ Enters scope statements place later) := by
  have notLast : ∀ choice, (draftAfter scope statements later).latestChoice? = some choice →
      choice.id ≠ choiceAt scope statements place := by
    intro choice last
    unfold Draft.latestChoice? at last
    split at last
    · exact closed choice (List.mem_of_head? last)
    · cases last
  rintro (⟨statement, _, ended⟩ | ⟨statement, _, entered⟩)
  · obtain ⟨choice, ends, same⟩ := Option.map_eq_some_iff.mp ended
    exact notLast choice (Draft.latestChoice?_of_endedBy ends) same
  · obtain ⟨choice, enters, same⟩ := Option.map_eq_some_iff.mp entered
    exact notLast choice (Draft.latestChoice?_of_enteredBy enters) same

/-- The statement after an option begins its body if it enters it at all. -/
theorem bodyBegins_of_enters (read : Draft.empty.stepAll scope statements = .ok final)
    (option : IsOption statements false place)
    (enters : Enters scope statements place (place + 1)) : BodyBegins statements place := by
  obtain ⟨statement, found, entered⟩ := enters
  obtain ⟨choice, enters, -⟩ := Option.map_eq_some_iff.mp entered
  have last := Draft.latestChoice?_of_enteredBy enters
  rw [(option.isLast read).latestChoice?] at last
  cases last
  have level := Draft.indent_of_enteredBy (step_draftAfter read found) enters
  have stays : statement.construct ≠ .dialogue := by
    intro title
    rw [Draft.enteredBy, title] at enters
    cases enters
  apply bodyBegins_of_deeper read option found stays
  rw [level]
  exact Nat.lt_succ_self _

/-- An option that the next statement ends leads to a relay that stands aside.  If the next
statement is spoken it follows the relay at once, else the relay waits. -/
theorem aside_of_ends (read : Draft.empty.stepAll scope statements = .ok final)
    (ends : Ends scope statements place later) :
    let relay := (draftAfter scope statements later).graph.lines.size
    (draftAfter scope statements (later + 1)).Aside relay ∧
      (constructAt statements later = some .option ∧
          relay ∈ (draftAfter scope statements (later + 1)).waiting ∨
        constructAt statements later = some .speech ∧ Follows scope statements relay later ∧
          Course scope statements relay later (later + 1)) := by
  intro relay
  obtain ⟨statement, found, ended⟩ := ends
  obtain ⟨choice, ends, -⟩ := Option.map_eq_some_iff.mp ended
  have construct := constructAt_of_found found
  have stepped := step_draftAfter read found
  have orderly : (draftAfter scope statements later).Orderly := orderly_draftAfter later
  let draft := draftAfter scope statements later
  -- A choice that is ended is the last thing made, so no branch has been closed with a relay.
  have unchanged : ∀ last, (draft.closeDeepBranches statement.indent).latestChoice? = some last →
      (draft.closeDeepBranches statement.indent).graph = draft.graph ∧
        (draft.closeDeepBranches statement.indent).lines = draft.lines := by
    intro last isLast
    rw [(Draft.closeDeepBranches_of_latestChoice? isLast).2]
    exact ⟨rfl, rfl⟩
  have known : ∀ node ∈ draft.lines, node.id < draft.graph.lines.size := by
    intro node member
    apply orderly.known
    exact List.mem_map_of_mem (List.mem_append_left _ member)
  unfold Draft.endedBy at ends
  dsimp only at ends
  split at ends
  · rename_i isOption
    obtain ⟨graph, lines⟩ := unchanged choice ends
    unfold Draft.step at stepped
    simp only [isOption] at stepped
    obtain ⟨option, commands, conditions, root, -, -, -, -, after⟩ :=
      Draft.stepOption_eq_ok_iff.mp stepped
    let left := (draft.closeDeepBranches statement.indent).abandonDeepLines statement.indent
    have knownLeft : ∀ node ∈ left.lines, node.id < left.graph.lines.size := by
      intro node member
      have inside : node ∈ (draft.closeDeepBranches statement.indent).lines :=
        (List.dropWhile_sublist _).mem member
      rw [lines] at inside
      show node.id < (draft.closeDeepBranches statement.indent).graph.lines.size
      rw [graph]
      exact known node inside
    have offered := Draft.aside_of_offer knownLeft ends
      (Choice.fresh option.text conditions commands root) option.terminal statement.indent
    have size : left.graph.lines.size = relay := congrArg (fun graph => graph.lines.size) graph
    rw [size] at offered
    rw [after, construct, isOption]
    exact ⟨offered.1, Or.inl ⟨rfl, offered.2⟩⟩
  · rename_i spoken
    obtain ⟨isLast, shallow⟩ := Option.filter_eq_some_iff.mp ends
    obtain ⟨graph, lines⟩ := unchanged choice isLast
    have knownClosed : ∀ node ∈ (draft.closeDeepBranches statement.indent).lines,
        node.id < (draft.closeDeepBranches statement.indent).graph.lines.size := by
      rw [graph, lines]
      exact known
    obtain ⟨aside, taken⟩ := Draft.aside_of_makeRoom knownClosed isLast (by simpa using shallow)
    rw [graph] at aside taken
    have follows : Follows scope statements relay later := by
      rw [follows_iff_mem_taken found, Draft.taken, if_pos spoken]
      exact taken
    have course := Course.of_room read found spoken (Draft.mem_waiting_of_predecessor taken)
    unfold Draft.step at stepped
    simp only [spoken] at stepped
    rw [construct, spoken]
    exact ⟨aside.stepSpeech stepped, Or.inr ⟨rfl, follows, course⟩⟩
  all_goals cases ends

/-- In the end an option without a body leads where the next statement made it lead, and to no
branch. -/
theorem links_of_not_bodyBegins (read : Draft.empty.stepAll scope statements = .ok final)
    (option : IsOption statements false place) (found : statements[place + 1]? = some statement)
    (bodiless : ¬ BodyBegins statements place) :
    let choice := final.closeDialogue.graph.choice (choiceAt scope statements place)
    choice.branch = none ∧
      (Ends scope statements place (place + 1) →
        choice.next = some (draftAfter scope statements (place + 1)).graph.lines.size) ∧
      (¬ Ends scope statements place (place + 1) → choice.next = none) := by
  intro choice
  have within : place + 2 ≤ statements.length := (List.getElem?_eq_some_iff.mp found).1
  have fresh := (option.isLast read).fresh
  have known : choiceAt scope statements place <
      (draftAfter scope statements (place + 1)).graph.choices.size := by
    rw [option.size_choices read]
    exact Nat.lt_succ_self _
  have knownThen := Nat.lt_of_lt_of_le known (size_choices_mono read (Nat.le_succ _) within)
  have notEnters : ¬ Enters scope statements place (place + 1) :=
    fun enters => bodiless (bodyBegins_of_enters read option enters)
  have later : ∀ count, place + 2 ≤ count →
      nextGivenAt scope statements (choiceAt scope statements place) count = none ∧
        branchGivenAt scope statements (choiceAt scope statements place) count = none := by
    intro count after
    rcases Nat.lt_or_ge count statements.length with inside | outside
    · apply givenAt_eq_none_iff.mpr
      apply untouched_of_closed
      exact closed_of_closed read after (Nat.le_of_lt inside) knownThen
        (closed_of_not_bodyBegins read option found bodiless)
    · exact ⟨nextGivenAt_of_length_le outside, branchGivenAt_of_length_le outside⟩
  obtain ⟨next, branch⟩ := links_draftAfter_succ read known (Nat.le_refl _) within
  rw [fresh.1, Option.or_none] at next
  rw [fresh.2, Option.or_none] at branch
  have noBranch : branchGivenAt scope statements (choiceAt scope statements place) (place + 1) =
      none := branchGivenAt_eq_none_iff.mpr fun both => notEnters both.2
  refine ⟨?_, ?_, ?_⟩
  · apply (branch_choice_eq_iff read knownThen within (fun _ impossible => by cases impossible)).mpr
    exact ⟨branch.trans noBranch, fun count after => (later count after).2⟩
  · intro ends
    have old := (aside_of_ends read ends).1.known
    apply (next_choice_eq_iff read knownThen within (fun _ relay => by cases relay; exact old)).mpr
    exact ⟨next.trans (nextGivenAt_of_ends ends), fun count after => (later count after).1⟩
  · intro notEnds
    have silent := givenAt_eq_none_iff.mpr (not_or.mpr ⟨notEnds, notEnters⟩)
    apply (next_choice_eq_iff read knownThen within (fun _ impossible => by cases impossible)).mpr
    exact ⟨next.trans silent.1, fun count after => (later count after).1⟩

/-- The statement after an option without a body ends it exactly if it is an option or a spoken
line and closes no branch that lacks an arm without conditions. -/
theorem ends_iff (read : Draft.empty.stepAll scope statements = .ok final)
    (option : IsOption statements false place) (found : statements[place + 1]? = some statement)
    (bodiless : ¬ BodyBegins statements place) :
    Ends scope statements place (place + 1) ↔
      (statement.construct = .option ∨ statement.construct = .speech) ∧
        (draftAfter scope statements (place + 1)).CompleteBelow statement.indent := by
  let draft := draftAfter scope statements (place + 1)
  have isLast := option.isLast read
  constructor
  · rintro ⟨other, foundOther, ended⟩
    rw [found] at foundOther
    cases foundOther
    obtain ⟨choice, ends, -⟩ := Option.map_eq_some_iff.mp ended
    have complete : ∀ last, (draft.closeDeepBranches statement.indent).latestChoice? = some last →
        draft.CompleteBelow statement.indent := by
      intro last lastThen
      unfold Draft.latestChoice? at lastThen
      split at lastThen
      · rename_i latest
        exact (Draft.latest_closeDeepBranches_eq_choice_iff.mp latest).2
      · cases lastThen
    unfold Draft.endedBy at ends
    dsimp only at ends
    split at ends
    · rename_i isOption
      exact ⟨Or.inl isOption, complete choice ends⟩
    · rename_i spoken
      exact ⟨Or.inr spoken, complete choice (Option.filter_eq_some_iff.mp ends).1⟩
    all_goals cases ends
  · rintro ⟨construct, complete⟩
    have last : (draft.closeDeepBranches statement.indent).latestChoice? =
        some ⟨choiceAt scope statements place, indentAt statements place⟩ := by
      rw [Draft.closeDeepBranches_of_completeBelow complete]
      exact isLast.latestChoice?
    refine ⟨statement, found, ?_⟩
    rcases construct with isOption | spoken
    · simp only [Draft.endedBy, isOption]
      exact congrArg (Option.map OpenNode.id) last
    · have shallow : statement.indent ≤ indentAt statements place := by
        by_cases deeper : indentAt statements place < statement.indent
        · exact absurd (bodyBegins_of_deeper read option found (by simp [spoken]) deeper) bodiless
        · exact Nat.le_of_not_lt deeper
      simp only [Draft.endedBy, spoken]
      rw [show (draftAfter scope statements (place + 1)).closeDeepBranches statement.indent =
        draft.closeDeepBranches statement.indent from rfl, last]
      simp [Option.filter, shallow]

/-- What stands aside does so to the end. -/
theorem aside_closeDialogue_final (read : Draft.empty.stepAll scope statements = .ok final)
    {relay : LineIndex} {start : Nat} (within : start ≤ statements.length)
    (aside : (draftAfter scope statements start).Aside relay) :
    final.closeDialogue.Aside relay := by
  apply Draft.Aside.closeDialogue
  rw [← draftAfter_length read]
  refine draftAfter_induction (motive := fun count =>
    (draftAfter scope statements count).Aside relay) read within (Nat.le_refl _) aside ?_
  exact fun _ _ _ _ _ stepped held => held.step stepped

/-- In the end the relay of an option leads to the spoken line that follows it. -/
theorem next_relay_eq_iff (read : Draft.empty.stepAll scope statements = .ok final) {target : Nat}
    (ends : Ends scope statements place later) (behind : later ≤ target)
    (spoken : constructAt statements target = some .speech) :
    let relay := (draftAfter scope statements later).graph.lines.size
    (final.closeDialogue.graph.line relay).next = some (lineAt scope statements target) ↔
      Follows scope statements relay target := by
  intro relay
  have within : later + 1 ≤ statements.length := by
    obtain ⟨_, found, _⟩ := ends
    exact (List.getElem?_eq_some_iff.mp found).1
  have same : ∀ other, Follows scope statements relay other →
      lineAt scope statements other = lineAt scope statements target → other = target := by
    rintro other ⟨statement, found, taken⟩ sameLine
    have speaks := constructAt_of_found found
    rw [Draft.construct_of_taken taken] at speaks
    exact lineAt_injective read speaks spoken sameLine
  rcases (aside_of_ends read ends).2 with ⟨isOption, waits⟩ | ⟨_, _, course⟩
  · have apart : later ≠ target := by
      rintro rfl
      rw [isOption] at spoken
      cases spoken
    rw [(Course.of_waiting waits).next_eq_some_iff read (Nat.le_refl _) within]
    constructor
    · rintro ⟨other, _, follows, sameLine⟩
      exact same other follows sameLine ▸ follows
    · exact fun follows => ⟨target, Nat.lt_of_le_of_ne behind apart, follows, rfl⟩
  · rw [course.next_eq_some_iff read (Nat.le_succ later) within]
    constructor
    · rintro ⟨other, _, follows, sameLine⟩
      exact same other follows sameLine ▸ follows
    · exact fun follows => ⟨target, behind, follows, rfl⟩

end Reading

end Parley
