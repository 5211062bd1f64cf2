import Parley.Proofs.Draft.Blocks

/-!
# Reading a properly nested block

At every place of a properly nested block the statement that comes next can be read, unless it
is a line that is not near enough to what an option before it has left open.  So whether a
whole block can be read is decided by its lines that follow options.
-/

namespace Parley.Draft

open Parley.Script
open Parley.Text

variable {scope : Scope} {level number : Nat} {base draft after : Draft} {content : Chars}
  {inArm : Bool} {place : Place}

/-! ## Where a spoken line may stand -/

theorem latest_settleChoice (settled : Settled level draft) :
    (draft.settleChoice level).latest = .line := by
  unfold settleChoice
  rcases settled with line | ⟨choice, top, outer, stack, deep⟩
  · rw [if_neg (by simp [line])]
    exact line
  · rw [if_pos choice]
    simp only [stack, if_pos deep]

/-- After a line or an ended option, a spoken line stands at the level of the innermost open line
or near an open node. -/
theorem checkSpeech_settleChoice_iff (settled : Settled level draft) {top : OpenNode}
    {outer : List OpenNode} (stack : draft.lines = top :: outer) :
    (draft.settleChoice level).checkSpeech level = .ok () ↔
      top.indent = level ∨ draft.isNearOpenNode level = true := by
  have near : (draft.settleChoice level).isNearOpenNode level = draft.isNearOpenNode level := by
    rw [isNearOpenNode, isNearOpenNode, branches_settleChoice, choices_settleChoice]
  have expected : topIndent (draft.settleChoice level).lines .lineIndent = .ok top.indent := by
    rw [lines_settleChoice, stack]
    rfl
  unfold checkSpeech
  rw [latest_settleChoice settled]
  simp only [near, expected]
  show (if (top.indent == level || draft.isNearOpenNode level) = true then
    Except.ok () else Except.error _) = Except.ok () ↔ _
  by_cases fits : (top.indent == level || draft.isNearOpenNode level) = true
  · rw [if_pos fits]
    simpa using fits
  · rw [if_neg fits]
    simpa using fits

theorem isNear_of_topAt {indent : Nat} {stack : List OpenNode} (top : TopAt indent stack)
    (low : indent ≤ level + 1) (high : level ≤ indent + 1) : isNear stack level = true := by
  obtain ⟨id, outer, rfl⟩ := top
  simp [isNear, low, high]

theorem topAt_branches_of_hasBranch {complete : Bool} (has : HasBranch level base draft complete) :
    TopAt level draft.branches := by
  obtain ⟨id, stack, -⟩ := has
  exact ⟨id, base.branches, stack⟩

theorem isNearOpenNode_of_branch {indent : Nat} (top : TopAt indent draft.branches)
    (low : indent ≤ level + 1) (high : level ≤ indent + 1) :
    draft.isNearOpenNode level = true := by
  rw [isNearOpenNode, isNear_of_topAt top low high, Bool.true_or]

/-- The branch of an arm is near the lines of the arm. -/
theorem Opened.isNearOpenNode (opened : Opened true level base)
    (branches : draft.branches = base.branches) : draft.isNearOpenNode level = true := by
  cases opened.starts with
  | arm _ branch =>
      exact isNearOpenNode_of_branch (branches ▸ branch) (by omega) (by omega)

/-- The first line of a block stands where the block begins. -/
theorem Opened.checkSpeech (opened : Opened inArm level base) :
    base.settleChoice level = base ∧ base.checkSpeech level = .ok () := by
  cases opened.starts with
  | dialogue latest =>
      constructor
      · rw [settleChoice, if_neg (by simp [latest])]
      · simp only [Draft.checkSpeech, latest]
        rfl
  | body latest option =>
      obtain ⟨id, outer, stack⟩ := option
      constructor
      · rw [settleChoice, if_pos latest, stack]
        exact if_neg (Nat.not_succ_le_self _)
      · simp only [Draft.checkSpeech, latest, stack, topIndent]
        simp [bind, Except.bind, pure, Except.pure]
  | arm latest branch =>
      obtain ⟨id, outer, stack⟩ := branch
      constructor
      · rw [settleChoice, if_neg (by simp [latest])]
      · simp only [Draft.checkSpeech, latest, stack, topIndent]
        simp [bind, Except.bind, pure, Except.pure]

/-- Behind an option that is left open, the lines of a block are near it or the block is an arm. -/
theorem near_iff_of_option {overhang : Nat} {unended : Bool} (opened : Opened inArm level base)
    (stands : Stands level base draft (.option overhang unended)) :
    (draft.settleChoice level).checkSpeech level = .ok () ↔ inArm = true ∨ overhang ≤ 2 := by
  cases stands with | option branches rests root bare deeper
  obtain ⟨top, outer, stack, deep⟩ := topFrom_of_below root
  rw [checkSpeech_settleChoice_iff rests.settled stack]
  cases inArm with
  | true => simp [opened.isNearOpenNode branches]
  | false =>
      have choices := rests.choices
      have farBranch : isNear draft.branches level = false := by
        rw [branches]
        rcases found : base.branches with _ | ⟨branch, rest⟩
        · rfl
        · have apart := opened.apart rfl branch (found ▸ List.mem_cons_self)
          simp [isNear, show ¬level ≤ branch.indent + 1 by omega]
      rcases overhang with _ | _ | _ | overhang
      · obtain ⟨id, rest, only⟩ := bare rfl
        rw [stack] at only
        cases only
        simp
      · have open' : TopAt level draft.choices := choices
        have near : isNear draft.choices level = true :=
          isNear_of_topAt open' (Nat.le_succ level) (Nat.le_succ level)
        simp [Draft.isNearOpenNode, near]
      · have open' : TopAt (level + 1) draft.choices := choices
        have near : isNear draft.choices level = true :=
          isNear_of_topAt open' (Nat.le_refl _) (by omega)
        simp [Draft.isNearOpenNode, near]
      · -- The open line and the open option are both too deep.
        obtain ⟨line, rest, lines, above⟩ := deeper (by omega)
        rw [stack] at lines
        cases lines
        obtain ⟨id, outer, options⟩ := choices
        have farChoice : isNear draft.choices level = false := by
          rw [options]
          simp [isNear, show ¬level + (overhang + 2) ≤ level + 1 by omega]
        simp [Draft.isNearOpenNode, farBranch, farChoice, Nat.ne_of_gt above]

/-- At every place of a block, a line may stand there if it is near enough. -/
theorem Stands.near_iff (stands : Stands level base draft place) (opened : Opened inArm level base)
    (goesOn : place ≠ .marked ∧ place ≠ .spent) (marks : Nat) :
    (draft.settleChoice level).checkSpeech level = .ok () ↔
      place.Near inArm (.speech marks) := by
  obtain ⟨notMarked, notSpent⟩ := goesOn
  cases place with
  | opening =>
      cases stands with | opening same
      subst same
      obtain ⟨settled, fits⟩ := opened.checkSpeech
      simp [Place.Near, settled, fits]
  | line =>
      cases stands with | line _ latest _ top
      obtain ⟨id, outer, stack⟩ := top
      rw [checkSpeech_settleChoice_iff (Or.inl latest) stack]
      simp [Place.Near]
  | marked => exact absurd rfl notMarked
  | option overhang unended =>
      rw [near_iff_of_option opened stands]
      simp [Place.Near]
  | arm lone =>
      cases stands with | arm has settled _ waits
      obtain ⟨top, outer, stack⟩ := List.exists_cons_of_ne_nil waits
      have near : draft.isNearOpenNode level = true :=
        isNearOpenNode_of_branch (topAt_branches_of_hasBranch has) (Nat.le_succ level)
          (Nat.le_succ level)
      rw [checkSpeech_settleChoice_iff settled stack]
      simp [Place.Near, near]
  | otherwise overhang unended =>
      cases stands with | otherwise has rests top
      obtain ⟨top, outer, stack, -⟩ := top
      have near : draft.isNearOpenNode level = true :=
        isNearOpenNode_of_branch (topAt_branches_of_hasBranch has) (Nat.le_succ level)
          (Nat.le_succ level)
      rw [checkSpeech_settleChoice_iff rests.settled stack]
      simp [Place.Near, near]
  | spent => exact absurd rfl notSpent

/-! ## Spoken lines -/

theorem exists_attachSpeech (title : String) (id : LineIndex) (indent : Nat)
    (waits : draft.latest = .line → draft.lines ≠ []) :
    ∃ attached, draft.attachSpeech title id indent = .ok attached := by
  unfold attachSpeech
  split
  · exact ⟨_, rfl⟩
  · exact ⟨_, rfl⟩
  · rename_i latest
    split
    · rename_i stack
      exact absurd stack (waits latest)
    · exact ⟨_, rfl⟩
  all_goals split <;> exact ⟨_, rfl⟩

theorem exists_directSpeech (id : LineIndex) (indent : Nat) {depth : Nat}
    (enough : depth ≤ draft.choices.length) :
    ∃ directed, draft.directSpeech id indent depth = .ok directed := by
  unfold directSpeech
  split
  · exact ⟨_, rfl⟩
  · rename_i marked
    have target : ∃ target, draft.markedRoot depth = .ok target := by
      unfold markedRoot
      split
      · exact ⟨_, rfl⟩
      · rename_i none
        have length := congrArg List.length none
        simp only [List.length_drop, List.length_nil] at length
        omega
    obtain ⟨target, found⟩ := target
    rw [found]
    exact ⟨_, rfl⟩

/-- Making room for a spoken line adds at most the relay of a completed branch to the open
lines. -/
theorem lines_closeBranchAt (draft : Draft) (level : Nat) :
    (draft.closeBranchAt level).lines = draft.lines ∨
      TopFrom level (draft.closeBranchAt level).lines ∧
        (draft.closeBranchAt level).lines.drop 1 = draft.lines := by
  unfold closeBranchAt
  split
  · rename_i branch outer stack
    split
    · rename_i same
      unfold completeBranch
      split
      · exact Or.inl rfl
      · right
        exact ⟨⟨_, draft.lines, rfl, same ▸ Nat.le_succ branch.indent⟩, rfl⟩
    · exact Or.inl rfl
  · exact Or.inl rfl

/-- The title of the dialogue is known in all of its blocks. -/
theorem Keeps.currentTitle (keeps : Keeps level base draft) (opened : Opened inArm level base) :
    ∃ title, (draft.closeDeepBranches level).currentTitle = .ok title := by
  obtain ⟨title, current⟩ := Option.isSome_iff_exists.mp opened.titled
  have kept := (draft.titles_closeDeepBranches level).trans keeps.titles
  have titled : (draft.closeDeepBranches level).title = some title :=
    (congrArg Prod.fst kept).trans current
  exact ⟨title, by rw [Draft.currentTitle, titled]⟩

/-- What a spoken line needs in order to be read at a level. -/
theorem exists_step_speech {marks : Nat} {title : String}
    (currentTitle : (draft.closeDeepBranches level).currentTitle = .ok title)
    (fits : ((draft.closeDeepBranches level).settleChoice level).checkSpeech level = .ok ())
    (waits : ((draft.closeDeepBranches level).makeRoom level).latest = .line →
      ((draft.closeDeepBranches level).makeRoom level).lines ≠ [])
    (enough : marks ≤ (below level draft.choices).length)
    (reads : (Header.speech marks).Reads scope content) :
    ∃ after, draft.step scope ⟨number, level, content, .speech⟩ = .ok after := by
  obtain ⟨speech, readSpeech, rfl, commands, readCommands⟩ := reads
  let closed := draft.closeDeepBranches level
  let line := Line.spoken speech.speaker speech.text speech.expression commands
  let room := closed.makeRoom level
  obtain ⟨attached, attach⟩ := (room.addLine line).exists_attachSpeech title
    room.graph.lines.size level waits
  obtain ⟨-, choices, -, -⟩ := stacks_attachSpeech attach
  have dedented : (attached.dedent level).choices = below level draft.choices := by
    calc
      below level attached.choices = below level room.choices := congrArg (below level) choices
      _ = below level (closed.settleChoice level).choices :=
        (closed.settleChoice level).dropWhile_choices_closeBranchAt level
      _ = below level closed.choices := by rw [choices_settleChoice]
      _ = below level draft.choices := draft.below_choices_closeDeepBranches level
  obtain ⟨directed, direct⟩ := (attached.dedent level).exists_directSpeech
    room.graph.lines.size level (dedented ▸ enough)
  exact ⟨_, stepSpeech_eq_ok_iff.mpr ⟨title, speech, commands, attached, directed, currentTitle,
    fits, readSpeech, readCommands, attach, direct, rfl⟩⟩

/-- Where a block is not closed by its marks, a line of its own is open once room is made for the
next one. -/
theorem Stands.topFrom_makeRoom (stands : Stands level base draft place)
    (begun : place ≠ .opening) (goesOn : place ≠ .marked ∧ place ≠ .spent) :
    TopFrom level (draft.makeRoom level).lines := by
  have added : TopFrom level draft.lines → TopFrom level (draft.makeRoom level).lines := by
    intro top
    rcases (draft.settleChoice level).lines_closeBranchAt level with same | ⟨relay, -⟩
    · rw [makeRoom, same, lines_settleChoice]
      exact top
    · exact relay
  cases stands with
  | opening => exact absurd rfl begun
  | line _ _ _ top => exact added (top.topFrom (Nat.le_refl level))
  | marked => exact absurd rfl goesOn.1
  | option _ _ root => exact added (topFrom_of_below root)
  | arm branch =>
      obtain ⟨id, stack, incomplete⟩ := branch
      have settledStack := (draft.branches_settleChoice level).trans stack
      have settledIncomplete :
          ((draft.settleChoice level).graph.branch id).isExhaustive = false := by
        rw [Graph.branch_congr (draft.graphBranches_settleChoice level)]
        exact incomplete
      rw [makeRoom, closeBranchAt_of_incomplete settledStack settledIncomplete]
      exact ⟨_, _, rfl, Nat.le_succ level⟩
  | otherwise _ _ top => exact added top
  | spent => exact absurd rfl goesOn.2

theorem below_lines_makeRoom (draft : Draft) (level : Nat) :
    below level (draft.makeRoom level).lines = below level draft.lines := by
  rw [makeRoom, ← draft.lines_settleChoice level]
  rcases (draft.settleChoice level).lines_closeBranchAt level with same | ⟨relay, rest⟩
  · rw [same]
  · rw [← relay.below_drop, rest]

/-- A line that follows the one on top of the open lines leaves those of the outer blocks open. -/
theorem Stands.release (stands : Stands level base draft place) (opened : Opened inArm level base)
    (goesOn : place ≠ .marked ∧ place ≠ .spent) (frame : below level draft.lines = base.lines) :
    ((draft.makeRoom level).latest = .line → (draft.makeRoom level).lines ≠ []) ∧
      below level ((draft.makeRoom level).release level).lines = base.lines := by
  by_cases begins : place = .opening
  · subst begins
    cases stands with | opening same
    subst same
    have room : draft.makeRoom level = draft := by
      rw [makeRoom, opened.checkSpeech.1, closeBranchAt_of_shallow opened.keeps.shallow]
    have notLine : draft.latest ≠ .line := by
      cases opened.starts <;> simp [*]
    rw [room]
    refine ⟨fun line => absurd line notLine, ?_⟩
    simp only [Draft.release, if_neg notLine]
    exact frame
  · have top := stands.topFrom_makeRoom begins goesOn
    refine ⟨fun _ => top.ne_nil, ?_⟩
    have room := (below_lines_makeRoom draft level).trans frame
    rw [← room]
    simp only [Draft.release]
    split
    · exact top.below_drop
    · rfl

theorem Stands.branches_closeBranchAt (stands : Stands level base draft place)
    (opened : Opened inArm level base) : (draft.closeBranchAt level).branches = base.branches := by
  by_cases begins : place = .opening
  · subst begins
    cases stands with | opening same
    subst same
    rw [closeBranchAt_of_shallow opened.keeps.shallow]
  · exact (stands.ended begins opened.keeps.shallow).branches

/-- At every place where a block goes on, a line can be read if it is near enough. -/
theorem Reached.exists_step_speech_iff {marks : Nat}
    (reached : Reached inArm level base draft place)
    (goesOn : place ≠ .marked ∧ place ≠ .spent) (enough : marks ≤ base.choices.length)
    (reads : (Header.speech marks).Reads scope content) :
    (∃ after, draft.step scope ⟨number, level, content, .speech⟩ = .ok after) ↔
      place.Near inArm (.speech marks) := by
  obtain ⟨opened, keeps, stands⟩ := reached
  rw [← stands.near_iff opened goesOn marks]
  constructor
  · rintro ⟨after, read⟩
    obtain ⟨title, speech, commands, attached, directed, -, fits, -⟩ :=
      stepSpeech_eq_ok_iff.mp read
    exact fits
  · intro fits
    obtain ⟨waits, -⟩ := stands.release opened goesOn keeps.lines_closed
    obtain ⟨title, current⟩ := keeps.currentTitle opened
    exact exists_step_speech current fits waits (keeps.choices ▸ enough) reads

/-- A line that is read leaves only itself open. -/
theorem Reached.step_speech {marks : Nat} (reached : Reached inArm level base draft place)
    (goesOn : place ≠ .marked ∧ place ≠ .spent) (enough : marks ≤ base.choices.length)
    (reads : (Header.speech marks).Reads scope content)
    (read : draft.step scope ⟨number, level, content, .speech⟩ = .ok after) :
    Reached inArm level base after (place.after (.speech marks) .opening) := by
  obtain ⟨opened, keeps, stands⟩ := reached
  obtain ⟨speech, readSpeech, depth, -⟩ := reads
  obtain ⟨branches, choices, latest⟩ := stacks_of_stepSpeech read
  obtain ⟨speech', readSpeech', lines⟩ := lines_of_stepSpeech read
  rw [readSpeech] at readSpeech'
  cases readSpeech'
  obtain ⟨-, rest⟩ := stands.release opened goesOn keeps.lines_closed
  replace branches := branches.trans (stands.branches_closeBranchAt opened)
  replace choices : after.choices = base.choices := by
    rw [choices, ← keeps.choices]
    exact draft.below_choices_closeDeepBranches level
  have frame : below level after.lines = base.lines := by
    rw [lines, ← rest]
    dsimp only
    split
    · rw [List.singleton_append, below_cons_of_le (Nat.le_refl level)]
      exact below_below (Nat.le_succ level) _
    · exact below_below (Nat.le_succ level) _
  have closed : after.closeDeepBranches level = after :=
    closeDeepBranches_of_shallow fun branch member =>
      Nat.le_of_lt (opened.keeps.shallow branch (branches ▸ member))
  refine ⟨opened, keeps.step read rfl (by simp) (choices ▸ opened.keeps.choices) frame, ?_⟩
  rw [closed, Place.after, ← depth]
  split
  · rename_i unmarked
    rw [if_pos unmarked] at lines
    exact .line branches latest choices ⟨_, _, lines⟩
  · rename_i marked
    refine .marked branches latest choices ?_
    intro none
    rw [none, ← depth] at enough
    exact marked (Nat.le_zero.mp enough)

/-! ## Options -/

/-- An option has been offered at a level, and its body may follow. -/
structure Offered (level : Nat) (base draft : Draft) : Prop where
  keeps : Keeps level base draft
  opened : Opened false (level + 1) draft
  branches : draft.branches = base.branches
  latest : draft.latest = .choice
  choices : ∃ id, draft.choices = ⟨id, level⟩ :: base.choices
  root : TopAt level draft.lines

/-- Options stand behind a line or behind each other: no branch of the block is open there, and
the line under which they are offered is still open. -/
theorem Stands.rooted (stands : Stands level base draft place)
    (follows : place = .line ∨ ∃ overhang unended, place = .option overhang unended) :
    draft.branches = base.branches ∧ Rests level base draft place.overhang place.unended ∧
      TopAt level (below (level + 1) draft.lines) := by
  rcases follows with rfl | ⟨overhang, unended, rfl⟩
  · cases stands with | line branches latest choices top
    obtain ⟨id, outer, stack⟩ := top
    refine ⟨branches, ⟨Or.inl latest, choices⟩, id, outer, ?_⟩
    rw [stack, below_cons_of_lt (Nat.lt_succ_self level)]
  · cases stands with | option branches rests root
    exact ⟨branches, rests, root⟩

/-- Where an option may stand, it can be read. -/
theorem Reached.exists_step_option {terminal : Bool}
    (reached : Reached inArm level base draft place)
    (follows : place = .line ∨ ∃ overhang unended, place = .option overhang unended)
    (reads : (Header.option terminal).Reads scope content) :
    ∃ after, draft.step scope ⟨number, level, content, .option⟩ = .ok after := by
  obtain ⟨option, readOption, -, ⟨commands, readCommands⟩, conditions, readConditions⟩ := reads
  obtain ⟨-, rests, id, outer, root⟩ := reached.stands.rooted follows
  have latest : (draft.closeDeepBranches level).latest = .line ∨
      (draft.closeDeepBranches level).latest = .choice := rests.settled.imp_right And.left
  have found : ((draft.closeDeepBranches level).abandonDeepLines level).optionRoot level =
      .ok id := by
    have lines : ((draft.closeDeepBranches level).abandonDeepLines level).lines =
        ⟨id, level⟩ :: outer := root
    rw [optionRoot, lines]
    exact (if_pos latest).trans (if_pos rfl)
  exact ⟨_, stepOption_eq_ok_iff.mpr ⟨option, commands, conditions, id, readOption, readCommands,
    readConditions, found, rfl⟩⟩

theorem below_of_shallow {stack : List OpenNode} (shallow : ∀ node ∈ stack, node.indent < level) :
    below level stack = stack := by
  rcases stack with _ | ⟨node, rest⟩
  · rfl
  · exact below_cons_of_lt (shallow node List.mem_cons_self)

/-- An option that is read closes those before it in its block. -/
theorem Reached.stacks_of_step_option {terminal : Bool}
    (reached : Reached inArm level base draft place)
    (follows : place = .line ∨ ∃ overhang unended, place = .option overhang unended)
    (reads : (Header.option terminal).Reads scope content)
    (read : draft.step scope ⟨number, level, content, .option⟩ = .ok after) :
    Keeps level base after ∧ after.branches = base.branches ∧ TopAt level after.lines ∧
      (∃ id, after.choices = (if terminal then [] else [⟨id, level⟩]) ++ base.choices) ∧
      after.latest = if terminal then (draft.closeDeepBranches level).latest else .choice := by
  obtain ⟨-, keeps, stands⟩ := reached
  obtain ⟨option, readOption, rfl, -⟩ := reads
  obtain ⟨branches, rests, root⟩ := stands.rooted follows
  obtain ⟨option', readOption', sameBranches, choices, latest⟩ := stacks_of_stepOption read
  rw [readOption] at readOption'
  cases readOption'
  -- The option that has not got a body, if there is one, belongs to this block.
  have outer : below level (if (draft.closeDeepBranches level).latest = .choice then
      (draft.closeDeepBranches level).choices.drop 1
        else (draft.closeDeepBranches level).choices) = base.choices := by
    have frame := (draft.below_choices_closeDeepBranches level).trans keeps.choices
    split
    · rename_i choice
      rcases rests.latest with line | ⟨-, top, -⟩
      · rw [line] at choice
        cases choice
      · exact top.below_drop.trans frame
    · exact frame
  have choicesEq : after.choices = (if option.terminal then []
      else [⟨(draft.closeDeepBranches level).graph.choices.size, level⟩]) ++ base.choices :=
    choices.trans (congrArg _ outer)
  have shallow : below level base.choices = base.choices := below_self keeps.choices
  have frame : below level after.choices = base.choices := by
    rw [choicesEq]
    split
    · exact shallow
    · exact (below_cons_of_le (Nat.le_refl level)).trans shallow
  obtain ⟨keepsAfter, lines⟩ := keeps.step_silent read rfl (by simp) (by simp) frame
  exact ⟨keepsAfter, sameBranches.trans branches, lines ▸ root, ⟨_, choicesEq⟩, latest⟩

/-- A terminal option leaves no option open. -/
theorem Reached.step_terminal (reached : Reached inArm level base draft place)
    (follows : place = .line ∨ ∃ overhang unended, place = .option overhang unended)
    (ended : place.unended = false) (reads : (Header.option true).Reads scope content)
    (read : draft.step scope ⟨number, level, content, .option⟩ = .ok after) :
    Reached inArm level base after (.option 0 false) := by
  obtain ⟨keepsAfter, branches, top, ⟨_, choices⟩, latest⟩ :=
    reached.stacks_of_step_option follows reads read
  obtain ⟨-, rests, -⟩ := reached.stands.rooted follows
  have line : (draft.closeDeepBranches level).latest = .line := by
    rcases rests.latest with line | ⟨-, -, unended⟩
    · exact line
    · rw [ended] at unended
      cases unended
  have closed : after.closeDeepBranches level = after :=
    closeDeepBranches_of_shallow fun branch member =>
      Nat.le_of_lt (reached.keeps.shallow branch (branches ▸ member))
  refine ⟨reached.opened, keepsAfter, ?_⟩
  rw [closed]
  refine .option branches ⟨Or.inl (latest.trans line), choices⟩ ?_ (fun _ => top) ?_
  · obtain ⟨id, outer, stack⟩ := top
    exact ⟨id, outer, by rw [stack, below_cons_of_lt (Nat.lt_succ_self level)]⟩
  · exact fun impossible => absurd impossible (by simp)

/-- After an option that is not terminal, its body may follow. -/
theorem Reached.offered_of_step (reached : Reached inArm level base draft place)
    (follows : place = .line ∨ ∃ overhang unended, place = .option overhang unended)
    (reads : (Header.option false).Reads scope content)
    (read : draft.step scope ⟨number, level, content, .option⟩ = .ok after) :
    Offered level base after := by
  obtain ⟨keepsAfter, branches, top, ⟨id, choices⟩, latest⟩ :=
    reached.stacks_of_step_option follows reads read
  have shallow : ∀ branch ∈ after.branches, branch.indent < level :=
    fun branch member => reached.keeps.shallow branch (branches ▸ member)
  have waits : after.lines ≠ [] := (top.topFrom (Nat.le_refl level)).ne_nil
  refine ⟨keepsAfter, ?_, branches, latest, ⟨id, choices⟩, top⟩
  constructor
  · constructor
    · exact keepsAfter.nested
    · rfl
    · exact below_of_shallow fun branch member => Nat.lt_succ_of_lt (shallow branch member)
    · rw [choices]
      exact below_cons_of_lt (Nat.lt_succ_self level)
    · obtain ⟨line, outer, stack⟩ := top
      rw [stack]
      exact below_cons_of_lt (Nat.lt_succ_self level)
    · exact fun branch _ => rfl
  · exact keepsAfter.title ▸ reached.opened.titled
  · exact .body latest ⟨id, base.choices, choices⟩
  · exact fun _ branch member => Nat.succ_lt_succ (shallow branch member)
  · exact fun _ => waits

/-- Behind an option and its body. -/
theorem Offered.behind {offered : Draft} (option : Offered level base offered)
    (opened : Opened inArm level base) (inner : Reached false (level + 1) offered after place) :
    Reached inArm level base after (.option (place.overhang + 1) place.unended) := by
  refine ⟨opened, option.keeps.trans inner.keeps, ?_⟩
  obtain ⟨id, choices⟩ := option.choices
  have root : TopAt level (below (level + 1) (after.closeDeepBranches level).lines) := by
    rw [below_lines_closeDeepBranches, inner.keeps.lines]
    exact option.root
  by_cases begins : place = .opening
  · -- The option has no body.
    subst begins
    have same : after.closeDeepBranches level = offered := by
      cases inner.stands with | opening inside
      rw [← closeDeepBranches_closeDeepBranches _ (Nat.le_succ level), inside]
      exact closeDeepBranches_of_shallow fun branch member =>
        Nat.le_of_lt_succ (option.opened.keeps.shallow branch member)
    rw [same] at root ⊢
    refine .option option.branches ⟨Or.inr ⟨option.latest, ?_, rfl⟩, id, _, choices⟩ root ?_ ?_
    · exact ⟨_, _, choices, Nat.le_refl level⟩
    · exact fun impossible => absurd impossible (by simp [Place.overhang])
    · exact fun impossible => absurd impossible (by simp [Place.overhang])
  · have ended := inner.ended begins
    refine .option (ended.branches.trans option.branches) (ended.rests.under choices) root ?_ ?_
    · exact fun impossible => absurd impossible (Nat.succ_ne_zero _)
    · intro many
      apply ended.lines
      · rintro rfl
        simp [Place.overhang] at many
      · rintro rfl
        simp [Place.overhang] at many

/-! ## Arms -/

/-- An arm has been opened at a level, and its body has to follow.  A branch that is not lone
stands behind a line of its block. -/
structure Armed (level : Nat) (base draft : Draft) (complete lone : Bool) : Prop where
  keeps : Keeps level base draft
  opened : Opened true (level + 1) draft
  branch : HasBranch level base draft complete
  choices : draft.choices = base.choices
  latest : draft.latest = .branch
  root : if lone then base.latest ≠ .branch else TopAt level draft.lines

variable {armed : Draft} {complete lone : Bool}

theorem armed_of_keeps (opened : Opened inArm level base)
    (keeps : Keeps level base draft) (branch : HasBranch level base draft complete)
    (choices : draft.choices = base.choices) (latest : draft.latest = .branch)
    (lines : below (level + 1) draft.lines = draft.lines)
    (root : if lone then base.latest ≠ .branch else TopAt level draft.lines) :
    Armed level base draft complete lone := by
  have ⟨id, stack, _⟩ := branch
  refine ⟨keeps, ⟨⟨keeps.nested, rfl, ?_, ?_, lines, fun branch _ => rfl⟩,
    keeps.title ▸ opened.titled, .arm latest ⟨id, base.branches, stack⟩, ?_, ?_⟩, branch, choices,
    latest, root⟩
  · rw [stack]
    exact below_cons_of_lt (Nat.lt_succ_self level)
  · rw [choices]
    apply below_of_shallow
    intro choice member
    rw [← keeps.choices] at member
    exact Nat.lt_succ_of_lt (lt_of_mem_dropWhile keeps.nested.sortedChoices member)
  · exact fun impossible => absurd impossible (by simp)
  · intro some none
    apply opened.grounded (choices ▸ some)
    rw [← keeps.lines, none]
    rfl

/-- A branch may begin behind a line and at the beginning of a block that is no arm. -/
theorem Stands.checkIfArm (stands : Stands level base draft place)
    (opened : Opened inArm level base)
    (begins : place = .line ∨ place = .opening ∧ inArm = false) :
    draft.checkIfArm level = .ok () := by
  rcases begins with rfl | ⟨rfl, rfl⟩
  · cases stands with | line _ latest _ top
    obtain ⟨id, outer, stack⟩ := top
    simp only [Draft.checkIfArm, latest, stack, topIndent]
    simp [bind, Except.bind, pure, Except.pure]
  · cases stands with | opening same
    subst same
    cases opened.starts with
    | dialogue latest =>
        simp only [Draft.checkIfArm, latest]
        rfl
    | body latest option =>
        obtain ⟨id, outer, stack⟩ := option
        simp only [Draft.checkIfArm, latest, stack, topIndent]
        simp [bind, Except.bind, pure, Except.pure, Functor.map, Except.map]

/-- Where a branch may begin, its first arm can be read. -/
theorem Reached.exists_step_ifArm (reached : Reached inArm level base draft place)
    (begins : place = .line ∨ place = .opening ∧ inArm = false)
    (reads : Header.ifArm.Reads scope content) :
    ∃ after, draft.step scope ⟨number, level, content, .ifArm⟩ = .ok after := by
  obtain ⟨source, readSource, guarded, conditions, readConditions⟩ := reads
  obtain ⟨source, rfl⟩ := Option.isSome_iff_exists.mp guarded
  obtain ⟨opened, keeps, stands⟩ := reached
  obtain ⟨title, current⟩ := keeps.currentTitle opened
  exact ⟨_, stepIfArm_eq_ok_iff.mpr ⟨title, source, conditions, current,
    stands.checkIfArm opened begins, readSource, readConditions, rfl⟩⟩

/-- The first arm opens a branch that lacks an arm without conditions. -/
theorem Reached.armed_of_step_ifArm (reached : Reached inArm level base draft place)
    (begins : place = .line ∨ place = .opening ∧ inArm = false)
    (read : draft.step scope ⟨number, level, content, .ifArm⟩ = .ok after) :
    Armed level base after false (place = .opening) := by
  obtain ⟨opened, keeps, stands⟩ := reached
  have stepped : (draft.closeDeepBranches level).stepIfArm scope ⟨number, level, content, .ifArm⟩ =
      .ok after := read
  obtain ⟨branches, choices, latest⟩ := stacks_of_stepIfArm stepped
  have outside : (draft.closeDeepBranches level).branches = base.branches := by
    rcases begins with rfl | ⟨rfl, -⟩
    · cases stands with | line branches => exact branches
    · cases stands with | opening same => exact congrArg Draft.branches same
  replace choices : after.choices = base.choices :=
    choices.trans ((draft.below_choices_closeDeepBranches level).trans keeps.choices)
  have frame : below level after.choices = base.choices := by
    rw [choices]
    exact below_self keeps.choices
  obtain ⟨keepsAfter, lines⟩ := keeps.step_silent read rfl (by simp) (by simp) frame
  apply armed_of_keeps opened keepsAfter _ choices latest
  · rw [lines]
    exact below_self rfl
  · rcases begins with rfl | ⟨rfl, rfl⟩
    · cases stands with | line _ _ _ top
      obtain ⟨id, outer, stack⟩ := top
      rw [stack, below_cons_of_lt (Nat.lt_succ_self level)] at lines
      exact ⟨id, outer, lines⟩
    · cases opened.starts <;> simp [*]
  · refine ⟨(draft.closeDeepBranches level).graph.branches.size,
      branches.trans (by rw [outside]), ?_⟩
    exact (lacks_of_stepIfArm stepped).incomplete

/-- Behind an arm with a condition, a further arm can be read. -/
theorem Reached.exists_step_elseArm {guarded : Bool}
    (reached : Reached inArm level base draft (.arm lone))
    (reads : (Header.elseArm guarded).Reads scope content) :
    ∃ after, draft.step scope ⟨number, level, content, .elseArm⟩ = .ok after := by
  obtain ⟨source, readSource, -, conditions, readConditions⟩ := reads
  cases reached.stands with | arm branch settled
  obtain ⟨id, stack, incomplete⟩ := branch
  have found : (draft.closeDeepBranches level).branchAt level = .ok id :=
    branchAt_eq_ok_iff.mpr ⟨base.branches, stack⟩
  have latest : (draft.closeDeepBranches level).latest = .line ∨
      (draft.closeDeepBranches level).latest = .choice := settled.imp_right And.left
  have fits : (draft.closeDeepBranches level).checkElseArm id = .ok () := by
    rw [checkElseArm, if_pos latest, incomplete]
    rfl
  exact ⟨_, stepElseArm_eq_ok_iff.mpr ⟨source, id, conditions, readSource, found, fits,
    readConditions, rfl⟩⟩

/-- A further arm leaves the branch open, which is complete if the arm has no condition. -/
theorem Reached.armed_of_step_elseArm {guarded : Bool}
    (reached : Reached inArm level base draft (.arm lone))
    (reads : (Header.elseArm guarded).Reads scope content)
    (read : draft.step scope ⟨number, level, content, .elseArm⟩ = .ok after) :
    Armed level base after (!guarded) lone := by
  obtain ⟨source, readSource, rfl, -⟩ := reads
  obtain ⟨opened, keeps, stands⟩ := reached
  cases stands with | arm branch _ _ _ root
  obtain ⟨id, stack, incomplete⟩ := branch
  have stepped : (draft.closeDeepBranches level).stepElseArm scope
      ⟨number, level, content, .elseArm⟩ = .ok after := read
  obtain ⟨branches, choices, latest⟩ := stacks_of_stepElseArm stepped
  replace choices : after.choices = base.choices :=
    choices.trans ((draft.below_choices_closeDeepBranches level).trans keeps.choices)
  have frame : below level after.choices = base.choices := by
    rw [choices]
    exact below_self keeps.choices
  obtain ⟨keepsAfter, lines⟩ := keeps.step_silent read rfl (by simp) (by simp) frame
  apply armed_of_keeps opened keepsAfter _ choices latest
  · rw [lines]
    exact below_self rfl
  · cases lone with
    | true => exact root
    | false =>
        rw [lines]
        exact root
  · have known : id < (draft.closeDeepBranches level).graph.branches.size :=
      (nested_closeDeepBranches keeps.nested level).knownBranches ⟨id, level⟩
        (stack ▸ List.mem_cons_self)
    exact ⟨id, branches.trans stack, isExhaustive_of_stepElseArm stepped readSource
      (branchAt_eq_ok_iff.mpr ⟨base.branches, stack⟩) known⟩

/-- The branch of an arm is still open behind the body of the arm. -/
theorem Armed.hasBranch (arm : Armed level base armed complete lone)
    (keeps : Keeps (level + 1) armed after)
    (branches : (after.closeDeepBranches level).branches = armed.branches) :
    HasBranch level base (after.closeDeepBranches level) complete := by
  obtain ⟨id, stack, status⟩ := arm.branch
  have still : (⟨id, level⟩ : OpenNode) ∈ armed.branches := by
    rw [stack]
    exact List.mem_cons_self
  have member : (⟨id, level⟩ : OpenNode) ∈ after.branches := by
    rw [← keeps.branches] at still
    exact (List.dropWhile_sublist _).mem still
  refine ⟨id, branches.trans stack, ?_⟩
  rw [branch_closeDeepBranches, keeps.complete _ still, status]
  intro node inside same
  have itself := eq_of_older (keeps.nested.branches.imp fun both => both.1) inside member same
  exact Nat.le_of_eq (congrArg OpenNode.indent itself)

/-- An arm never begins with a branch of its own. -/
theorem Armed.ne_spent (arm : Armed level base armed complete lone)
    (inner : Reached true (level + 1) armed after place) : place ≠ .spent := by
  rintro rfl
  cases inner.stands with | spent _ _ notArm => exact notArm arm.latest

/-- The body of an arm leaves the lines of the block open as they were. -/
theorem Armed.lines_behind (arm : Armed level base armed complete lone)
    (inner : Reached true (level + 1) armed after place) :
    below (level + 1) (after.closeDeepBranches level).lines = armed.lines ∧
      if lone then base.latest ≠ .branch
        else TopAt level (below (level + 1) (after.closeDeepBranches level).lines) := by
  have lines : below (level + 1) (after.closeDeepBranches level).lines = armed.lines := by
    rw [below_lines_closeDeepBranches, inner.keeps.lines]
  rw [lines]
  exact ⟨rfl, arm.root⟩

/-- Some line waits behind an arm: the last of the arm, or the line of an option around it. -/
theorem Armed.waits (arm : Armed level base armed complete lone)
    (inner : Reached true (level + 1) armed after place) (begun : place ≠ .opening) :
    (after.closeDeepBranches level).lines ≠ [] := by
  by_cases marked : place = .marked
  · subst marked
    cases inner.stands with | marked _ _ _ enclosed
    intro none
    have lines := (arm.lines_behind inner).1
    rw [none] at lines
    exact arm.opened.grounded enclosed lines.symm
  · exact ((inner.ended begun).lines marked (arm.ne_spent inner)).ne_nil

/-- A line of the block is on top behind an arm, unless the arm ends in a return-marked line and
no line of the block stands before its branch. -/
theorem Armed.topFrom (arm : Armed level base armed complete lone)
    (inner : Reached true (level + 1) armed after place) (begun : place ≠ .opening)
    (goesOn : ¬(lone = true ∧ place = .marked)) :
    TopFrom level (after.closeDeepBranches level).lines := by
  by_cases marked : place = .marked
  · have follows : lone = false := by
      cases lone with
      | true => exact absurd ⟨rfl, marked⟩ goesOn
      | false => rfl
    subst follows
    exact topFrom_of_below (arm.lines_behind inner).2
  · exact ((inner.ended begun).lines marked (arm.ne_spent inner)).mono (Nat.le_succ level)

/-- Behind an arm and its body, the branch is open and a line of the dialogue waits. -/
theorem Armed.behind (arm : Armed level base armed complete lone) (opened : Opened inArm level base)
    (inner : Reached true (level + 1) armed after place) (begun : place ≠ .opening) :
    Reached inArm level base after
      (if complete = true then
        if lone = true ∧ place = .marked then .spent
        else .otherwise (Place.lift place.overhang) place.unended
      else .arm lone) := by
  refine ⟨opened, arm.keeps.trans inner.keeps, ?_⟩
  have ended := inner.ended begun
  have has := arm.hasBranch inner.keeps ended.branches
  have rests := ended.rests.lift arm.choices
  cases complete with
  | false =>
      rw [if_neg (by simp)]
      refine .arm has rests.settled ?_ (arm.waits inner begun) (arm.lines_behind inner).2
      rw [below_succ_choices_closeDeepBranches, inner.keeps.choices, arm.choices]
  | true =>
      rw [if_pos rfl]
      split
      · rename_i spent
        obtain ⟨rfl, rfl⟩ := spent
        exact .spent has rests arm.root
      · rename_i goesOn
        exact .otherwise has rests (arm.topFrom inner begun goesOn)

end Parley.Draft
