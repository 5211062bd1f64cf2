import Parley.Proofs.Draft.Branches
import Parley.Proofs.Script.Outline

/-!
# Drafts in the middle of a block

While a block is read, whatever was open before it stays open as it was.  What the block
itself leaves open depends on the place that has been reached in it; `Stands` says what is
open at each place, once the branches deeper than the block are closed.
-/

namespace Parley.Draft

open Parley.Script

variable {scope : Scope} {level : Nat} {base draft before middle after : Draft}
  {statement : Statement}

/-! ## Stacks below a level -/

/-- The nodes of a stack below the innermost ones that are at least as deep as a level. -/
def below (level : Nat) (stack : List OpenNode) : List OpenNode :=
  stack.dropWhile fun node => level ≤ node.indent

@[simp]
theorem below_cons_of_le {node : OpenNode} {stack : List OpenNode} (deep : level ≤ node.indent) :
    below level (node :: stack) = below level stack :=
  List.dropWhile_cons_of_pos (by simpa using deep)

theorem below_cons_of_lt {node : OpenNode} {stack : List OpenNode} (shallow : node.indent < level) :
    below level (node :: stack) = node :: stack :=
  List.dropWhile_cons_of_neg (by simpa using shallow)

/-- Nothing is below the outermost level. -/
@[simp]
theorem below_zero (stack : List OpenNode) : below 0 stack = [] := by
  induction stack with
  | nil => rfl
  | cons node stack ih => rw [below_cons_of_le (Nat.zero_le _), ih]

/-- What is below a level is below every deeper level. -/
theorem below_below {deeper : Nat} (le : level ≤ deeper) (stack : List OpenNode) :
    below level (below deeper stack) = below level stack := by
  apply dropWhile_dropWhile_of_imp
  intro node deep
  simp only [decide_eq_true_eq] at deep ⊢
  exact Nat.le_trans le deep

/-- What is below a level is below it twice. -/
theorem below_self {stack outer : List OpenNode} (same : below level stack = outer) :
    below level outer = outer := by
  rw [← same]
  exact below_below (Nat.le_refl level) stack

/-! ## Frames -/

/-- The title of the dialogue that is being read and all titles so far. -/
def titles (draft : Draft) : Option String × List String :=
  (draft.title, draft.declared)

theorem titles_completeBranch (draft : Draft) (branch : OpenNode) (outer : List OpenNode) :
    ({ draft with branches := outer }.completeBranch branch).titles = draft.titles := by
  unfold completeBranch
  split <;> rfl

@[simp]
theorem titles_closeDeepBranches (draft : Draft) (indent : Nat) :
    (draft.closeDeepBranches indent).titles = draft.titles :=
  closeDeepBranches_keeps titles titles_completeBranch draft indent

@[simp]
theorem titles_closeDialogue (draft : Draft) : draft.closeDialogue.titles = draft.titles :=
  closeDialogue_keeps titles titles_completeBranch draft

theorem titles_makeRoom (draft : Draft) (indent : Nat) :
    (draft.makeRoom indent).titles = draft.titles := by
  rw [makeRoom, closeBranchAt_keeps titles titles_completeBranch]
  unfold settleChoice
  split
  · split
    · split <;> rfl
    · rfl
  · rfl

@[simp]
theorem titles_finishBodiless (draft : Draft) : draft.finishBodiless.titles = draft.titles := by
  unfold finishBodiless
  split
  · split <;> rfl
  · rfl

theorem titles_offer (draft : Draft) (choice : Choice) (terminal : Bool) (indent : Nat) :
    (draft.offer choice terminal indent).titles = draft.titles := by
  unfold offer
  split <;> exact titles_finishBodiless _

theorem titles_attachBranch (draft : Draft) (title : String) (branch : BranchIndex) :
    (draft.attachBranch title branch).titles = draft.titles := by
  unfold attachBranch
  split
  · rfl
  all_goals split <;> rfl

theorem titles_of_stepSpeech (read : before.stepSpeech scope statement = .ok after) :
    after.titles = before.titles := by
  obtain ⟨title, speech, commands, attached, directed, -, -, -, -, attach, direct, rfl⟩ :=
    stepSpeech_eq_ok_iff.mp read
  obtain ⟨-, -, attachTitle, attachDeclared⟩ := stacks_attachSpeech attach
  obtain ⟨-, -, directTitle, directDeclared⟩ := stacks_directSpeech direct
  let room := before.makeRoom statement.indent
  obtain ⟨-, -, gatherTitle, gatherDeclared⟩ :=
    directed.stacks_gatherStrays room.graph.lines.size statement.indent
  calc
    titles _ = directed.titles := Prod.ext gatherTitle gatherDeclared
    _ = attached.titles := Prod.ext directTitle directDeclared
    _ = room.titles := Prod.ext attachTitle attachDeclared
    _ = before.titles := before.titles_makeRoom statement.indent

/-- A statement that begins no dialogue leaves the titles alone. -/
theorem titles_of_step (read : before.step scope statement = .ok after)
    (stays : statement.construct ≠ .dialogue) : after.titles = before.titles := by
  rw [← before.titles_closeDeepBranches statement.indent]
  unfold step at read
  split at read
  · rename_i construct
    exact absurd construct stays
  · obtain ⟨option, commands, conditions, root, -, -, -, -, rfl⟩ := stepOption_eq_ok_iff.mp read
    exact titles_offer _ _ _ _
  · obtain ⟨title, source, conditions, -, -, -, -, rfl⟩ := stepIfArm_eq_ok_iff.mp read
    exact titles_attachBranch _ _ _
  · obtain ⟨source, branch, conditions, -, -, -, -, rfl⟩ := stepElseArm_eq_ok_iff.mp read
    rfl
  · exact titles_of_stepSpeech read

/-- Closing the branches inside a block keeps what is open outside. -/
@[simp]
theorem below_lines_closeDeepBranches (draft : Draft) (level : Nat) :
    below (level + 1) (draft.closeDeepBranches level).lines = below (level + 1) draft.lines :=
  draft.dropWhile_lines_closeDeepBranches level

@[simp]
theorem below_choices_closeDeepBranches (draft : Draft) (level : Nat) :
    below level (draft.closeDeepBranches level).choices = below level draft.choices :=
  draft.dropWhile_choices_closeDeepBranches level

@[simp]
theorem below_succ_choices_closeDeepBranches (draft : Draft) (level : Nat) :
    below (level + 1) (draft.closeDeepBranches level).choices =
      below (level + 1) draft.choices := by
  apply dropWhile_choices_foldl_completeBranch
  intro branch member
  have deeper := List.all_eq_true.mp List.all_takeWhile branch member
  exact of_decide_eq_true deeper

/-- A block is being read at a level: everything that was open before it is open as it was, and
the same branches have an arm without conditions. -/
structure Keeps (level : Nat) (base draft : Draft) : Prop where
  nested : draft.Nested
  titles : draft.titles = base.titles
  branches : below level draft.branches = base.branches
  choices : below level draft.choices = base.choices
  lines : below level draft.lines = base.lines
  complete : ∀ branch ∈ base.branches, (draft.graph.branch branch.id).isExhaustive =
    (base.graph.branch branch.id).isExhaustive

theorem Keeps.title (keeps : Keeps level base draft) : draft.title = base.title :=
  congrArg Prod.fst keeps.titles

theorem Keeps.declared (keeps : Keeps level base draft) : draft.declared = base.declared :=
  congrArg Prod.snd keeps.titles

/-- What was open before an inner block includes what was open before the outer one. -/
theorem Keeps.trans (outer : Keeps level before middle) (inner : Keeps (level + 1) middle after) :
    Keeps level before after where
  nested := inner.nested
  titles := inner.titles.trans outer.titles
  branches := by
    rw [← below_below (Nat.le_succ level), inner.branches, outer.branches]
  choices := by
    rw [← below_below (Nat.le_succ level), inner.choices, outer.choices]
  lines := by
    rw [← below_below (Nat.le_succ level), inner.lines, outer.lines]
  complete branch member := by
    have still : branch ∈ middle.branches := by
      rw [← outer.branches] at member
      exact (List.dropWhile_sublist _).mem member
    rw [inner.complete branch still, outer.complete branch member]

/-- The nodes that were open before a block are shallower than it. -/
theorem Keeps.shallow (keeps : Keeps level base draft) : ∀ branch ∈ base.branches,
    branch.indent < level := by
  intro branch member
  rw [← keeps.branches] at member
  exact lt_of_mem_dropWhile keeps.nested.sortedBranches member

theorem Keeps.lines_closed (keeps : Keeps level base draft) :
    below level (draft.closeDeepBranches level).lines = base.lines := by
  rw [← below_below (Nat.le_succ level), below_lines_closeDeepBranches,
    below_below (Nat.le_succ level), keeps.lines]

/-- A statement at the level of a block disturbs no branch that was open before. -/
theorem Keeps.step (keeps : Keeps level base before)
    (read : before.step scope statement = .ok after) (indent : statement.indent = level)
    (stays : statement.construct ≠ .dialogue)
    (choices : below level after.choices = base.choices)
    (lines : below level after.lines = base.lines) : Keeps level base after where
  nested := keeps.nested.step read
  titles := (titles_of_step read stays).trans keeps.titles
  branches := by
    rw [← keeps.branches]
    rcases level with _ | outer
    · rw [below_zero, below_zero]
    · exact dropWhile_branches_of_step read stays (indent ▸ Nat.lt_succ_self outer)
  choices := choices
  lines := lines
  complete branch member := by
    have still : branch ∈ before.branches := by
      rw [← keeps.branches] at member
      exact (List.dropWhile_sublist _).mem member
    have shallower : ∀ node ∈ before.branches, node.id = branch.id →
        node.indent < statement.indent ∧ statement.construct ≠ .dialogue := by
      intro node inside same
      rw [eq_of_older (keeps.nested.branches.imp fun both => both.1) inside still same, indent]
      exact ⟨keeps.shallow branch member, stays⟩
    rw [← keeps.complete branch member]
    rcases branch_of_step read (keeps.nested.knownBranches branch still) shallower with
      unchanged | ⟨⟨line, bodied⟩, -⟩
    · rw [unchanged]
    · rw [bodied, Branch.isExhaustive_eq_of_conditions_eq (Branch.conditions_setLastBody _ line)]

/-- A statement that says nothing leaves the lines of a block open that are no deeper. -/
theorem Keeps.step_silent (keeps : Keeps level base before)
    (read : before.step scope statement = .ok after) (indent : statement.indent = level)
    (silent : statement.construct ≠ .speech) (stays : statement.construct ≠ .dialogue)
    (choices : below level after.choices = base.choices) :
    Keeps level base after ∧
      after.lines = below (level + 1) (before.closeDeepBranches level).lines := by
  have lines : after.lines = below (level + 1) before.lines := by
    rw [lines_of_step_silent silent stays read, indent]
    rfl
  refine ⟨keeps.step read indent stays choices ?_, ?_⟩
  · rw [lines, below_below (Nat.le_succ level), keeps.lines]
  · rw [lines, below_lines_closeDeepBranches]

/-! ## Places -/

/-- The innermost node of a stack stands at an indentation. -/
def TopAt (indent : Nat) (stack : List OpenNode) : Prop :=
  ∃ id outer, stack = ⟨id, indent⟩ :: outer

/-- The innermost node of a stack is at least as deep as a level. -/
def TopFrom (level : Nat) (stack : List OpenNode) : Prop :=
  ∃ top outer, stack = top :: outer ∧ level ≤ top.indent

theorem TopAt.topFrom {indent : Nat} {stack : List OpenNode} (top : TopAt indent stack)
    (le : level ≤ indent) : TopFrom level stack := by
  obtain ⟨id, outer, rfl⟩ := top
  exact ⟨⟨id, indent⟩, outer, rfl, le⟩

theorem TopFrom.mono {shallower : Nat} {stack : List OpenNode} (top : TopFrom level stack)
    (le : shallower ≤ level) : TopFrom shallower stack := by
  obtain ⟨node, outer, stacked, deep⟩ := top
  exact ⟨node, outer, stacked, Nat.le_trans le deep⟩

theorem TopFrom.ne_nil {stack : List OpenNode} (top : TopFrom level stack) : stack ≠ [] := by
  obtain ⟨node, outer, rfl, -⟩ := top
  exact List.cons_ne_nil node outer

/-- A deep node on top of a stack is not below its level. -/
theorem TopFrom.below_drop {stack : List OpenNode} (top : TopFrom level stack) :
    below level (stack.drop 1) = below level stack := by
  obtain ⟨node, outer, rfl, deep⟩ := top
  exact (below_cons_of_le deep).symm

/-- Where a node at a level is the innermost one that is no deeper, some node on top is at least
as deep. -/
theorem topFrom_of_below {stack : List OpenNode} (root : TopAt level (below (level + 1) stack)) :
    TopFrom level stack := by
  obtain ⟨id, outer, root⟩ := root
  rcases stack with _ | ⟨top, rest⟩
  · cases root
  · by_cases deep : level ≤ top.indent
    · exact ⟨top, rest, rfl, deep⟩
    · rw [below_cons_of_lt (by omega)] at root
      cases root
      exact absurd (Nat.le_refl level) deep

/-- The options of a block that are still open over the outer ones, told by how many levels they
reach. -/
def Overhangs (level : Nat) (outer stack : List OpenNode) : Nat → Prop
  | 0 => stack = outer
  | overhang + 1 => TopAt (level + overhang) stack

/-- What was made last is a line, or an option that has not got a body. -/
def Settled (level : Nat) (draft : Draft) : Prop :=
  draft.latest = .line ∨ draft.latest = .choice ∧ TopFrom level draft.choices

/-- A draft behind a block or a part of it: its options overhang as told, and what was made last
is an option only if the block is unended. -/
structure Rests (level : Nat) (base draft : Draft) (overhang : Nat) (unended : Bool) : Prop where
  latest : draft.latest = .line ∨
    draft.latest = .choice ∧ TopFrom level draft.choices ∧ unended = true
  choices : Overhangs level base.choices draft.choices overhang

theorem Rests.settled {overhang : Nat} {unended : Bool}
    (rests : Rests level base draft overhang unended) : Settled level draft :=
  rests.latest.imp_right fun choice => ⟨choice.1, choice.2.1⟩

/-- Options that overhang a block overhang the one around it by a level more. -/
theorem Overhangs.outside {inner outer stack : List OpenNode} {overhang : Nat}
    (overhangs : Overhangs (level + 1) inner stack (overhang + 1)) :
    Overhangs level outer stack (overhang + 2) := by
  show TopAt (level + (overhang + 1)) stack
  rw [Nat.add_comm overhang 1, ← Nat.add_assoc]
  exact overhangs

/-- What rests behind the body of an option, as seen from the level of the option. -/
theorem Rests.under {offered : Draft} {id : ChoiceIndex} {overhang : Nat} {unended : Bool}
    (rests : Rests (level + 1) offered draft overhang unended)
    (choices : offered.choices = ⟨id, level⟩ :: base.choices) :
    Rests level base draft (overhang + 1) unended where
  latest := rests.latest.imp_right fun ⟨choice, top, last⟩ =>
    ⟨choice, top.mono (Nat.le_succ level), last⟩
  choices := by
    have overhangs := rests.choices
    cases overhang with
    | zero => exact ⟨id, base.choices, Eq.trans overhangs choices⟩
    | succ overhang => exact overhangs.outside

/-- What rests behind an arm, as seen from the level of its branch. -/
theorem Rests.lift {armed : Draft} {overhang : Nat} {unended : Bool}
    (rests : Rests (level + 1) armed draft overhang unended)
    (choices : armed.choices = base.choices) :
    Rests level base draft (Place.lift overhang) unended where
  latest := rests.latest.imp_right fun ⟨choice, top, last⟩ =>
    ⟨choice, top.mono (Nat.le_succ level), last⟩
  choices := by
    have overhangs := rests.choices
    cases overhang with
    | zero => exact Eq.trans overhangs choices
    | succ overhang => exact overhangs.outside

/-- The branch of a block is open, with or without an arm without conditions. -/
def HasBranch (level : Nat) (base draft : Draft) (complete : Bool) : Prop :=
  ∃ id, draft.branches = ⟨id, level⟩ :: base.branches ∧
    (draft.graph.branch id).isExhaustive = complete

/-- What is open at a place in a block, once the branches deeper than the block are closed. -/
inductive Stands (level : Nat) (base draft : Draft) : Place → Prop where
  | opening (same : draft = base) : Stands level base draft .opening
  | line (branches : draft.branches = base.branches) (latest : draft.latest = .line)
      (choices : draft.choices = base.choices) (top : TopAt level draft.lines) :
      Stands level base draft .line
  /-- Return markers lead to the line of an option around the block. -/
  | marked (branches : draft.branches = base.branches) (latest : draft.latest = .line)
      (choices : draft.choices = base.choices) (enclosed : base.choices ≠ []) :
      Stands level base draft .marked
  /-- The line under which the option is offered is on top of the lines of the block, and on top
  of all lines if no option is open; under deep options there are lines of their own. -/
  | option {overhang : Nat} {unended : Bool} (branches : draft.branches = base.branches)
      (rests : Rests level base draft overhang unended)
      (root : TopAt level (below (level + 1) draft.lines))
      (bare : overhang = 0 → TopAt level draft.lines)
      (deeper : 2 < overhang → TopFrom (level + 1) draft.lines) :
      Stands level base draft (.option overhang unended)
  /-- Only a branch without a line of its own begins a block, which is no arm then. -/
  | arm {lone : Bool} (branch : HasBranch level base draft false) (settled : Settled level draft)
      (choices : below (level + 1) draft.choices = base.choices) (waits : draft.lines ≠ [])
      (root : if lone then base.latest ≠ .branch
        else TopAt level (below (level + 1) draft.lines)) :
      Stands level base draft (.arm lone)
  | otherwise {overhang : Nat} {unended : Bool} (branch : HasBranch level base draft true)
      (rests : Rests level base draft overhang unended) (top : TopFrom level draft.lines) :
      Stands level base draft (.otherwise overhang unended)
  | spent (branch : HasBranch level base draft true) (rests : Rests level base draft 0 false)
      (notArm : base.latest ≠ .branch) : Stands level base draft .spent

/-- How a block begins. -/
inductive Starts : Bool → Nat → Draft → Prop where
  | dialogue {base : Draft} (latest : base.latest = .title) : Starts false 0 base
  | body {base : Draft} {level : Nat} (latest : base.latest = .choice)
      (option : TopAt level base.choices) : Starts false (level + 1) base
  | arm {base : Draft} {level : Nat} (latest : base.latest = .branch)
      (branch : TopAt level base.branches) : Starts true (level + 1) base

/-- A block begins at a level, with nothing open that is as deep. -/
structure Opened (inArm : Bool) (level : Nat) (base : Draft) : Prop where
  keeps : Keeps level base base
  titled : base.title.isSome = true
  starts : Starts inArm level base
  /-- Only an arm is near an open branch. -/
  apart : inArm = false → ∀ branch ∈ base.branches, branch.indent + 1 < level
  /-- An open option has a line under which it is offered. -/
  grounded : base.choices ≠ [] → base.lines ≠ []

/-- A place has been reached in a block. -/
structure Reached (inArm : Bool) (level : Nat) (base draft : Draft) (place : Place) : Prop where
  opened : Opened inArm level base
  keeps : Keeps level base draft
  stands : Stands level base (draft.closeDeepBranches level) place

theorem Opened.reached {inArm : Bool} (opened : Opened inArm level base) :
    Reached inArm level base base .opening :=
  ⟨opened, opened.keeps, .opening (closeDeepBranches_of_shallow fun branch member =>
    Nat.le_of_lt (opened.keeps.shallow branch member))⟩

/-! ## Closing the branches of a block -/

/-- Closing branches down to a level and then further is closing them all. -/
theorem closeDeepBranches_closeDeepBranches (draft : Draft) {shallow deep : Nat}
    (le : shallow ≤ deep) :
    (draft.closeDeepBranches deep).closeDeepBranches shallow = draft.closeDeepBranches shallow := by
  have folded : ∀ (closed : List OpenNode) (stack : List OpenNode) (draft : Draft),
      { closed.foldl completeBranch draft with branches := stack } =
        closed.foldl completeBranch { draft with branches := stack } := by
    intro closed stack
    induction closed with
    | nil => exact fun _ => rfl
    | cons branch closed ih =>
        intro draft
        rw [List.foldl_cons, ih, ← completeBranch_with_branches, List.foldl_cons]
  let deeper : OpenNode → Bool := fun branch => deep < branch.indent
  let shallower : OpenNode → Bool := fun branch => shallow < branch.indent
  have allDeep : ∀ branch ∈ draft.branches.takeWhile deeper, shallower branch = true := by
    intro branch member
    have isDeep := List.all_eq_true.mp List.all_takeWhile branch member
    simp only [deeper, shallower, decide_eq_true_eq] at isDeep ⊢
    omega
  have split : (draft.branches.takeWhile deeper ++
      draft.branches.dropWhile deeper).takeWhile shallower = draft.branches.takeWhile deeper ++
        (draft.branches.dropWhile deeper).takeWhile shallower :=
    List.takeWhile_append_of_pos allDeep
  rw [List.takeWhile_append_dropWhile] at split
  have rest : (draft.branches.dropWhile deeper).dropWhile shallower =
      draft.branches.dropWhile shallower := by
    apply dropWhile_dropWhile_of_imp
    intro branch isDeep
    simp only [deeper, shallower, decide_eq_true_eq] at isDeep ⊢
    omega
  unfold closeDeepBranches
  rw [branches_foldl_completeBranch]
  show ((draft.branches.dropWhile deeper).takeWhile shallower).foldl completeBranch _ =
    (draft.branches.takeWhile shallower).foldl completeBranch _
  rw [split, List.foldl_append, folded, rest]

/-- Where at most the branch of a block is open over the outer ones, closing the branches deeper
than the level outside is closing that branch. -/
theorem closeDeepBranches_eq_closeBranchAt {outer : List OpenNode}
    (shallow : ∀ branch ∈ outer, branch.indent < level + 1)
    (stack : draft.branches = outer ∨ ∃ id, draft.branches = ⟨id, level + 1⟩ :: outer) :
    draft.closeDeepBranches level = draft.closeBranchAt (level + 1) := by
  have notDeeper : ∀ branch ∈ outer, branch.indent ≤ level :=
    fun branch member => Nat.le_of_lt_succ (shallow branch member)
  rcases stack with stack | ⟨id, stack⟩
  · rw [closeDeepBranches_of_shallow (stack ▸ notDeeper), closeBranchAt, stack]
    rcases outer with _ | ⟨branch, outer⟩
    · rfl
    · have stays := shallow branch List.mem_cons_self
      exact (if_neg (Nat.ne_of_lt stays)).symm
  · have kept : outer.dropWhile (fun branch => level < branch.indent) = outer ∧
        outer.takeWhile (fun branch => level < branch.indent) = [] := by
      rcases outer with _ | ⟨branch, outer⟩
      · exact ⟨rfl, rfl⟩
      · have stays := notDeeper branch List.mem_cons_self
        simp [Nat.not_lt_of_le stays]
    unfold closeDeepBranches closeBranchAt
    rw [stack, List.dropWhile_cons_of_pos (by simp), List.takeWhile_cons_of_pos (by simp), kept.1,
      kept.2]
    exact (if_pos rfl).symm

theorem closeBranchAt_of_shallow (shallow : ∀ branch ∈ draft.branches, branch.indent < level) :
    draft.closeBranchAt level = draft := by
  unfold closeBranchAt
  split
  · rename_i branch outer stack
    exact if_neg (Nat.ne_of_lt (shallow branch (stack ▸ List.mem_cons_self)))
  · rfl

theorem closeBranchAt_of_complete {id : BranchIndex} {outer : List OpenNode}
    (stack : draft.branches = ⟨id, level⟩ :: outer)
    (complete : (draft.graph.branch id).isExhaustive = true) :
    draft.closeBranchAt level = { draft with branches := outer } := by
  rw [closeBranchAt, stack]
  exact (if_pos rfl).trans (if_pos complete)

theorem closeBranchAt_of_incomplete {id : BranchIndex} {outer : List OpenNode}
    (stack : draft.branches = ⟨id, level⟩ :: outer)
    (incomplete : (draft.graph.branch id).isExhaustive = false) :
    draft.closeBranchAt level = { draft with branches := outer }.addDefaultArm ⟨id, level⟩ := by
  rw [closeBranchAt, stack]
  exact (if_pos rfl).trans (if_neg (by simp [incomplete]))

/-- What a block leaves open at its end, once its last branch is closed. -/
structure Ended (level : Nat) (base draft : Draft) (place : Place) : Prop where
  branches : draft.branches = base.branches
  rests : Rests level base draft place.overhang place.unended
  lines : place ≠ .marked → place ≠ .spent → TopFrom level draft.lines

/-- A block that has been begun can be ended at every place. -/
theorem Stands.ended {place : Place} (stands : Stands level base draft place)
    (begun : place ≠ .opening) (shallow : ∀ branch ∈ base.branches, branch.indent < level) :
    Ended level base (draft.closeBranchAt level) place := by
  cases stands with
  | opening => exact absurd rfl begun
  | line branches latest choices top =>
      rw [closeBranchAt_of_shallow (branches ▸ shallow)]
      exact ⟨branches, ⟨Or.inl latest, choices⟩, fun _ _ => top.topFrom (Nat.le_refl level)⟩
  | marked branches latest choices =>
      rw [closeBranchAt_of_shallow (branches ▸ shallow)]
      exact ⟨branches, ⟨Or.inl latest, choices⟩, fun notMarked _ => absurd rfl notMarked⟩
  | option branches rests root =>
      rw [closeBranchAt_of_shallow (branches ▸ shallow)]
      exact ⟨branches, rests, fun _ _ => topFrom_of_below root⟩
  | arm branch settled choices =>
      obtain ⟨id, stack, incomplete⟩ := branch
      rw [closeBranchAt_of_incomplete stack incomplete]
      -- The relay of the arm that completes the branch is deeper than the block.
      have relay : TopFrom level (⟨draft.graph.lines.size, level + 1⟩ :: draft.lines) :=
        ⟨_, _, rfl, Nat.le_succ level⟩
      exact ⟨rfl, ⟨Or.inl rfl, choices⟩, fun _ _ => relay⟩
  | otherwise branch rests top =>
      obtain ⟨id, stack, complete⟩ := branch
      rw [closeBranchAt_of_complete stack complete]
      exact ⟨rfl, ⟨rests.latest, rests.choices⟩, fun _ _ => top⟩
  | spent branch rests =>
      obtain ⟨id, stack, complete⟩ := branch
      rw [closeBranchAt_of_complete stack complete]
      exact ⟨rfl, ⟨rests.latest, rests.choices⟩, fun _ notSpent => absurd rfl notSpent⟩

/-- What a block leaves open for the block around it. -/
theorem Reached.ended {inArm : Bool} {place : Place}
    (reached : Reached inArm (level + 1) base draft place) (begun : place ≠ .opening) :
    Ended (level + 1) base (draft.closeDeepBranches level) place := by
  have shallow := reached.keeps.shallow
  have stack : (draft.closeDeepBranches (level + 1)).branches = base.branches ∨
      ∃ id, (draft.closeDeepBranches (level + 1)).branches = ⟨id, level + 1⟩ :: base.branches := by
    cases reached.stands with
    | opening => exact absurd rfl begun
    | line branches | marked branches | option branches => exact Or.inl branches
    | arm branch | otherwise branch | spent branch =>
        obtain ⟨id, stack, -⟩ := branch
        exact Or.inr ⟨id, stack⟩
  rw [← draft.closeDeepBranches_closeDeepBranches (Nat.le_succ level),
    closeDeepBranches_eq_closeBranchAt shallow stack]
  exact reached.stands.ended begun shallow

end Parley.Draft
