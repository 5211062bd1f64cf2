import Parley.Proofs.Draft.Closing
import Parley.Proofs.Graph.Sound

/-!
# Sound drafts

The graph of a draft is sound at every moment, and a branch that still lacks an
arm without conditions is open.  A branch leaves the stack of open branches only
when it is closed, and closing completes it; so when all dialogues are closed,
every branch of the graph ends with its only arm without conditions.
-/

namespace Parley

open Parley.Script

/-- A draft of a sound graph in which every incomplete branch is open. -/
structure Draft.Sound (scope : Scope) (draft : Draft) : Prop where
  graph : draft.graph.Sound scope
  complete : ∀ id < draft.graph.branches.size,
    (draft.graph.branch id).isExhaustive = true ∨ ∃ node ∈ draft.branches, node.id = id

namespace Draft.Sound

variable {scope : Scope} {draft next : Draft}

theorem empty : Draft.empty.Sound scope where
  graph := Graph.Sound.empty
  complete _ known := by simp [Draft.empty, Graph.empty] at known

/-- An edit that leaves the conditions of all branches alone. -/
theorem of_isExhaustive_eq (sound : draft.Sound scope) (graph : next.graph.Sound scope)
    (size : next.graph.branches.size = draft.graph.branches.size)
    (same : ∀ id, (next.graph.branch id).isExhaustive = (draft.graph.branch id).isExhaustive)
    (stack : next.branches = draft.branches) : next.Sound scope where
  graph := graph
  complete id known := by
    rw [same, stack]
    exact sound.complete id (size ▸ known)

/-- An edit that leaves the branches alone. -/
theorem of_branches_eq (sound : draft.Sound scope) (graph : next.graph.Sound scope)
    (same : next.graph.branches = draft.graph.branches) (stack : next.branches = draft.branches) :
    next.Sound scope :=
  sound.of_isExhaustive_eq graph (by rw [same])
    (fun id => by rw [Graph.branch_congr same id]) stack

/-! ## Closing -/

/-- The innermost branch is complete once it is closed. -/
theorem completeBranch (sound : draft.Sound scope) {branch : OpenNode} {outer : List OpenNode}
    (stack : draft.branches = branch :: outer) :
    ({ draft with branches := outer }.completeBranch branch).Sound scope := by
  -- The branch that leaves the stack may have been the only reason for `complete`.
  have others : ∀ id < draft.graph.branches.size, id ≠ branch.id →
      (draft.graph.branch id).isExhaustive = true ∨ ∃ node ∈ outer, node.id = id := by
    intro id known different
    rcases sound.complete id known with exhaustive | ⟨node, member, same⟩
    · exact Or.inl exhaustive
    · rw [stack] at member
      rcases List.mem_cons.mp member with rfl | member
      · exact absurd same.symm different
      · exact Or.inr ⟨node, member, same⟩
  unfold Draft.completeBranch
  split
  · rename_i exhaustive
    constructor
    · exact sound.graph
    · intro id known
      by_cases same : id = branch.id
      · exact Or.inl (same ▸ exhaustive)
      · exact others id known same
  · rename_i incomplete
    have incompleteEq : (draft.graph.branch branch.id).isExhaustive = false := by
      simpa using incomplete
    constructor
    · apply (sound.graph.addLine (Line.sound_relay _)).modifyBranch branch.id
      intro known
      exact (sound.graph.branches _ known).addArm incompleteEq (by simp) _
    · intro id known
      rw [size_branches_addDefaultArm] at known
      rw [branch_addDefaultArm]
      by_cases same : branch.id = id
      · rw [if_pos ⟨same, known⟩, Branch.isExhaustive_iff]
        exact Or.inl ⟨_, List.mem_append_right _ (List.mem_singleton_self _), rfl⟩
      · rw [if_neg (fun both => same both.1)]
        exact others id known (Ne.symm same)

theorem closeDeepBranches (sound : draft.Sound scope) (indent : Nat) :
    (draft.closeDeepBranches indent).Sound scope :=
  draft.closeDeepBranches_induction (fun _ _ _ stack held => held.completeBranch stack) indent sound

theorem closeDialogue (sound : draft.Sound scope) : draft.closeDialogue.Sound scope :=
  draft.closeDialogue_induction (fun _ _ _ stack held => held.completeBranch stack) sound

theorem closeBranchAt (sound : draft.Sound scope) (indent : Nat) :
    (draft.closeBranchAt indent).Sound scope :=
  draft.closeBranchAt_induction (fun _ _ _ stack held => held.completeBranch stack) indent sound

/-! ## Edits -/

theorem leaveChoices (sound : draft.Sound scope) (indent : Nat) :
    (draft.leaveChoices indent).Sound scope :=
  ⟨sound.graph, sound.complete⟩

theorem abandonDeepLines (sound : draft.Sound scope) (indent : Nat) :
    (draft.abandonDeepLines indent).Sound scope :=
  ⟨sound.graph, sound.complete⟩

theorem dedent (sound : draft.Sound scope) (indent : Nat) : (draft.dedent indent).Sound scope :=
  ⟨sound.graph, sound.complete⟩

theorem linkStrays (sound : draft.Sound scope) (ready : OpenNode → Bool) (line : LineIndex) :
    (draft.linkStrays ready line).Sound scope := by
  have linked := sound.graph.foldl_setNext OpenNode.id (draft.strays.takeWhile ready) line
  exact sound.of_branches_eq linked (draft.graph.branches_foldl_setNext OpenNode.id _ line) rfl

theorem endChoice (sound : draft.Sound scope) (choice : OpenNode) :
    (draft.endChoice choice).Sound scope := by
  apply sound.of_branches_eq
  · apply (sound.graph.addLine (Line.sound_relay _)).modifyChoice
    intro held heldSound
    exact ⟨heldSound.commands, heldSound.conditions, heldSound.branch⟩
  · rfl
  · rfl

theorem settleChoice (sound : draft.Sound scope) (indent : Nat) :
    (draft.settleChoice indent).Sound scope := by
  unfold Draft.settleChoice
  split
  · split
    · split
      · have ended := sound.endChoice ‹OpenNode›
        exact ⟨ended.graph, ended.complete⟩
      · exact sound
    · exact sound
  · exact sound

theorem finishBodiless (sound : draft.Sound scope) : draft.finishBodiless.Sound scope := by
  unfold Draft.finishBodiless
  split
  · split
    · rename_i bodiless outer _
      have popped : Draft.Sound scope { draft with choices := outer } :=
        ⟨sound.graph, sound.complete⟩
      exact popped.endChoice bodiless
    · exact sound
  · exact sound

theorem makeRoom (sound : draft.Sound scope) (indent : Nat) :
    (draft.makeRoom indent).Sound scope :=
  (sound.settleChoice indent).closeBranchAt indent

theorem addLine (sound : draft.Sound scope) {line : Line}
    (lineSound : line.Sound scope draft.graph.branches.size) : (draft.addLine line).Sound scope :=
  sound.of_branches_eq (sound.graph.addLine lineSound) rfl rfl

theorem addChoiceUnder (sound : draft.Sound scope) {choice : Choice}
    (choiceSound : choice.Sound scope draft.graph.branches.size) :
    (draft.addChoiceUnder choice).Sound scope := by
  apply sound.of_branches_eq
  · apply (sound.graph.addChoice choiceSound).modifyLine
    intro line lineSound
    exact ⟨lineSound.commands, lineSound.branch⟩
  · rfl
  · rfl

theorem offer (sound : draft.Sound scope) {choice : Choice}
    (choiceSound : choice.Sound scope draft.graph.branches.size) (terminal : Bool)
    (indent : Nat) : (draft.offer choice terminal indent).Sound scope := by
  have settled := ((sound.addChoiceUnder choiceSound).finishBodiless).leaveChoices indent
  unfold Draft.offer
  split
  · exact settled
  · exact ⟨settled.graph, settled.complete⟩

theorem attachBranch (sound : draft.Sound scope) (title : String) {branch : BranchIndex}
    (known : branch < draft.graph.branches.size) :
    (draft.attachBranch title branch).Sound scope := by
  unfold Draft.attachBranch
  split
  · have relay : Line.Sound scope draft.graph.branches.size { Line.relay with branch := branch } :=
      (Line.sound_relay _).withBranch known
    exact sound.of_branches_eq ((sound.graph.addLine relay).addEntry title _) rfl rfl
  · split
    · apply sound.of_branches_eq
      · apply sound.graph.modifyChoice
        intro choice choiceSound
        exact choiceSound.withBranch known
      · rfl
      · rfl
    · exact sound
  -- After anything else the branch belongs to the innermost waiting line.
  all_goals
    split
    · apply sound.of_branches_eq
      · apply sound.graph.modifyLine
        intro line lineSound
        exact lineSound.withBranch known
      · rfl
      · rfl
    · exact sound

/-- A new branch is open. -/
theorem openBranch (sound : draft.Sound scope) (title : String) {conditions : List Call}
    (accepted : ∀ call ∈ conditions, scope.AcceptsCondition call) (indent : Nat) :
    (draft.openBranch title conditions indent).Sound scope := by
  have graphSound := sound.graph.addBranch (Branch.sound_singleton accepted)
  have added : Draft.Sound scope { draft with
      graph := draft.graph.addBranch ⟨[⟨conditions, none⟩]⟩
      branches := ⟨draft.graph.branches.size, indent⟩ :: draft.branches } := by
    constructor
    · exact graphSound
    intro id known
    by_cases same : id = draft.graph.branches.size
    · exact Or.inr ⟨_, List.mem_cons_self, same.symm⟩
    · have older : id < draft.graph.branches.size := by
        have le : id < draft.graph.branches.size + 1 := by simpa using known
        exact Nat.lt_of_le_of_ne (Nat.le_of_lt_succ le) same
      show (Graph.branch _ id).isExhaustive = true ∨ _
      rw [Graph.branch_addBranch, if_neg same]
      rcases sound.complete id older with exhaustive | ⟨node, member, nodeEq⟩
      · exact Or.inl exhaustive
      · exact Or.inr ⟨node, List.mem_cons_of_mem _ member, nodeEq⟩
  have newest : draft.graph.branches.size <
      (draft.graph.addBranch ⟨[⟨conditions, none⟩]⟩).branches.size := by simp
  have done := (added.attachBranch title newest).dedent indent
  exact ⟨done.graph, done.complete⟩

/-- An open branch in which every arm asks for something may get any arm. -/
theorem extendBranch (sound : draft.Sound scope) {branch : BranchIndex}
    (incomplete : (draft.graph.branch branch).isExhaustive = false)
    (opened : ∃ node ∈ draft.branches, node.id = branch) {conditions : List Call}
    (accepted : ∀ call ∈ conditions, scope.AcceptsCondition call) (indent : Nat) :
    (draft.extendBranch branch conditions indent).Sound scope := by
  have added : Draft.Sound scope { draft with
      graph := draft.graph.modifyBranch branch fun held => held.addArm conditions none } := by
    constructor
    · apply sound.graph.modifyBranch branch
      intro known
      exact (sound.graph.branches branch known).addArm incomplete accepted none
    · intro id known
      have knownBefore : id < draft.graph.branches.size := by simpa using known
      show (Graph.branch _ id).isExhaustive = true ∨ _
      by_cases same : branch = id
      · exact Or.inr (same ▸ opened)
      · rw [Graph.branch_modifyBranch_eq, if_neg (fun both => same both.1)]
        exact sound.complete id knownBefore
  have done := added.dedent indent
  exact ⟨done.graph, done.complete⟩

theorem attachSpeech (sound : draft.Sound scope) {title : String} {id : LineIndex} {indent : Nat}
    (attached : draft.attachSpeech title id indent = .ok next) : next.Sound scope := by
  unfold Draft.attachSpeech at attached
  split at attached
  · cases attached
    exact sound
  · cases attached
    exact sound.of_branches_eq (sound.graph.addEntry title id) rfl rfl
  · split at attached
    · cases attached
    · cases attached
      apply linkStrays
      exact sound.of_branches_eq (sound.graph.setNext _ id) rfl rfl
  · split at attached
    · cases attached
      apply sound.of_branches_eq
      · apply sound.graph.modifyChoice
        intro choice choiceSound
        exact ⟨choiceSound.commands, choiceSound.conditions, choiceSound.branch⟩
      · rfl
      · rfl
    · cases attached
      exact sound
  · split at attached
    · rename_i branch _ _
      cases attached
      apply sound.of_isExhaustive_eq
      · apply sound.graph.modifyBranch
        intro known
        exact (sound.graph.branches _ known).of_conditions_eq (Branch.conditions_setLastBody _ id)
      · exact Graph.size_branches_modifyBranch _ _ _
      · intro other
        show (Graph.branch _ other).isExhaustive = _
        rw [Graph.branch_modifyBranch_eq]
        split
        · exact Branch.isExhaustive_eq_of_conditions_eq (Branch.conditions_setLastBody _ id)
        · rfl
      · rfl
    · cases attached
      exact sound

theorem directSpeech (sound : draft.Sound scope) {id : LineIndex} {indent depth : Nat}
    (directed : draft.directSpeech id indent depth = .ok next) : next.Sound scope := by
  unfold Draft.directSpeech at directed
  split at directed
  · cases directed
    exact ⟨sound.graph, sound.complete⟩
  · split at directed
    · cases directed
    · cases directed
      exact sound.of_branches_eq (sound.graph.setNext id _) rfl rfl

theorem gatherStrays (sound : draft.Sound scope) (id : LineIndex) (indent : Nat) :
    (draft.gatherStrays id indent).Sound scope := by
  unfold Draft.gatherStrays
  split
  · exact sound.linkStrays _ id
  · exact sound

/-! ## Steps and runs -/

theorem accepts_of_readBlock {block : Option Text.Chars} {commands : List Call}
    (read : readBlock scope block = .ok commands) : ∀ call ∈ commands, scope.Accepts call := by
  cases block with
  | none =>
      cases read
      simp
  | some block => exact Scope.accepts_of_readCommands read

theorem acceptsCondition_of_readGuard {source : Option Text.Chars} {conditions : List Call}
    (read : readGuard scope source = .ok conditions) :
    ∀ call ∈ conditions, scope.AcceptsCondition call := by
  cases source with
  | none =>
      cases read
      simp
  | some source => exact Scope.acceptsCondition_of_readConditions read

theorem stepTitle (sound : draft.Sound scope) {statement : Statement}
    (read : draft.stepTitle statement = .ok next) : next.Sound scope := by
  obtain ⟨title, -, -, -, rfl⟩ := stepTitle_eq_ok_iff.mp read
  have closed := sound.closeDialogue
  constructor
  · exact closed.graph
  · intro id known
    rcases closed.complete id known with exhaustive | ⟨node, member, _⟩
    · exact Or.inl exhaustive
    · rw [branches_closeDialogue] at member
      cases member

theorem stepOption (sound : draft.Sound scope) {statement : Statement}
    (read : draft.stepOption scope statement = .ok next) : next.Sound scope := by
  obtain ⟨option, commands, conditions, root, -, readCommands, readConditions, -, rfl⟩ :=
    stepOption_eq_ok_iff.mp read
  apply (sound.abandonDeepLines statement.indent).offer
  exact Choice.sound_fresh _ _ _ (acceptsCondition_of_readGuard readConditions)
    (accepts_of_readBlock readCommands)

theorem stepIfArm (sound : draft.Sound scope) {statement : Statement}
    (read : draft.stepIfArm scope statement = .ok next) : next.Sound scope := by
  obtain ⟨title, source, conditions, -, -, -, readConditions, rfl⟩ :=
    stepIfArm_eq_ok_iff.mp read
  exact sound.openBranch title (Scope.acceptsCondition_of_readConditions readConditions) _

theorem stepElseArm (sound : draft.Sound scope) {statement : Statement}
    (read : draft.stepElseArm scope statement = .ok next) : next.Sound scope := by
  obtain ⟨source, branch, conditions, -, found, fits, readConditions, rfl⟩ :=
    stepElseArm_eq_ok_iff.mp read
  apply sound.extendBranch
  · exact incomplete_of_checkElseArm fits
  · exact exists_of_branchAt found
  · exact acceptsCondition_of_readGuard readConditions

theorem stepSpeech (sound : draft.Sound scope) {statement : Statement}
    (read : draft.stepSpeech scope statement = .ok next) : next.Sound scope := by
  obtain ⟨title, speech, commands, attached, directed, -, -, -, readCommands, attach, direct,
    rfl⟩ := stepSpeech_eq_ok_iff.mp read
  have roomy := sound.makeRoom statement.indent
  have lineSound : (Line.spoken speech.speaker speech.text speech.expression commands).Sound scope
      (draft.makeRoom statement.indent).graph.branches.size :=
    ⟨accepts_of_readBlock readCommands, by simp [Line.spoken]⟩
  have attachedSound := (roomy.addLine lineSound).attachSpeech attach
  have directedSound := (attachedSound.dedent statement.indent).directSpeech direct
  have gathered := directedSound.gatherStrays (draft.makeRoom statement.indent).graph.lines.size
    statement.indent
  exact ⟨gathered.graph, gathered.complete⟩

/-- Reading a statement keeps a draft sound. -/
theorem step (sound : draft.Sound scope) {statement : Statement}
    (read : draft.step scope statement = .ok next) : next.Sound scope := by
  have closed := sound.closeDeepBranches statement.indent
  unfold Draft.step at read
  split at read
  · exact closed.stepTitle read
  · exact closed.stepOption read
  · exact closed.stepIfArm read
  · exact closed.stepElseArm read
  · exact closed.stepSpeech read

/-- Reading statements keeps a draft sound. -/
theorem stepAll (sound : draft.Sound scope) {statements : List Statement}
    (read : draft.stepAll scope statements = .ok next) : next.Sound scope := by
  induction statements generalizing draft with
  | nil =>
      cases read
      exact sound
  | cons statement rest ih =>
      obtain ⟨middle, first, others⟩ := stepAll_cons_eq_ok_iff.mp read
      exact ih (sound.step first) others

/-- Where all dialogues are closed, every branch is complete. -/
theorem exhaustive_closeDialogue (sound : draft.Sound scope) :
    ∀ id < draft.closeDialogue.graph.branches.size,
      (draft.closeDialogue.graph.branch id).isExhaustive = true := by
  intro id known
  rcases sound.closeDialogue.complete id known with exhaustive | ⟨node, member, _⟩
  · exact exhaustive
  · rw [branches_closeDialogue] at member
    cases member

end Draft.Sound

end Parley
