import Parley.Proofs.Draft.Nested
import Parley.Proofs.Graph.Links

/-!
# Links lead forward

Whatever a statement links to is a line that it has just made, so every link leads to a later
line.  Only return markers lead back: a line with return markers is followed by the root of a
choice around it.
-/

namespace Parley

open Parley.Script

namespace Draft

variable {scope : Scope} {draft before after : Draft} {statement : Statement}
  {excused : LineIndex → Prop}

/-- A line that has return markers, when it is read. -/
def MarkedBy (draft : Draft) (statement : Statement) (id : LineIndex) : Prop :=
  statement.construct = .speech ∧ id = (draft.roomFor statement).graph.lines.size ∧
    ∃ speech, Speech.read statement.content = .ok speech ∧ speech.returnDepth ≠ 0

/-! ## Closing -/

/-- A default arm leads to its relay. -/
theorem grows_completeBranch (draft : Draft) (branch : OpenNode) (outer : List OpenNode) :
    Graph.Grows excused draft.graph
      ({ draft with branches := outer }.completeBranch branch).graph := by
  unfold completeBranch
  split
  · exact Graph.Grows.refl excused draft.graph
  · have newest : (draft.graph.addLine Line.relay).IsNewest draft.graph.lines.size :=
      Graph.IsNewest.addLine rfl rfl
    exact (Graph.Grows.addRelay draft.graph).trans
      (Graph.Grows.modifyBranch newest fun _ _ => Branch.leadsTo_addArm_some)

theorem grows_of_closes (closes : before.Closes after) :
    Graph.Grows excused before.graph after.graph := by
  induction closes with
  | refl => exact Graph.Grows.refl excused before.graph
  | close _ _ ih => exact ih.trans (grows_completeBranch _ _ _)

/-! ## Choices -/

/-- A choice without a body leads to its relay. -/
theorem grows_endChoice (draft : Draft) (choice : OpenNode) :
    Graph.Grows excused draft.graph (draft.endChoice choice).graph := by
  have newest : (draft.graph.addLine Line.relay).IsNewest draft.graph.lines.size :=
    Graph.IsNewest.addLine rfl rfl
  exact (Graph.Grows.addRelay draft.graph).trans (Graph.Grows.modifyChoice_next newest)

theorem grows_settleChoice (draft : Draft) (indent : Nat) :
    Graph.Grows excused draft.graph (draft.settleChoice indent).graph := by
  unfold settleChoice
  split
  · split
    · split
      · exact draft.grows_endChoice _
      · exact Graph.Grows.refl excused draft.graph
    · exact Graph.Grows.refl excused draft.graph
  · exact Graph.Grows.refl excused draft.graph

theorem grows_finishBodiless (draft : Draft) :
    Graph.Grows excused draft.graph draft.finishBodiless.graph := by
  unfold finishBodiless
  split
  · split
    · exact grows_endChoice { draft with choices := _ } _
    · exact Graph.Grows.refl excused draft.graph
  · exact Graph.Grows.refl excused draft.graph

theorem grows_makeRoom (draft : Draft) (indent : Nat) :
    Graph.Grows excused draft.graph (draft.makeRoom indent).graph :=
  (draft.grows_settleChoice indent).trans (grows_of_closes (closes_closeBranchAt _ indent))

/-- A choice that is offered leads nowhere yet. -/
theorem grows_offer (draft : Draft) (text : String) (conditions commands : List Call)
    (root : LineIndex) (terminal : Bool) (indent : Nat) :
    Graph.Grows excused draft.graph
      (draft.offer (Choice.fresh text conditions commands root) terminal indent).graph := by
  let offered := Choice.fresh text conditions commands root
  have added : Graph.Grows excused draft.graph (draft.graph.addChoice offered) :=
    Graph.Grows.addChoice draft.graph rfl rfl
  have listed : Graph.Grows excused (draft.graph.addChoice offered)
      (draft.addChoiceUnder offered).graph := by
    apply Graph.Grows.modifyLine_choices
    · rw [Graph.choice_addChoice_size]
      rfl
    · rw [Graph.choice_addChoice_size]
      rfl
  rw [graph_offer]
  exact (added.trans listed).trans (grows_finishBodiless _)

/-! ## Branches -/

/-- A branch that is attached has no bodies yet. -/
theorem grows_attachBranch (draft : Draft) (title : String) {branch : BranchIndex}
    (bodiless : (draft.graph.branch branch).IsBodiless) :
    Graph.Grows excused draft.graph (draft.attachBranch title branch).graph := by
  unfold attachBranch
  split
  · have relayed : Graph.Grows excused draft.graph
        (draft.graph.addLine { Line.relay with branch := some branch }) := by
      apply Graph.Grows.addLine draft.graph rfl _ rfl
      intro other same
      exact Option.some.inj same ▸ bodiless
    exact relayed.trans (Graph.Grows.of_nodes_eq rfl rfl rfl)
  · split
    · exact Graph.Grows.modifyChoice_branch draft.graph bodiless
    · exact Graph.Grows.refl excused draft.graph
  all_goals
    split
    · exact Graph.Grows.modifyLine_branch draft.graph bodiless
    · exact Graph.Grows.refl excused draft.graph

theorem grows_openBranch (draft : Draft) (title : String) (conditions : List Call)
    (indent : Nat) :
    Graph.Grows excused draft.graph (draft.openBranch title conditions indent).graph := by
  have bodiless : Branch.IsBodiless ⟨[⟨conditions, none⟩]⟩ := by
    rintro target ⟨arm, member, leads⟩
    rw [List.mem_singleton.mp member] at leads
    cases leads
  have added : Graph.Grows excused draft.graph (draft.graph.addBranch ⟨[⟨conditions, none⟩]⟩) :=
    Graph.Grows.addBranch draft.graph bodiless
  refine added.trans (grows_attachBranch { draft with
    graph := draft.graph.addBranch ⟨[⟨conditions, none⟩]⟩
    branches := ⟨draft.graph.branches.size, indent⟩ :: draft.branches } title ?_)
  rw [Graph.branch_addBranch_size]
  exact bodiless

theorem grows_extendBranch (draft : Draft) (branch : BranchIndex) (conditions : List Call)
    (indent : Nat) :
    Graph.Grows excused draft.graph (draft.extendBranch branch conditions indent).graph :=
  Graph.Grows.modifyBranch_bodiless draft.graph fun _ _ => Branch.leadsTo_addArm_none

/-! ## Spoken lines -/

/-- Everything that a new line follows leads forward to it. -/
theorem grows_attachSpeech {title : String} {id : LineIndex} {indent : Nat}
    (newest : draft.graph.IsNewest id) (earlier : ∀ node ∈ draft.waitingNodes, node.id < id)
    (attached : draft.attachSpeech title id indent = .ok after) :
    Graph.Grows excused draft.graph after.graph ∧ ∀ node ∈ after.waitingNodes, node.id < id := by
  unfold attachSpeech at attached
  split at attached
  · cases attached
    exact ⟨Graph.Grows.refl excused _, earlier⟩
  · cases attached
    exact ⟨Graph.Grows.of_nodes_eq rfl rfl rfl, earlier⟩
  · split at attached
    · cases attached
    · rename_i top waiting stack
      cases attached
      have topEarlier : top.id < id := by
        apply earlier
        rw [waitingNodes, stack]
        exact List.mem_cons_self
      have strays : ∀ node ∈ draft.strays, node.id < id :=
        fun node member => earlier node (List.mem_append_right _ member)
      have linked : Graph.Grows excused draft.graph (draft.graph.setNext top.id id) :=
        Graph.Grows.setNext draft.graph (Or.inl ⟨topEarlier, newest.lt_size⟩)
      refine ⟨linked.trans (Graph.Grows.foldl_setNext OpenNode.id _ _ ?_ ?_), ?_⟩
      · rw [Graph.size_lines_setNext]
        exact newest.lt_size
      · intro stray member
        exact strays stray ((List.takeWhile_sublist _).mem member)
      · intro node member
        rcases List.mem_append.mp member with open' | stray
        · apply earlier
          rw [waitingNodes, stack]
          exact List.mem_append_left _ (List.mem_cons_of_mem _ open')
        · exact strays node ((List.dropWhile_sublist _).mem stray)
  · split at attached
    · cases attached
      exact ⟨Graph.Grows.modifyChoice_next newest, earlier⟩
    · cases attached
      exact ⟨Graph.Grows.refl excused _, earlier⟩
  · split at attached
    · cases attached
      exact ⟨Graph.Grows.modifyBranch newest fun _ _ => Branch.leadsTo_setLastBody, earlier⟩
    · cases attached
      exact ⟨Graph.Grows.refl excused _, earlier⟩

/-- Return markers lead where they lead; without them a new line leads nowhere yet. -/
theorem grows_directSpeech {id : LineIndex} {indent depth : Nat} (marks : depth ≠ 0 → excused id)
    (directed : draft.directSpeech id indent depth = .ok after) :
    Graph.Grows excused draft.graph after.graph ∧ after.strays = draft.strays := by
  unfold directSpeech at directed
  split at directed
  · cases directed
    exact ⟨Graph.Grows.refl excused _, rfl⟩
  · rename_i marked
    split at directed
    · cases directed
    · cases directed
      exact ⟨Graph.Grows.setNext draft.graph (Or.inr (marks marked)), rfl⟩

theorem grows_gatherStrays (draft : Draft) {id : LineIndex} (indent : Nat)
    (known : id < draft.graph.lines.size) (earlier : ∀ node ∈ draft.strays, node.id < id) :
    Graph.Grows excused draft.graph (draft.gatherStrays id indent).graph := by
  unfold gatherStrays
  split
  · apply Graph.Grows.foldl_setNext OpenNode.id _ _ known
    exact fun stray member => earlier stray ((List.takeWhile_sublist _).mem member)
  · exact Graph.Grows.refl excused draft.graph

/-- A dedent leaves only waiting lines behind. -/
theorem strays_dedent_lt {id : LineIndex} (indent : Nat)
    (earlier : ∀ node ∈ draft.waitingNodes, node.id < id) :
    ∀ stray ∈ (draft.dedent indent).strays, stray.id < id := by
  intro stray member
  have moved := (draft.waitingNodes_abandonDeepLines_perm indent).mem_iff.mp
    (List.mem_append_right _ member)
  exact earlier stray moved

/-- A spoken line makes links to itself only, but for its return markers. -/
theorem grows_stepSpeech (orderly : draft.Orderly)
    (marks : ∀ speech, Speech.read statement.content = .ok speech → speech.returnDepth ≠ 0 →
      excused (draft.makeRoom statement.indent).graph.lines.size)
    (read : draft.stepSpeech scope statement = .ok after) :
    Graph.Grows excused draft.graph after.graph := by
  obtain ⟨title, speech, commands, attached, directed, -, -, readSpeech, -, attach, direct, rfl⟩ :=
    stepSpeech_eq_ok_iff.mp read
  let room := draft.makeRoom statement.indent
  let line := Line.spoken speech.speaker speech.text speech.expression commands
  have roomOrderly : room.Orderly := (Extends.makeRoom draft statement.indent).orderly orderly
  have newest : (room.addLine line).graph.IsNewest room.graph.lines.size :=
    Graph.IsNewest.addLine rfl rfl
  have waiting : ∀ node ∈ (room.addLine line).waitingNodes, node.id < room.graph.lines.size :=
    fun node member => roomOrderly.known node.id (List.mem_map.mpr ⟨node, member, rfl⟩)
  have added : Graph.Grows excused draft.graph (room.addLine line).graph :=
    (draft.grows_makeRoom statement.indent).trans
      (Graph.Grows.addLine room.graph rfl (fun _ branched => by cases branched) rfl)
  obtain ⟨attachGrows, attachEarlier⟩ :
      Graph.Grows excused (room.addLine line).graph attached.graph ∧
        ∀ node ∈ attached.waitingNodes, node.id < room.graph.lines.size :=
    grows_attachSpeech newest waiting attach
  obtain ⟨directGrows, directStrays⟩ := grows_directSpeech (marks speech readSpeech) direct
  refine ((added.trans attachGrows).trans directGrows).trans
    (directed.grows_gatherStrays statement.indent ?_ ?_)
  · exact Nat.lt_of_lt_of_le newest.lt_size (attachGrows.trans directGrows).size
  · intro stray member
    rw [directStrays] at member
    exact strays_dedent_lt statement.indent attachEarlier stray member

/-- Every link that a statement makes leads to a later line, but for return markers. -/
theorem grows_of_step (orderly : before.Orderly) (read : before.step scope statement = .ok after) :
    Graph.Grows (before.MarkedBy statement) before.graph after.graph := by
  have closed : Graph.Grows (before.MarkedBy statement) before.graph
      (before.closeDeepBranches statement.indent).graph :=
    grows_of_closes (before.closes_closeDeepBranches statement.indent)
  apply closed.trans
  unfold step at read
  split at read
  · obtain ⟨title, -, -, -, rfl⟩ := stepTitle_eq_ok_iff.mp read
    let middle := before.closeDeepBranches statement.indent
    show Graph.Grows _ middle.graph middle.closeDialogue.graph
    exact grows_of_closes middle.closes_closeDialogue
  · obtain ⟨option, commands, conditions, root, -, -, -, -, rfl⟩ := stepOption_eq_ok_iff.mp read
    exact grows_offer (abandonDeepLines _ statement.indent) _ _ _ _ _ _
  · obtain ⟨title, source, conditions, -, -, -, -, rfl⟩ := stepIfArm_eq_ok_iff.mp read
    exact grows_openBranch _ _ _ _
  · obtain ⟨source, branch, conditions, -, -, -, -, rfl⟩ := stepElseArm_eq_ok_iff.mp read
    exact grows_extendBranch _ _ _ _
  · rename_i construct
    have closedOrderly := (Extends.closeDeepBranches before statement.indent).orderly orderly
    apply grows_stepSpeech closedOrderly _ read
    exact fun speech readSpeech marked => ⟨construct, rfl, speech, readSpeech, marked⟩

end Draft

section Reading

variable (scope : Scope) (statements : List Statement)

/-- The statement at a place says something and carries a number of return markers. -/
def Marks (place count : Nat) : Prop :=
  ∃ statement speech, statements[place]? = some statement ∧ statement.construct = .speech ∧
    Speech.read statement.content = .ok speech ∧ speech.returnDepth = count

/-- The line of a statement with return markers. -/
def IsMarkedLine (id : LineIndex) : Prop :=
  ∃ place count, Marks statements place count ∧ 0 < count ∧ lineAt scope statements place = id

variable {scope statements} {final : Draft} {place : Nat} {statement : Statement}

theorem isMarkedLine_of_markedBy (read : Draft.empty.stepAll scope statements = .ok final)
    (found : statements[place]? = some statement) {id : LineIndex}
    (marked : (draftAfter scope statements place).MarkedBy statement id) :
    IsMarkedLine scope statements id := by
  obtain ⟨spoken, rfl, speech, readSpeech, marks⟩ := marked
  exact ⟨place, speech.returnDepth, ⟨statement, speech, found, spoken, readSpeech, rfl⟩,
    Nat.pos_of_ne_zero marks, lineAt_eq read found spoken⟩

/-- However many statements have been read, every link leads forward but the successors of marked
lines. -/
theorem forward_draftAfter (read : Draft.empty.stepAll scope statements = .ok final) {count : Nat}
    (within : count ≤ statements.length) :
    (draftAfter scope statements count).graph.Forward (IsMarkedLine scope statements) := by
  refine draftAfter_induction (motive := fun count =>
    (draftAfter scope statements count).graph.Forward (IsMarkedLine scope statements))
    read (Nat.zero_le count) within (Graph.Forward.empty _) ?_
  intro place statement _ _ found stepped soFar
  apply soFar.grow
  apply (Draft.grows_of_step (orderly_draftAfter place) stepped).mono
  exact fun id marked => isMarkedLine_of_markedBy read found marked

theorem forward_of_stepAll (read : Draft.empty.stepAll scope statements = .ok final) :
    final.closeDialogue.graph.Forward (IsMarkedLine scope statements) := by
  have soFar := forward_draftAfter read (Nat.le_refl statements.length)
  rw [draftAfter_length read] at soFar
  exact soFar.grow (Draft.grows_of_closes final.closes_closeDialogue)

end Reading

end Parley
