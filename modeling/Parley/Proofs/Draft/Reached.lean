import Parley.Proofs.Draft.Entries
import Parley.Proofs.Draft.Forward
import Parley.Proofs.Draft.Reading

/-!
# What leads to a line

A block begins with a line, or other lines go on with it.  Whatever is linked to a line that does
not lead back is linked to it by the statement that makes the line.  A spoken line that follows
another line begins no block, and the lines that go on with it are those that it has taken from
the lines that wait.
-/

namespace Parley

open Parley.Script

namespace Graph

/-- A block begins with a line: a dialogue, or the body of an arm or of a choice. -/
inductive BeginsBlock (graph : Graph) (id : LineIndex) : Prop
  | entry (title : String) (found : graph.entries.get? title = some id)
  | arm (branch : BranchIndex) (leads : (graph.branch branch).LeadsTo id)
  | choice (choice : ChoiceIndex) (leads : (graph.choice choice).next = some id)

/-- The blocks of a graph begin as they did before, or with its lines from a place on. -/
structure BeginsFrom (start : Nat) (before after : Graph) : Prop where
  size : before.lines.size ≤ after.lines.size
  block : ∀ id, after.BeginsBlock id → before.BeginsBlock id ∨ start ≤ id ∧ id < after.lines.size

namespace BeginsFrom

variable {start : Nat} {graph before middle after : Graph}

theorem trans (early : BeginsFrom start before middle) (late : BeginsFrom start middle after) :
    BeginsFrom start before after where
  size := Nat.le_trans early.size late.size
  block id begins := by
    rcases late.block id begins with old | new
    · exact (early.block id old).imp_right fun ⟨behind, known⟩ =>
        ⟨behind, Nat.lt_of_lt_of_le known late.size⟩
    · exact Or.inr new

/-- Lines alone begin no block. -/
theorem of_lines (size : before.lines.size ≤ after.lines.size)
    (entries : after.entries = before.entries) (branches : after.branches = before.branches)
    (choices : after.choices = before.choices) : BeginsFrom start before after where
  size := size
  block id begins := by
    cases begins with
    | entry title found => exact Or.inl (.entry title (entries ▸ found))
    | arm branch leads => exact Or.inl (.arm branch (branch_congr branches branch ▸ leads))
    | choice choice leads => exact Or.inl (.choice choice (choice_congr choices choice ▸ leads))

theorem refl (start : Nat) (graph : Graph) : BeginsFrom start graph graph :=
  of_lines (Nat.le_refl _) rfl rfl rfl

theorem addLine (start : Nat) (graph : Graph) (line : Line) :
    BeginsFrom start graph (graph.addLine line) :=
  of_lines (by rw [size_lines_addLine]; exact Nat.le_succ _) rfl rfl rfl

theorem addEntry (title : String) {line : LineIndex} (behind : start ≤ line)
    (known : line < graph.lines.size) : BeginsFrom start graph (graph.addEntry title line) where
  size := Nat.le_refl _
  block id begins := by
    cases begins with
    | entry other found =>
        replace found : (graph.entries.insert title line).get? other = some id := found
        rw [NameMap.get?_insert] at found
        split at found
        · cases found
          exact Or.inr ⟨behind, known⟩
        · exact Or.inl (.entry other found)
    | arm branch leads => exact Or.inl (.arm branch leads)
    | choice choice leads => exact Or.inl (.choice choice leads)

theorem modifyBranch (changed : BranchIndex) {change : Branch → Branch}
    (leads : ∀ branch target, (change branch).LeadsTo target →
      branch.LeadsTo target ∨ start ≤ target ∧ target < graph.lines.size) :
    BeginsFrom start graph (graph.modifyBranch changed change) where
  size := Nat.le_refl _
  block id begins := by
    cases begins with
    | entry title found => exact Or.inl (.entry title found)
    | arm branch leadsTo =>
        rw [branch_modifyBranch_eq] at leadsTo
        split at leadsTo
        · exact (leads _ id leadsTo).imp_left (.arm branch)
        · exact Or.inl (.arm branch leadsTo)
    | choice choice leads => exact Or.inl (.choice choice leads)

theorem addBranch (start : Nat) (graph : Graph) {branch : Branch} (bodiless : branch.IsBodiless) :
    BeginsFrom start graph (graph.addBranch branch) where
  size := Nat.le_refl _
  block id begins := by
    cases begins with
    | entry title found => exact Or.inl (.entry title found)
    | arm other leadsTo =>
        rw [branch_addBranch] at leadsTo
        split at leadsTo
        · exact absurd leadsTo (bodiless id)
        · exact Or.inl (.arm other leadsTo)
    | choice choice leads => exact Or.inl (.choice choice leads)

theorem modifyChoice (changed : ChoiceIndex) {change : Choice → Choice}
    (leads : ∀ choice target, (change choice).next = some target →
      choice.next = some target ∨ start ≤ target ∧ target < graph.lines.size) :
    BeginsFrom start graph (graph.modifyChoice changed change) where
  size := Nat.le_refl _
  block id begins := by
    cases begins with
    | entry title found => exact Or.inl (.entry title found)
    | arm branch leads => exact Or.inl (.arm branch leads)
    | choice choice leadsTo =>
        rw [choice_modifyChoice_eq] at leadsTo
        split at leadsTo
        · exact (leads _ id leadsTo).imp_left (.choice choice)
        · exact Or.inl (.choice choice leadsTo)

theorem addChoice (start : Nat) (graph : Graph) {choice : Choice} (unlinked : choice.next = none) :
    BeginsFrom start graph (graph.addChoice choice) where
  size := Nat.le_refl _
  block id begins := by
    cases begins with
    | entry title found => exact Or.inl (.entry title found)
    | arm branch leads => exact Or.inl (.arm branch leads)
    | choice other leadsTo =>
        rw [choice_addChoice] at leadsTo
        split at leadsTo
        · rw [unlinked] at leadsTo
          cases leadsTo
        · exact Or.inl (.choice other leadsTo)

theorem foldl_setNext (start : Nat) (graph : Graph) (changed : List OpenNode) (next : LineIndex) :
    BeginsFrom start graph
      (changed.foldl (fun graph node => graph.setNext node.id next) graph) := by
  induction changed generalizing graph with
  | nil => exact refl start graph
  | cons node rest ih =>
      have first : BeginsFrom start graph (graph.setNext node.id next) :=
        of_lines (Nat.le_of_eq (size_lines_setNext graph _ _).symm) rfl rfl rfl
      exact first.trans (ih _)

end BeginsFrom

end Graph

namespace Draft

variable {scope : Scope} {draft before after : Draft} {statement : Statement} {start : Nat}

/-! ## Closing -/

/-- A default arm begins with its relay. -/
theorem beginsFrom_completeBranch (branch : OpenNode) (outer : List OpenNode)
    (new : start ≤ draft.graph.lines.size) : Graph.BeginsFrom start draft.graph
      ({ draft with branches := outer }.completeBranch branch).graph := by
  unfold completeBranch
  split
  · exact .refl start draft.graph
  · refine (Graph.BeginsFrom.addLine start draft.graph .relay).trans ?_
    refine Graph.BeginsFrom.modifyBranch branch.id fun held target leads => ?_
    refine (Branch.leadsTo_addArm_some leads).imp_right fun isRelay => ?_
    rw [isRelay, Graph.size_lines_addLine]
    exact ⟨new, Nat.lt_succ_self _⟩

theorem beginsFrom_of_closes (new : start ≤ before.graph.lines.size)
    (closes : before.Closes after) : Graph.BeginsFrom start before.graph after.graph := by
  induction closes with
  | refl => exact .refl start before.graph
  | close _ _ ih =>
      exact ih.trans (beginsFrom_completeBranch _ _ (Nat.le_trans new ih.size))

/-- The body of a choice without one begins with its relay. -/
theorem beginsFrom_endChoice (choice : OpenNode) (new : start ≤ draft.graph.lines.size) :
    Graph.BeginsFrom start draft.graph (draft.endChoice choice).graph := by
  refine (Graph.BeginsFrom.addLine start draft.graph .relay).trans ?_
  refine Graph.BeginsFrom.modifyChoice choice.id fun held target leads => Or.inr ?_
  cases leads
  rw [Graph.size_lines_addLine]
  exact ⟨new, Nat.lt_succ_self _⟩

theorem beginsFrom_settleChoice (indent : Nat) (new : start ≤ draft.graph.lines.size) :
    Graph.BeginsFrom start draft.graph (draft.settleChoice indent).graph := by
  unfold settleChoice
  split
  · split
    · split
      · exact beginsFrom_endChoice _ new
      · exact .refl start draft.graph
    · exact .refl start draft.graph
  · exact .refl start draft.graph

theorem beginsFrom_finishBodiless (new : start ≤ draft.graph.lines.size) :
    Graph.BeginsFrom start draft.graph draft.finishBodiless.graph := by
  unfold finishBodiless
  split
  · rename_i latest
    rcases stack : draft.choices with _ | ⟨bodiless, outer⟩
    · exact .refl start draft.graph
    · have popped : start ≤ { draft with choices := outer }.graph.lines.size := new
      exact beginsFrom_endChoice bodiless popped
  · exact .refl start draft.graph

theorem beginsFrom_makeRoom (indent : Nat) (new : start ≤ draft.graph.lines.size) :
    Graph.BeginsFrom start draft.graph (draft.makeRoom indent).graph := by
  have settled := beginsFrom_settleChoice indent new
  exact settled.trans (beginsFrom_of_closes (Nat.le_trans new settled.size)
    (closes_closeBranchAt _ indent))

/-! ## Options and arms -/

/-- A choice that is offered has no body yet. -/
theorem beginsFrom_offer {choice : Choice} (unlinked : choice.next = none) (terminal : Bool)
    (indent : Nat) (new : start ≤ draft.graph.lines.size) :
    Graph.BeginsFrom start draft.graph (draft.offer choice terminal indent).graph := by
  have added := Graph.BeginsFrom.addChoice start draft.graph unlinked
  have listed : Graph.BeginsFrom start draft.graph (draft.addChoiceUnder choice).graph :=
    added.trans (.of_lines (Nat.le_of_eq (Graph.size_lines_modifyLine _ _ _).symm) rfl rfl rfl)
  rw [graph_offer]
  exact listed.trans (beginsFrom_finishBodiless (Nat.le_trans new listed.size))

/-- A dialogue that begins with a branch begins with the relay made for it. -/
theorem beginsFrom_attachBranch (title : String) (branch : BranchIndex)
    (new : start ≤ draft.graph.lines.size) :
    Graph.BeginsFrom start draft.graph (draft.attachBranch title branch).graph := by
  unfold attachBranch
  split
  · refine (Graph.BeginsFrom.addLine start draft.graph _).trans (.addEntry title new ?_)
    rw [Graph.size_lines_addLine]
    exact Nat.lt_succ_self _
  · split
    · exact .modifyChoice _ fun _ _ => Or.inl
    · exact .refl start draft.graph
  all_goals
    split
    · exact .of_lines (Nat.le_of_eq (Graph.size_lines_modifyLine _ _ _).symm) rfl rfl rfl
    · exact .refl start draft.graph

theorem beginsFrom_openBranch (title : String) (conditions : List Call) (indent : Nat)
    (new : start ≤ draft.graph.lines.size) :
    Graph.BeginsFrom start draft.graph (draft.openBranch title conditions indent).graph := by
  have bodiless : Branch.IsBodiless ⟨[⟨conditions, none⟩]⟩ := by
    rintro target ⟨arm, member, leads⟩
    rw [List.mem_singleton.mp member] at leads
    cases leads
  have added := Graph.BeginsFrom.addBranch start draft.graph bodiless
  let opened : Draft := { draft with
    graph := draft.graph.addBranch ⟨[⟨conditions, none⟩]⟩
    branches := ⟨draft.graph.branches.size, indent⟩ :: draft.branches }
  have openedNew : start ≤ opened.graph.lines.size := new
  exact added.trans (beginsFrom_attachBranch title draft.graph.branches.size openedNew)

/-! ## Spoken lines -/

/-- Behind a line a spoken line begins no block. -/
theorem beginsFrom_attachSpeech_of_line {title : String} {id : LineIndex} {indent : Nat}
    (start : Nat) (latest : draft.latest = .line)
    (attached : draft.attachSpeech title id indent = .ok after) :
    Graph.BeginsFrom start draft.graph after.graph := by
  unfold attachSpeech at attached
  simp only [latest] at attached
  split at attached
  · cases attached
  · cases attached
    refine Graph.BeginsFrom.trans ?_ (.foldl_setNext start _ _ id)
    exact .of_lines (Nat.le_of_eq (Graph.size_lines_setNext _ _ _).symm) rfl rfl rfl

/-- A spoken line may begin a block. -/
theorem beginsFrom_attachSpeech {title : String} {id : LineIndex} {indent : Nat}
    (behind : start ≤ id) (known : id < draft.graph.lines.size)
    (attached : draft.attachSpeech title id indent = .ok after) :
    Graph.BeginsFrom start draft.graph after.graph := by
  by_cases latest : draft.latest = .line
  · exact beginsFrom_attachSpeech_of_line start latest attached
  · unfold attachSpeech at attached
    split at attached
    · cases attached
      exact .refl start draft.graph
    · cases attached
      exact .addEntry title behind known
    · rename_i isLine
      exact absurd isLine latest
    · split at attached <;> cases attached
      · refine .modifyChoice _ fun held target leads => Or.inr ?_
        cases leads
        exact ⟨behind, known⟩
      · exact .refl start draft.graph
    · split at attached <;> cases attached
      · refine .modifyBranch _ fun held target leads => ?_
        refine (Branch.leadsTo_setLastBody leads).imp_right fun isNew => ?_
        rw [isNew]
        exact ⟨behind, known⟩
      · exact .refl start draft.graph

theorem beginsFrom_directSpeech {id : LineIndex} {indent depth : Nat} (start : Nat)
    (directed : draft.directSpeech id indent depth = .ok after) :
    Graph.BeginsFrom start draft.graph after.graph := by
  unfold directSpeech at directed
  split at directed
  · cases directed
    exact .refl start draft.graph
  · split at directed <;> cases directed
    exact .of_lines (Nat.le_of_eq (Graph.size_lines_setNext _ _ _).symm) rfl rfl rfl

theorem beginsFrom_gatherStrays (start : Nat) (draft : Draft) (id : LineIndex) (indent : Nat) :
    Graph.BeginsFrom start draft.graph (draft.gatherStrays id indent).graph := by
  unfold gatherStrays
  split
  · exact .foldl_setNext start _ _ id
  · exact .refl start draft.graph

/-- What a spoken line begins, it begins where it is attached; behind a line that is nothing. -/
theorem beginsFrom_stepSpeech (start : Nat) (read : draft.stepSpeech scope statement = .ok after)
    (begins : (draft.makeRoom statement.indent).latest = .line ∨
      start ≤ (draft.makeRoom statement.indent).graph.lines.size) :
    Graph.BeginsFrom start (draft.makeRoom statement.indent).graph after.graph := by
  obtain ⟨title, speech, commands, attached, directed, -, -, -, -, attach, direct, rfl⟩ :=
    stepSpeech_eq_ok_iff.mp read
  let room := draft.makeRoom statement.indent
  let line := Line.spoken speech.speaker speech.text speech.expression commands
  have attaches : Graph.BeginsFrom start (room.addLine line).graph attached.graph := by
    rcases begins with latest | behind
    · exact beginsFrom_attachSpeech_of_line start latest attach
    · refine beginsFrom_attachSpeech behind ?_ attach
      show room.graph.lines.size < (room.graph.addLine line).lines.size
      rw [Graph.size_lines_addLine]
      exact Nat.lt_succ_self _
  have placed := (Graph.BeginsFrom.addLine start room.graph line).trans attaches
  have directs : Graph.BeginsFrom start (attached.dedent statement.indent).graph directed.graph :=
    beginsFrom_directSpeech start direct
  exact (placed.trans directs).trans (beginsFrom_gatherStrays start directed _ _)

/-- Every block that a statement begins, it begins with a new line. -/
theorem beginsFrom_step (read : before.step scope statement = .ok after) :
    Graph.BeginsFrom before.graph.lines.size before.graph after.graph := by
  have closed := beginsFrom_of_closes (Nat.le_refl _)
    (before.closes_closeDeepBranches statement.indent)
  have new := closed.size
  unfold Draft.step at read
  dsimp only at read
  refine closed.trans ?_
  generalize before.closeDeepBranches statement.indent = middle at *
  split at read
  · obtain ⟨title, -, -, -, rfl⟩ := stepTitle_eq_ok_iff.mp read
    have ended := beginsFrom_of_closes new middle.closes_closeDialogue
    exact ⟨ended.size, ended.block⟩
  · obtain ⟨option, commands, conditions, root, -, -, -, -, rfl⟩ := stepOption_eq_ok_iff.mp read
    have left : before.graph.lines.size ≤
        (middle.abandonDeepLines statement.indent).graph.lines.size := new
    exact beginsFrom_offer rfl option.terminal statement.indent left
  · obtain ⟨title, source, conditions, -, -, -, -, rfl⟩ := stepIfArm_eq_ok_iff.mp read
    exact beginsFrom_openBranch title conditions statement.indent new
  · obtain ⟨source, branch, conditions, -, -, -, -, rfl⟩ := stepElseArm_eq_ok_iff.mp read
    exact .modifyBranch branch fun held target leads => Or.inl (Branch.leadsTo_addArm_none leads)
  · have room := beginsFrom_makeRoom statement.indent new
    exact room.trans (beginsFrom_stepSpeech _ read (Or.inr (Nat.le_trans new room.size)))

end Draft

section Reading

variable {scope : Scope} {statements : List Statement} {final : Draft} {place count : Nat}
  {statement : Statement} {id : LineIndex}

/-- Blocks begin with lines of the graph. -/
theorem lt_size_of_beginsBlock (read : Draft.empty.stepAll scope statements = .ok final)
    (within : count ≤ statements.length) :
    ∀ id, (draftAfter scope statements count).graph.BeginsBlock id →
      id < (draftAfter scope statements count).graph.lines.size := by
  refine draftAfter_induction (motive := fun count =>
    ∀ id, (draftAfter scope statements count).graph.BeginsBlock id →
      id < (draftAfter scope statements count).graph.lines.size)
    read (Nat.zero_le count) within ?_ ?_
  · intro id begins
    cases begins with
    | entry title found => cases found
    | arm branch leads =>
        obtain ⟨arm, member, -⟩ := leads
        cases member
    | choice choice leads => cases leads
  · intro place _ _ _ _ stepped soFar id begins
    have step := Draft.beginsFrom_step stepped
    rcases step.block id begins with old | new
    · exact Nat.lt_of_lt_of_le (soFar id old) step.size
    · exact new.2

/-- A spoken line that is read behind a line begins no block. -/
theorem not_beginsBlock_lineAt (read : Draft.empty.stepAll scope statements = .ok final)
    (found : statements[place]? = some statement) (spoken : statement.construct = .speech)
    (latest : ((draftAfter scope statements place).roomFor statement).latest = .line) :
    ¬ final.closeDialogue.graph.BeginsBlock (lineAt scope statements place) := by
  have within : place + 1 ≤ statements.length := (List.getElem?_eq_some_iff.mp found).1
  have stepped := step_draftAfter read found
  have known := lineAt_lt read found spoken
  have fresh : ¬ (draftAfter scope statements (place + 1)).graph.BeginsBlock
      (lineAt scope statements place) := by
    intro begins
    let closed := (draftAfter scope statements place).closeDeepBranches statement.indent
    have closes : Graph.BeginsFrom 0 (draftAfter scope statements place).graph closed.graph :=
      Draft.beginsFrom_of_closes (Nat.zero_le _) (Draft.closes_closeDeepBranches _ _)
    have room := closes.trans (Draft.beginsFrom_makeRoom statement.indent (Nat.zero_le _))
    unfold Draft.step at stepped
    simp only [spoken] at stepped
    have last := Draft.beginsFrom_stepSpeech
      (draftAfter scope statements (place + 1)).graph.lines.size stepped (Or.inl latest)
    rcases last.block _ begins with old | ⟨behind, -⟩
    · have older : lineAt scope statements place <
          ((draftAfter scope statements place).roomFor statement).graph.lines.size := by
        rcases room.block _ old with oldest | new
        · exact Nat.lt_of_lt_of_le
            (lt_size_of_beginsBlock read (Nat.le_of_succ_le within) _ oldest) room.size
        · exact new.2
      rw [lineAt_eq read found spoken] at older
      exact Nat.lt_irrefl _ older
    · exact Nat.not_lt_of_le behind known
  have stays : ¬ (draftAfter scope statements statements.length).graph.BeginsBlock
      (lineAt scope statements place) := by
    refine draftAfter_induction (motive := fun count =>
      ¬ (draftAfter scope statements count).graph.BeginsBlock (lineAt scope statements place))
      read within (Nat.le_refl _) fresh ?_
    intro later _ after _ _ steppedLater soFar begins
    rcases (Draft.beginsFrom_step steppedLater).block _ begins with old | ⟨behind, -⟩
    · exact soFar old
    · exact Nat.not_lt_of_le (Nat.le_trans (size_draftAfter_mono read after) behind) known
  rw [draftAfter_length read] at stays
  have knownLast : lineAt scope statements place < final.graph.lines.size := by
    rw [← draftAfter_length read]
    exact Nat.lt_of_lt_of_le known (size_draftAfter_mono read within)
  intro begins
  rcases (Draft.beginsFrom_of_closes (Nat.le_refl _) final.closes_closeDialogue).block _ begins with
    old | ⟨behind, -⟩
  · exact stays old
  · exact Nat.not_lt_of_le behind knownLast

/-- No statement links a line to another when both are there already. -/
theorem next_draftAfter_of_later (read : Draft.empty.stepAll scope statements = .ok final)
    {start : Nat} {target : LineIndex} (le : start ≤ count) (within : count ≤ statements.length)
    (known : id < (draftAfter scope statements start).graph.lines.size)
    (knownTarget : target < (draftAfter scope statements start).graph.lines.size) :
    ((draftAfter scope statements count).graph.line id).next = some target →
      ((draftAfter scope statements start).graph.line id).next = some target := by
  refine draftAfter_induction (motive := fun count =>
    ((draftAfter scope statements count).graph.line id).next = some target →
      ((draftAfter scope statements start).graph.line id).next = some target)
    read le within (fun linked => linked) ?_
  intro later statement after _ _ stepped soFar linked
  have mono := size_draftAfter_mono read after
  have advances := Draft.advances_of_step (orderly_draftAfter later) stepped
  rw [advances.next id (Nat.lt_of_lt_of_le known mono)] at linked
  split at linked
  · have roomy := ((draftAfter scope statements later).extends_roomFor statement).size
    rw [← Option.some.inj linked] at knownTarget
    exact absurd knownTarget (Nat.not_lt_of_le (Nat.le_trans mono roomy))
  · exact soFar linked

/-- Where a spoken line takes its place, no line leads beyond the lines that are there, unless it
leads back. -/
theorem next_roomFor_lt (read : Draft.empty.stepAll scope statements = .ok final)
    (within : place ≤ statements.length) {target : LineIndex}
    (unmarked : ¬ IsMarkedLine scope statements id)
    (linked : (((draftAfter scope statements place).roomFor statement).graph.line id).next =
      some target) :
    target < ((draftAfter scope statements place).roomFor statement).graph.lines.size := by
  have closes : Graph.Grows (IsMarkedLine scope statements)
      (draftAfter scope statements place).graph
      ((draftAfter scope statements place).closeDeepBranches statement.indent).graph :=
    Draft.grows_of_closes (Draft.closes_closeDeepBranches _ _)
  have forward := (forward_draftAfter read within).grow
    (closes.trans (Draft.grows_makeRoom _ statement.indent))
  exact (forward.next id target linked).elim And.right fun marked => absurd marked unmarked

/-- In the end a line goes on with the spoken line that follows it. -/
theorem Follows.next_eq (read : Draft.empty.stepAll scope statements = .ok final)
    (follows : Follows scope statements id place) :
    (final.closeDialogue.graph.line id).next = some (lineAt scope statements place) := by
  obtain ⟨statement, found, taken⟩ := follows
  have within : place + 1 ≤ statements.length := (List.getElem?_eq_some_iff.mp found).1
  have course := Course.of_room read found (Draft.construct_of_taken taken)
    (Draft.mem_waiting_of_taken taken)
  rw [course.next_eq_some_iff read (Nat.le_succ place) within]
  exact ⟨place, Nat.le_refl place, ⟨statement, found, taken⟩, rfl⟩

/-- In the end the lines that go on with a spoken line are those that it follows, and maybe some
that lead back to it. -/
theorem next_eq_lineAt_iff (read : Draft.empty.stepAll scope statements = .ok final)
    (found : statements[place]? = some statement) (spoken : statement.construct = .speech)
    (unmarked : ¬ IsMarkedLine scope statements id) :
    (final.closeDialogue.graph.line id).next = some (lineAt scope statements place) ↔
      Follows scope statements id place := by
  have within : place + 1 ≤ statements.length := (List.getElem?_eq_some_iff.mp found).1
  have stepped := step_draftAfter read found
  have known := lineAt_lt read found spoken
  let room := (draftAfter scope statements place).roomFor statement
  have isNew : lineAt scope statements place = room.graph.lines.size := lineAt_eq read found spoken
  constructor
  · intro linked
    have older : id < lineAt scope statements place := by
      rcases (forward_of_stepAll read).next _ _ linked with ⟨forward, -⟩ | marked
      · exact forward
      · exact absurd marked unmarked
    have knownThen := Nat.lt_trans older known
    have knownLast : id < final.graph.lines.size := by
      rw [← draftAfter_length read]
      exact Nat.lt_of_lt_of_le knownThen (size_draftAfter_mono read within)
    rw [(Draft.Extends.closeDialogue final).next id knownLast, ← draftAfter_length read] at linked
    have linkedThen := next_draftAfter_of_later read within (Nat.le_refl _) knownThen known linked
    unfold Draft.step at stepped
    simp only [spoken] at stepped
    obtain ⟨speech, commands, -, -, places⟩ := Draft.places_of_stepSpeech stepped
    rw [isNew] at older linkedThen
    have next : ((draftAfter scope statements (place + 1)).graph.line id).next =
        if id ∈ room.predecessors statement.indent then some room.graph.lines.size
        else (room.graph.line id).next := places.next id older
    rw [next] at linkedThen
    rw [follows_iff_mem_taken found, Draft.taken, if_pos spoken]
    split at linkedThen
    · assumption
    · have inside := next_roomFor_lt read (Nat.le_of_succ_le within) unmarked linkedThen
      exact absurd inside (Nat.lt_irrefl _)
  · exact fun follows => follows.next_eq read

end Reading

end Parley
