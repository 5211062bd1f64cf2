import Parley.Proofs.Draft.Choices

/-!
# What a script says and offers

Each spoken statement adds one spoken line to the graph and each option one choice, at the
end.  Every other line that is made is a relay, and every change of a node concerns its links.
So the graph says and offers what the script does, in its order.
-/

namespace Parley

open Parley.Script

/-- What a choice offers, without its links. -/
def Choice.unlinked (choice : Choice) : Choice :=
  { choice with next := none, branch := none, root := 0 }

/-- What no change of an item touches is the same in the list of all items. -/
theorem map_toList_modify {α β : Type} {view : α → β} {change : α → α}
    (keeps : ∀ item, view (change item) = view item) (items : Array α) (place : Nat) :
    (items.modify place change).toList.map view = items.toList.map view := by
  refine List.ext_getElem? fun index => ?_
  rw [Array.toList_modify, List.getElem?_map, List.getElem?_map, List.getElem?_modify]
  rcases items.toList[index]? with _ | item
  · rfl
  · by_cases changed : place = index <;> simp [changed, keeps]

namespace Graph

variable (graph : Graph)

/-- The spoken lines in their order, without their links. -/
def said : List Line :=
  (graph.lines.toList.map Line.unlinked).filter fun line => !line.isRelay

/-- The choices in their order, without their links. -/
def offered : List Choice :=
  graph.choices.toList.map Choice.unlinked

/-- What a graph says and offers. -/
def contents : List Line × List Choice :=
  (graph.said, graph.offered)

theorem contents_addLine {line : Line} (spoken : line.isRelay = false) :
    (graph.addLine line).contents = (graph.said ++ [line.unlinked], graph.offered) := by
  have kept : line.unlinked.isRelay = false := spoken
  simp [contents, said, offered, addLine, kept]

/-- Relays say nothing. -/
theorem contents_addRelay {line : Line} (relay : line.isRelay = true) :
    (graph.addLine line).contents = graph.contents := by
  have kept : line.unlinked.isRelay = true := relay
  simp [contents, said, offered, addLine, kept]

theorem contents_addChoice (choice : Choice) :
    (graph.addChoice choice).contents = (graph.said, graph.offered ++ [choice.unlinked]) := by
  simp [contents, said, offered, addChoice]

theorem contents_modifyLine {change : Line → Line}
    (keeps : ∀ line, (change line).unlinked = line.unlinked) (id : LineIndex) :
    (graph.modifyLine id change).contents = graph.contents := by
  rw [contents, said, modifyLine, map_toList_modify keeps]
  rfl

theorem contents_modifyChoice {change : Choice → Choice}
    (keeps : ∀ choice, (change choice).unlinked = choice.unlinked) (id : ChoiceIndex) :
    (graph.modifyChoice id change).contents = graph.contents := by
  rw [contents, offered, modifyChoice, map_toList_modify keeps]
  rfl

theorem contents_setNext (id next : LineIndex) :
    (graph.setNext id next).contents = graph.contents :=
  graph.contents_modifyLine (fun _ => by rfl) id

theorem contents_foldl_setNext (changed : List OpenNode) (next : LineIndex) :
    (changed.foldl (fun graph stray => graph.setNext stray.id next) graph).contents =
      graph.contents := by
  induction changed generalizing graph with
  | nil => rfl
  | cons stray rest ih => exact (ih _).trans (graph.contents_setNext stray.id next)

end Graph

namespace Draft

variable {scope : Scope} {draft before after : Draft} {statement : Statement}

/-! ## What is linked says the same -/

theorem contents_completeBranch (draft : Draft) (branch : OpenNode) (outer : List OpenNode) :
    ({ draft with branches := outer }.completeBranch branch).graph.contents =
      draft.graph.contents := by
  unfold completeBranch
  split
  · rfl
  · exact draft.graph.contents_addRelay Line.isRelay_relay

theorem contents_closeDeepBranches (draft : Draft) (indent : Nat) :
    (draft.closeDeepBranches indent).graph.contents = draft.graph.contents :=
  closeDeepBranches_keeps (fun draft => draft.graph.contents) contents_completeBranch draft indent

theorem contents_closeDialogue (draft : Draft) :
    draft.closeDialogue.graph.contents = draft.graph.contents :=
  closeDialogue_keeps (fun draft => draft.graph.contents) contents_completeBranch draft

theorem contents_endChoice (draft : Draft) (choice : OpenNode) :
    (draft.endChoice choice).graph.contents = draft.graph.contents :=
  ((draft.graph.addLine Line.relay).contents_modifyChoice (fun _ => by rfl) choice.id).trans
    (draft.graph.contents_addRelay Line.isRelay_relay)

theorem contents_makeRoom (draft : Draft) (indent : Nat) :
    (draft.makeRoom indent).graph.contents = draft.graph.contents := by
  refine (closeBranchAt_keeps (fun draft => draft.graph.contents) contents_completeBranch
    (draft.settleChoice indent) indent).trans ?_
  unfold settleChoice
  split
  · split
    · split
      · exact draft.contents_endChoice _
      · rfl
    · rfl
  · rfl

theorem contents_finishBodiless (draft : Draft) :
    draft.finishBodiless.graph.contents = draft.graph.contents := by
  unfold finishBodiless
  split
  · split
    · rename_i bodiless outer _
      exact contents_endChoice { draft with choices := outer } bodiless
    · rfl
  · rfl

theorem contents_offer (draft : Draft) (choice : Choice) (terminal : Bool) (indent : Nat) :
    (draft.offer choice terminal indent).graph.contents =
      (draft.graph.said, draft.graph.offered ++ [choice.unlinked]) := by
  rw [graph_offer, contents_finishBodiless]
  exact ((draft.graph.addChoice choice).contents_modifyLine (fun _ => by rfl) choice.root).trans
    (draft.graph.contents_addChoice choice)

theorem contents_attachBranch (draft : Draft) (title : String) (branch : BranchIndex) :
    (draft.attachBranch title branch).graph.contents = draft.graph.contents := by
  unfold attachBranch
  split
  · exact draft.graph.contents_addRelay rfl
  · split
    · exact draft.graph.contents_modifyChoice (fun _ => by rfl) _
    · rfl
  all_goals
    split
    · exact draft.graph.contents_modifyLine (fun _ => by rfl) _
    · rfl

theorem contents_attachSpeech {title : String} {id : LineIndex} {indent : Nat}
    (attached : draft.attachSpeech title id indent = .ok after) :
    after.graph.contents = draft.graph.contents := by
  unfold attachSpeech at attached
  split at attached
  · cases attached
    rfl
  · cases attached
    rfl
  all_goals split at attached <;> cases attached
  · exact (Graph.contents_foldl_setNext _ _ _).trans (draft.graph.contents_setNext _ _)
  · exact draft.graph.contents_modifyChoice (fun _ => by rfl) _
  all_goals rfl

theorem contents_directSpeech {id : LineIndex} {indent depth : Nat}
    (directed : draft.directSpeech id indent depth = .ok after) :
    after.graph.contents = draft.graph.contents := by
  unfold directSpeech at directed
  split at directed
  · cases directed
    rfl
  · split at directed <;> cases directed
    exact draft.graph.contents_setNext _ _

theorem contents_gatherStrays (draft : Draft) (id : LineIndex) (indent : Nat) :
    (draft.gatherStrays id indent).graph.contents = draft.graph.contents := by
  unfold gatherStrays
  split
  · exact draft.graph.contents_foldl_setNext _ _
  · rfl

/-! ## What statements say and offer -/

/-- The line that a spoken statement makes, without its links. -/
def lineOf (scope : Scope) (statement : Statement) : Except Fault Line := do
  let speech ← Speech.read statement.content
  let commands ← readBlock scope speech.block
  return Line.spoken speech.speaker speech.text speech.expression commands

/-- The choice that an option makes, without its links. -/
def choiceOf (scope : Scope) (statement : Statement) : Except Fault Choice := do
  let option ← OptionLine.read statement.content
  let commands ← readBlock scope option.block
  let conditions ← readGuard scope option.condition
  return Choice.fresh option.text conditions commands 0

/-- The lines that statements say, in their order. -/
def linesOf (scope : Scope) (statements : List Statement) : Except Fault (List Line) :=
  (statements.filter fun statement => statement.construct = .speech).mapM (lineOf scope)

/-- The choices that statements offer, in their order. -/
def choicesOf (scope : Scope) (statements : List Statement) : Except Fault (List Choice) :=
  (statements.filter fun statement => statement.construct = .option).mapM (choiceOf scope)

theorem contents_of_stepOption (read : draft.stepOption scope statement = .ok after) :
    ∃ choice, choiceOf scope statement = .ok choice ∧
      after.graph.contents = (draft.graph.said, draft.graph.offered ++ [choice]) := by
  obtain ⟨option, commands, conditions, root, readOption, readCommands, readConditions, -, rfl⟩ :=
    stepOption_eq_ok_iff.mp read
  refine ⟨Choice.fresh option.text conditions commands 0, ?_, ?_⟩
  · simp only [choiceOf, bind_eq_ok_iff]
    exact ⟨option, readOption, commands, readCommands, conditions, readConditions, rfl⟩
  · exact contents_offer _ _ _ _

theorem contents_of_stepSpeech (read : draft.stepSpeech scope statement = .ok after) :
    ∃ line, lineOf scope statement = .ok line ∧
      after.graph.contents = (draft.graph.said ++ [line], draft.graph.offered) := by
  obtain ⟨title, speech, commands, attached, directed, -, -, readSpeech, readCommands, attach,
    direct, rfl⟩ := stepSpeech_eq_ok_iff.mp read
  let line := Line.spoken speech.speaker speech.text speech.expression commands
  let room := draft.makeRoom statement.indent
  refine ⟨line, ?_, ?_⟩
  · simp only [lineOf, bind_eq_ok_iff]
    exact ⟨speech, readSpeech, commands, readCommands, rfl⟩
  · have same : room.graph.contents = draft.graph.contents := draft.contents_makeRoom _
    calc
      (directed.gatherStrays _ _).graph.contents
          = directed.graph.contents := directed.contents_gatherStrays _ _
      _ = (attached.dedent statement.indent).graph.contents := contents_directSpeech direct
      _ = attached.graph.contents := rfl
      _ = (room.addLine line).graph.contents := contents_attachSpeech attach
      _ = (room.graph.said ++ [line], room.graph.offered) := room.graph.contents_addLine rfl
      _ = (draft.graph.said ++ [line], draft.graph.offered) := by
        rw [show room.graph.said = draft.graph.said from congrArg Prod.fst same,
          show room.graph.offered = draft.graph.offered from congrArg Prod.snd same]

/-- A statement adds what it says or offers, and nothing else. -/
theorem contents_of_step (read : before.step scope statement = .ok after) :
    ∃ lines choices, linesOf scope [statement] = .ok lines ∧
      choicesOf scope [statement] = .ok choices ∧
      after.graph.contents = (before.graph.said ++ lines, before.graph.offered ++ choices) := by
  let closed := before.closeDeepBranches statement.indent
  have same : closed.graph.contents = before.graph.contents :=
    before.contents_closeDeepBranches statement.indent
  have said : closed.graph.said = before.graph.said := congrArg Prod.fst same
  have offered : closed.graph.offered = before.graph.offered := congrArg Prod.snd same
  have silent : ∀ other : Draft, other.graph.contents = closed.graph.contents →
      other.graph.contents = (before.graph.said ++ [], before.graph.offered ++ []) := by
    intro other kept
    rw [kept, same, List.append_nil, List.append_nil, Graph.contents]
  unfold step at read
  split at read <;> rename_i construct <;>
    simp only [linesOf, choicesOf, List.filter_cons, List.filter_nil, construct]
  · obtain ⟨title, -, -, -, rfl⟩ := stepTitle_eq_ok_iff.mp read
    exact ⟨[], [], rfl, rfl, silent _ closed.contents_closeDialogue⟩
  · obtain ⟨choice, readChoice, contents⟩ := contents_of_stepOption read
    refine ⟨[], [choice], rfl, ?_, ?_⟩
    · exact mapM_cons_eq_ok_iff.mpr ⟨choice, [], readChoice, rfl, rfl⟩
    · rw [contents, said, offered, List.append_nil]
  · obtain ⟨title, source, conditions, -, -, -, -, rfl⟩ := stepIfArm_eq_ok_iff.mp read
    exact ⟨[], [], rfl, rfl, silent _ (contents_attachBranch _ _ _)⟩
  · obtain ⟨source, branch, conditions, -, -, -, -, rfl⟩ := stepElseArm_eq_ok_iff.mp read
    exact ⟨[], [], rfl, rfl, silent _ rfl⟩
  · obtain ⟨line, readLine, contents⟩ := contents_of_stepSpeech read
    refine ⟨[line], [], ?_, rfl, ?_⟩
    · exact mapM_cons_eq_ok_iff.mpr ⟨line, [], readLine, rfl, rfl⟩
    · rw [contents, said, offered, List.append_nil]

theorem contents_of_stepAll {statements : List Statement}
    (read : before.stepAll scope statements = .ok after) :
    ∃ lines choices, linesOf scope statements = .ok lines ∧
      choicesOf scope statements = .ok choices ∧
      after.graph.contents = (before.graph.said ++ lines, before.graph.offered ++ choices) := by
  induction statements generalizing before with
  | nil =>
      cases read
      exact ⟨[], [], rfl, rfl, by rw [List.append_nil, List.append_nil, Graph.contents]⟩
  | cons statement rest ih =>
      obtain ⟨middle, first, others⟩ := stepAll_cons_eq_ok_iff.mp read
      obtain ⟨line, choice, readLine, readChoice, contents⟩ := contents_of_step first
      obtain ⟨lines, choices, readLines, readChoices, more⟩ := ih others
      have said : middle.graph.said = before.graph.said ++ line := congrArg Prod.fst contents
      have offered : middle.graph.offered = before.graph.offered ++ choice :=
        congrArg Prod.snd contents
      refine ⟨line ++ lines, choice ++ choices, ?_, ?_, ?_⟩
      · rw [linesOf, ← List.singleton_append, List.filter_append, List.mapM_append]
        exact bind_eq_ok_iff.mpr ⟨line, readLine, bind_eq_ok_iff.mpr ⟨lines, readLines, rfl⟩⟩
      · rw [choicesOf, ← List.singleton_append, List.filter_append, List.mapM_append]
        exact bind_eq_ok_iff.mpr ⟨choice, readChoice, bind_eq_ok_iff.mpr ⟨choices, readChoices, rfl⟩⟩
      · rw [more, said, offered, List.append_assoc, List.append_assoc]

end Draft

end Parley
