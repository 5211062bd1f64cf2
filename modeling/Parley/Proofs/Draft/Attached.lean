import Parley.Proofs.Draft.Stacks

/-!
# What hangs on a line

The branch of a line and the choices that it offers hang on the line.  Linking lines, closing
branches, making room for a spoken line and placing it leave alone what hangs on lines: only an
option and a first arm change that.
-/

namespace Parley

open Parley.Script

/-- The branch of a line and the choices that it offers. -/
def Line.attached (line : Line) : Option BranchIndex × List ChoiceIndex :=
  (line.branch, line.choices)

namespace Graph

variable (graph : Graph)

/-- A successor is no matter of what hangs on a line. -/
theorem attached_setNext (changed next id : LineIndex) :
    ((graph.setNext changed next).line id).attached = (graph.line id).attached := by
  rw [setNext, line_modifyLine_eq]
  split <;> rfl

theorem attached_foldl_setNext {α : Type} (place : α → LineIndex) (changed : List α)
    (next id : LineIndex) :
    ((changed.foldl (fun graph item => graph.setNext (place item) next) graph).line id).attached =
      (graph.line id).attached := by
  induction changed generalizing graph with
  | nil => rfl
  | cons item rest ih =>
      exact (ih (graph.setNext (place item) next)).trans
        (graph.attached_setNext (place item) next id)

/-- Nothing hangs on a line that is added bare. -/
theorem attached_addLine {line : Line} (bare : line.attached = (none, [])) (id : LineIndex) :
    ((graph.addLine line).line id).attached = (graph.line id).attached := by
  rw [line_addLine]
  split
  · rename_i new
    rw [bare, line_eq_relay graph (Nat.le_of_eq new.symm)]
    rfl
  · rfl

end Graph

namespace Draft

variable {scope : Scope} {draft after : Draft} {statement : Statement}

theorem attached_completeBranch (draft : Draft) (branch : OpenNode) (outer : List OpenNode)
    (id : LineIndex) :
    (({ draft with branches := outer }.completeBranch branch).graph.line id).attached =
      (draft.graph.line id).attached := by
  unfold completeBranch
  split
  · rfl
  · exact draft.graph.attached_addLine rfl id

@[simp]
theorem attached_closeDeepBranches (draft : Draft) (indent : Nat) (id : LineIndex) :
    ((draft.closeDeepBranches indent).graph.line id).attached = (draft.graph.line id).attached :=
  closeDeepBranches_keeps (fun closed => (closed.graph.line id).attached)
    (fun closing branch outer => attached_completeBranch closing branch outer id) draft indent

@[simp]
theorem attached_closeDialogue (draft : Draft) (id : LineIndex) :
    (draft.closeDialogue.graph.line id).attached = (draft.graph.line id).attached :=
  closeDialogue_keeps (fun closed => (closed.graph.line id).attached)
    (fun closing branch outer => attached_completeBranch closing branch outer id) draft

theorem attached_settleChoice (draft : Draft) (indent : Nat) (id : LineIndex) :
    ((draft.settleChoice indent).graph.line id).attached = (draft.graph.line id).attached := by
  unfold settleChoice
  split
  · split
    · split
      · exact draft.graph.attached_addLine rfl id
      · rfl
    · rfl
  · rfl

theorem attached_makeRoom (draft : Draft) (indent : Nat) (id : LineIndex) :
    ((draft.makeRoom indent).graph.line id).attached = (draft.graph.line id).attached := by
  have closed := closeBranchAt_keeps (fun closed => (closed.graph.line id).attached)
    (fun closing branch outer => attached_completeBranch closing branch outer id)
    (draft.settleChoice indent) indent
  exact closed.trans (draft.attached_settleChoice indent id)

theorem attached_finishBodiless (draft : Draft) (id : LineIndex) :
    (draft.finishBodiless.graph.line id).attached = (draft.graph.line id).attached := by
  unfold finishBodiless
  split
  · split
    · exact draft.graph.attached_addLine rfl id
    · rfl
  · rfl

/-! ## Spoken lines -/

theorem attached_attachSpeech {title : String} {line : LineIndex} {indent : Nat}
    (attached : draft.attachSpeech title line indent = .ok after) (id : LineIndex) :
    (after.graph.line id).attached = (draft.graph.line id).attached := by
  unfold attachSpeech at attached
  split at attached
  · cases attached
    rfl
  · cases attached
    rfl
  · split at attached
    · cases attached
    · rename_i earlier waiting stack
      cases attached
      exact (Graph.attached_foldl_setNext _ OpenNode.id _ line id).trans
        (draft.graph.attached_setNext earlier.id line id)
  all_goals
    split at attached <;> cases attached <;> rfl

theorem attached_directSpeech {line : LineIndex} {indent depth : Nat}
    (directed : draft.directSpeech line indent depth = .ok after) (id : LineIndex) :
    (after.graph.line id).attached = (draft.graph.line id).attached := by
  unfold directSpeech at directed
  split at directed
  · cases directed
    rfl
  · split at directed
    · cases directed
    · cases directed
      exact draft.graph.attached_setNext line _ id

theorem attached_gatherStrays (draft : Draft) (line : LineIndex) (indent : Nat) (id : LineIndex) :
    ((draft.gatherStrays line indent).graph.line id).attached =
      (draft.graph.line id).attached := by
  unfold gatherStrays
  split
  · exact draft.graph.attached_foldl_setNext OpenNode.id _ line id
  · rfl

/-- Placing a spoken line changes nothing of what hangs on lines. -/
theorem attached_of_stepSpeech (read : draft.stepSpeech scope statement = .ok after)
    (id : LineIndex) : (after.graph.line id).attached = (draft.graph.line id).attached := by
  obtain ⟨title, speech, commands, attached, directed, -, -, -, -, attach, direct, rfl⟩ :=
    stepSpeech_eq_ok_iff.mp read
  let room := draft.makeRoom statement.indent
  calc
    ((directed.gatherStrays room.graph.lines.size statement.indent).graph.line id).attached
        = (directed.graph.line id).attached := directed.attached_gatherStrays _ _ id
    _ = (attached.graph.line id).attached := attached_directSpeech direct id
    _ = ((room.addLine _).graph.line id).attached := attached_attachSpeech attach id
    _ = (room.graph.line id).attached := room.graph.attached_addLine rfl id
    _ = (draft.graph.line id).attached := draft.attached_makeRoom statement.indent id

/-- A statement that neither offers a choice nor opens a branch leaves alone what hangs on
lines. -/
theorem attached_of_step {before : Draft} (noOption : statement.construct ≠ .option)
    (noArm : statement.construct ≠ .ifArm) (read : before.step scope statement = .ok after)
    (id : LineIndex) : (after.graph.line id).attached = (before.graph.line id).attached := by
  let closed := before.closeDeepBranches statement.indent
  rw [← before.attached_closeDeepBranches statement.indent id]
  unfold step at read
  split at read
  · obtain ⟨title, -, -, -, rfl⟩ := stepTitle_eq_ok_iff.mp read
    exact closed.attached_closeDialogue id
  · rename_i construct
    exact absurd construct noOption
  · rename_i construct
    exact absurd construct noArm
  · obtain ⟨source, branch, conditions, -, -, -, -, rfl⟩ := stepElseArm_eq_ok_iff.mp read
    rfl
  · exact attached_of_stepSpeech read id

end Draft

end Parley
