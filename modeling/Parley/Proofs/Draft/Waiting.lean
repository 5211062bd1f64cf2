import Parley.Proofs.Draft.Closing

/-!
# Waiting lines

A line without a successor waits for one, on the stack of open lines or among the
strays.  Closing branches, offering choices and opening arms may reorder the lines
that wait and add relays to them, but no line gets a successor that way, and no line
stops waiting.  Only a spoken line links others, and only a new dialogue forgets
them.
-/

namespace Parley

/-- What a line says and does, without its links. -/
def Line.unlinked (line : Line) : Line :=
  { line with next := none, branch := none, choices := [] }

namespace Draft

variable {draft before middle after : Draft}

/-- The nodes of the lines that wait for a successor. -/
def waitingNodes (draft : Draft) : List OpenNode :=
  draft.lines ++ draft.strays

/-- The lines that wait for a successor. -/
def waiting (draft : Draft) : List LineIndex :=
  draft.waitingNodes.map OpenNode.id

/-- A draft in which every line waits at most once, and none that waits has a
successor. -/
structure Orderly (draft : Draft) : Prop where
  nodup : draft.waiting.Nodup
  known : ∀ id ∈ draft.waiting, id < draft.graph.lines.size
  unfollowed : ∀ id ∈ draft.waiting, (draft.graph.line id).next = none

/-- Lines may have been added, but those that were there say the same, have the
successors that they had and wait if they waited. -/
structure Extends (before after : Draft) : Prop where
  size : before.graph.lines.size ≤ after.graph.lines.size
  unlinked : ∀ id < before.graph.lines.size,
    (after.graph.line id).unlinked = (before.graph.line id).unlinked
  next : ∀ id < before.graph.lines.size, (after.graph.line id).next = (before.graph.line id).next
  waiting : ∀ id < before.graph.lines.size, (id ∈ after.waiting ↔ id ∈ before.waiting)
  orderly : before.Orderly → after.Orderly

/-- Lines that are left behind still wait. -/
theorem waitingNodes_abandonDeepLines_perm (draft : Draft) (indent : Nat) :
    (draft.abandonDeepLines indent).waitingNodes.Perm draft.waitingNodes := by
  have moved : ∀ deep rest : List OpenNode,
      (rest ++ (deep.reverse ++ draft.strays)).Perm ((deep ++ rest) ++ draft.strays) := by
    intro deep rest
    rw [← List.append_assoc]
    apply List.Perm.append_right
    exact ((List.reverse_perm deep).append_left rest).trans List.perm_append_comm
  have reordered := moved (draft.lines.takeWhile fun line => indent < line.indent)
    (draft.lines.dropWhile fun line => indent < line.indent)
  rw [List.takeWhile_append_dropWhile] at reordered
  exact reordered

theorem Orderly.empty : Draft.empty.Orderly where
  nodup := List.nodup_nil
  known _ member := by cases member
  unfollowed _ member := by cases member

namespace Extends

theorem refl (draft : Draft) : draft.Extends draft :=
  ⟨Nat.le_refl _, fun _ _ => rfl, fun _ _ => rfl, fun _ _ => Iff.rfl, fun orderly => orderly⟩

theorem trans (first : before.Extends middle) (second : middle.Extends after) :
    before.Extends after where
  size := Nat.le_trans first.size second.size
  unlinked id known :=
    (second.unlinked id (Nat.lt_of_lt_of_le known first.size)).trans (first.unlinked id known)
  next id known :=
    (second.next id (Nat.lt_of_lt_of_le known first.size)).trans (first.next id known)
  waiting id known :=
    (second.waiting id (Nat.lt_of_lt_of_le known first.size)).trans (first.waiting id known)
  orderly orderly := second.orderly (first.orderly orderly)

/-- An edit that adds some new lines to those that wait and reorders them. -/
theorem of_perm (fresh : List LineIndex) (nodup : fresh.Nodup)
    (new : ∀ id ∈ fresh, before.graph.lines.size ≤ id ∧ id < after.graph.lines.size ∧
      (after.graph.line id).next = none)
    (size : before.graph.lines.size ≤ after.graph.lines.size)
    (unlinked : ∀ id < before.graph.lines.size,
      (after.graph.line id).unlinked = (before.graph.line id).unlinked)
    (next : ∀ id < before.graph.lines.size,
      (after.graph.line id).next = (before.graph.line id).next)
    (perm : after.waiting.Perm (fresh ++ before.waiting)) : before.Extends after where
  size := size
  unlinked := unlinked
  next := next
  waiting id known := by
    rw [perm.mem_iff, List.mem_append]
    constructor
    · rintro (member | member)
      · exact absurd (new id member).1 (Nat.not_le_of_lt known)
      · exact member
    · exact Or.inr
  orderly orderly := by
    constructor
    · apply perm.nodup_iff.mpr
      have apart : ∀ id ∈ fresh, ∀ other ∈ before.waiting, id ≠ other := by
        rintro id member _ waits rfl
        exact Nat.not_le_of_lt (orderly.known id waits) (new id member).1
      exact List.nodup_append.mpr ⟨nodup, orderly.nodup, apart⟩
    · intro id member
      rcases List.mem_append.mp (perm.mem_iff.mp member) with member | waits
      · exact (new id member).2.1
      · exact Nat.lt_of_lt_of_le (orderly.known id waits) size
    · intro id member
      rcases List.mem_append.mp (perm.mem_iff.mp member) with member | waits
      · exact (new id member).2.2
      · rw [next id (orderly.known id waits)]
        exact orderly.unfollowed id waits

/-- An edit of one line that touches only links other than its successor, and
reorders the lines that wait. -/
theorem of_modifyLine (id : LineIndex) (change : Line → Line)
    (changed : after.graph.lines = (before.graph.modifyLine id change).lines)
    (unlinked : ∀ line, (change line).unlinked = line.unlinked)
    (next : ∀ line, (change line).next = line.next)
    (perm : after.waiting.Perm before.waiting) : before.Extends after := by
  have size : after.graph.lines.size = before.graph.lines.size := by
    rw [changed, Graph.size_lines_modifyLine]
  apply of_perm [] List.nodup_nil _ (Nat.le_of_eq size.symm) _ _ perm
  · intro id member
    cases member
  · intro other _
    rw [Graph.line_congr changed, Graph.line_modifyLine_eq]
    split
    · exact unlinked _
    · rfl
  · intro other _
    rw [Graph.line_congr changed]
    exact before.graph.next_modifyLine_of_keeps next id other

/-- An edit that leaves the lines of the graph alone and reorders those that wait. -/
theorem of_lines_eq (same : after.graph.lines = before.graph.lines)
    (perm : after.waiting.Perm before.waiting) : before.Extends after := by
  apply of_perm [] List.nodup_nil _ (Nat.le_of_eq (congrArg Array.size same).symm) _ _ perm
  · intro id member
    cases member
  · intro id _
    rw [Graph.line_congr same]
  · intro id _
    rw [Graph.line_congr same]

/-- An edit that adds a line which leads nowhere, and may let it wait. -/
theorem of_push {line : Line} (pushed : after.graph.lines = (before.graph.addLine line).lines)
    (leadsNowhere : line.next = none)
    (perm : after.waiting.Perm (before.graph.lines.size :: before.waiting) ∨
      after.waiting.Perm before.waiting) : before.Extends after := by
  have sizeEq : after.graph.lines.size = before.graph.lines.size + 1 := by
    rw [pushed, Graph.size_lines_addLine]
  have size : before.graph.lines.size ≤ after.graph.lines.size := by
    rw [sizeEq]
    exact Nat.le_succ _
  have same : ∀ id < before.graph.lines.size, after.graph.line id = before.graph.line id := by
    intro id known
    rw [Graph.line_congr pushed, Graph.line_addLine_of_lt _ _ known]
  have newest : (after.graph.line before.graph.lines.size).next = none := by
    rw [Graph.line_congr pushed, Graph.line_addLine_size]
    exact leadsNowhere
  have unlinked : ∀ id < before.graph.lines.size,
      (after.graph.line id).unlinked = (before.graph.line id).unlinked :=
    fun id known => congrArg Line.unlinked (same id known)
  have next : ∀ id < before.graph.lines.size,
      (after.graph.line id).next = (before.graph.line id).next :=
    fun id known => congrArg Line.next (same id known)
  rcases perm with waits | stays
  · apply of_perm [before.graph.lines.size] (by simp) _ size unlinked next waits
    intro id member
    rw [List.mem_singleton.mp member]
    exact ⟨Nat.le_refl _, sizeEq ▸ Nat.lt_succ_self _, newest⟩
  · apply of_perm [] List.nodup_nil _ size unlinked next stays
    intro id member
    cases member

/-! ## Closing -/

theorem leaveChoices (draft : Draft) (indent : Nat) :
    draft.Extends (draft.leaveChoices indent) :=
  of_lines_eq rfl (List.Perm.refl _)

theorem abandonDeepLines (draft : Draft) (indent : Nat) :
    draft.Extends (draft.abandonDeepLines indent) :=
  of_lines_eq rfl ((draft.waitingNodes_abandonDeepLines_perm indent).map OpenNode.id)

theorem dedent (draft : Draft) (indent : Nat) : draft.Extends (draft.dedent indent) :=
  (abandonDeepLines draft indent).trans (leaveChoices _ indent)

/-- The relay of a default arm waits like the last line of an arm. -/
theorem completeBranch (draft : Draft) (branch : OpenNode) (outer : List OpenNode) :
    draft.Extends ({ draft with branches := outer }.completeBranch branch) := by
  unfold Draft.completeBranch
  split
  · exact of_lines_eq rfl (List.Perm.refl _)
  · exact of_push rfl rfl (Or.inl (List.Perm.refl _))

theorem closeDeepBranches (draft : Draft) (indent : Nat) :
    draft.Extends (draft.closeDeepBranches indent) :=
  draft.closeDeepBranches_induction
    (fun closing branch outer _ held => held.trans (completeBranch closing branch outer))
    indent (refl draft)

theorem closeBranchAt (draft : Draft) (indent : Nat) :
    draft.Extends (draft.closeBranchAt indent) :=
  draft.closeBranchAt_induction
    (fun closing branch outer _ held => held.trans (completeBranch closing branch outer))
    indent (refl draft)

theorem closeDialogue (draft : Draft) : draft.Extends draft.closeDialogue :=
  draft.closeDialogue_induction
    (fun closing branch outer _ held => held.trans (completeBranch closing branch outer))
    (refl draft)

/-! ## Choices -/

/-- The relay of a choice without a body is left behind at once. -/
theorem endChoice (draft : Draft) (choice : OpenNode) :
    draft.Extends (draft.endChoice choice) :=
  of_push rfl rfl (Or.inl (List.perm_middle.map OpenNode.id))

theorem settleChoice (draft : Draft) (indent : Nat) :
    draft.Extends (draft.settleChoice indent) := by
  unfold Draft.settleChoice
  split
  · split
    · split
      · exact (endChoice draft _).trans (of_lines_eq rfl (List.Perm.refl _))
      · exact refl draft
    · exact refl draft
  · exact refl draft

theorem makeRoom (draft : Draft) (indent : Nat) : draft.Extends (draft.makeRoom indent) :=
  (settleChoice draft indent).trans (closeBranchAt _ indent)

theorem finishBodiless (draft : Draft) : draft.Extends draft.finishBodiless := by
  unfold Draft.finishBodiless
  split
  · split
    · rename_i bodiless outer _
      have popped : draft.Extends { draft with choices := outer } :=
        of_lines_eq rfl (List.Perm.refl _)
      exact popped.trans (endChoice _ bodiless)
    · exact refl draft
  · exact refl draft

/-- A choice is listed at its root. -/
theorem addChoiceUnder (draft : Draft) (choice : Choice) :
    draft.Extends (draft.addChoiceUnder choice) := by
  let list := fun root : Line => { root with choices := root.choices ++ [draft.graph.choices.size] }
  have changed : (draft.addChoiceUnder choice).graph.lines =
      (draft.graph.modifyLine choice.root list).lines := rfl
  exact of_modifyLine choice.root list changed (fun _ => rfl) (fun _ => rfl) (List.Perm.refl _)

theorem offer (draft : Draft) (choice : Choice) (terminal : Bool) (indent : Nat) :
    draft.Extends (draft.offer choice terminal indent) := by
  have settled : draft.Extends
      ((draft.addChoiceUnder choice).finishBodiless.leaveChoices indent) :=
    ((addChoiceUnder draft choice).trans (finishBodiless _)).trans (leaveChoices _ indent)
  unfold Draft.offer
  split
  · exact settled
  · exact settled.trans (of_lines_eq rfl (List.Perm.refl _))

/-! ## Branches -/

theorem attachBranch (draft : Draft) (title : String) (branch : BranchIndex) :
    draft.Extends (draft.attachBranch title branch) := by
  unfold Draft.attachBranch
  split
  · exact of_push rfl rfl (Or.inr (List.Perm.refl _))
  · split
    · exact of_lines_eq rfl (List.Perm.refl _)
    · exact refl draft
  -- After anything else the branch is a link of the innermost waiting line.
  all_goals
    split
    · let lead := fun owner : Line => { owner with branch := some branch }
      exact of_modifyLine _ lead rfl (fun _ => rfl) (fun _ => rfl) (List.Perm.refl _)
    · exact refl draft

theorem openBranch (draft : Draft) (title : String) (conditions : List Call) (indent : Nat) :
    draft.Extends (draft.openBranch title conditions indent) := by
  have added : draft.Extends { draft with
      graph := draft.graph.addBranch ⟨[⟨conditions, none⟩]⟩
      branches := ⟨draft.graph.branches.size, indent⟩ :: draft.branches } :=
    of_lines_eq rfl (List.Perm.refl _)
  have attached := (added.trans (attachBranch _ title draft.graph.branches.size)).trans
    (dedent _ indent)
  exact attached.trans (of_lines_eq rfl (List.Perm.refl _))

theorem extendBranch (draft : Draft) (branch : BranchIndex) (conditions : List Call)
    (indent : Nat) : draft.Extends (draft.extendBranch branch conditions indent) := by
  have added : draft.Extends { draft with
      graph := draft.graph.modifyBranch branch fun held => held.addArm conditions none } :=
    of_lines_eq rfl (List.Perm.refl _)
  exact (added.trans (dedent _ indent)).trans (of_lines_eq rfl (List.Perm.refl _))

end Extends

end Draft

end Parley
