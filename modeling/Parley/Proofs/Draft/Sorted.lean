import Parley.Proofs.Draft.Enclosing
import Parley.Proofs.Graph.Relays

/-!
# Open nodes lie in the order of their indentations

A statement closes what is deeper than itself before it opens a node of its own, so the nodes on
each stack lie in the order of their indentations.  While a statement is read, the order is
broken: the relays of branches that are closed come to lie on top of shallower lines, the
shallowest relay last.  But all of them are deeper than the statement, and so they leave the stack
before it has been read.  A loop that closes nodes from the top of a stack therefore finds
every node beyond its bound there.
-/

namespace Parley

open Parley.Script

/-- From the innermost node on, the nodes of a stack get no deeper. -/
def Descends (stack : List OpenNode) : Prop :=
  stack.Pairwise fun inner outer => outer.indent ≤ inner.indent

/-! ## Loops over open nodes -/

/-- A loop that closes the nodes on top of a stack as long as they lie beyond an indentation:
deeper than it or, for choices, at it or deeper. -/
inductive ScopeLoop where
  | branches (indent : Nat)
  | choices (indent : Nat)
  | lines (indent : Nat)
  deriving DecidableEq, Repr

namespace ScopeLoop

/-- The stack that a loop takes nodes from. -/
def stack : ScopeLoop → Draft → List OpenNode
  | .branches _, draft => draft.branches
  | .choices _, draft => draft.choices
  | .lines _, draft => draft.lines

/-- The nodes that a loop closes. -/
def beyond : ScopeLoop → OpenNode → Bool
  | .branches indent, node | .lines indent, node => indent < node.indent
  | .choices indent, node => indent ≤ node.indent

/-- What a loop makes of a draft. -/
def run : ScopeLoop → Draft → Draft
  | .branches indent, draft => draft.closeDeepBranches indent
  | .choices indent, draft => draft.leaveChoices indent
  | .lines indent, draft => draft.abandonDeepLines indent

/-- A loop takes from its stack every node that lies beyond its bound, wherever it lies in the
stack, and no other. -/
def IsExact (loop : ScopeLoop) (draft : Draft) : Prop :=
  loop.stack (loop.run draft) = (loop.stack draft).filter fun node => !loop.beyond node

instance (loop : ScopeLoop) (draft : Draft) : Decidable (loop.IsExact draft) :=
  inferInstanceAs (Decidable (_ = _))

variable {loop : ScopeLoop} {draft : Draft}

theorem stack_run (loop : ScopeLoop) (draft : Draft) :
    loop.stack (loop.run draft) = (loop.stack draft).dropWhile loop.beyond := by
  cases loop with
  | branches indent => exact draft.branches_closeDeepBranches indent
  | choices indent => rfl
  | lines indent => rfl

theorem beyond_of_le {inner outer : OpenNode} (no_deeper : outer.indent ≤ inner.indent)
    (beyond : loop.beyond outer = true) : loop.beyond inner = true := by
  cases loop <;> simp only [ScopeLoop.beyond, decide_eq_true_eq] at beyond ⊢
  · exact Nat.lt_of_lt_of_le beyond no_deeper
  · exact Nat.le_trans beyond no_deeper
  · exact Nat.lt_of_lt_of_le beyond no_deeper

/-- It is enough that the nodes which a loop leaves lie in order. -/
theorem isExact_of_rest (sorted : Descends ((loop.stack draft).dropWhile loop.beyond)) :
    loop.IsExact draft := by
  rw [IsExact, stack_run]
  apply dropWhile_eq_filter_of_pairwise
  exact sorted.imp beyond_of_le

theorem isExact_of_sorted (sorted : Descends (loop.stack draft)) : loop.IsExact draft :=
  isExact_of_rest (sorted.sublist (List.dropWhile_sublist _))

end ScopeLoop

namespace Draft

variable {scope : Scope} {draft before after : Draft} {statement : Statement}

/-! ## The order between statements -/

/-- The open nodes lie in the order of their indentations, the deepest innermost, no two choices
at the same one, and every open line is spoken. -/
structure Sorted (draft : Draft) : Prop where
  branches : Descends draft.branches
  choices : draft.choices.Pairwise fun inner outer => outer.indent < inner.indent
  lines : Descends draft.lines
  spoken : ∀ line ∈ draft.lines, draft.graph.Speaks line.id

/-- No open node is deeper than an indentation. -/
structure NoDeeper (draft : Draft) (indent : Nat) : Prop where
  branches : ∀ branch ∈ draft.branches, branch.indent ≤ indent
  choices : ∀ choice ∈ draft.choices, choice.indent ≤ indent
  lines : ∀ line ∈ draft.lines, line.indent ≤ indent

/-- What every statement finds and leaves: lines that wait at most once and without a successor,
nested branches and choices, and open nodes in order. -/
structure Tidy (draft : Draft) : Prop where
  orderly : draft.Orderly
  nested : draft.Nested
  sorted : draft.Sorted

theorem Tidy.empty : Draft.empty.Tidy where
  orderly := .empty
  nested := .empty
  sorted := ⟨List.Pairwise.nil, List.Pairwise.nil, List.Pairwise.nil, List.forall_mem_nil _⟩

theorem Sorted.descending_choices (sorted : draft.Sorted) : Descends draft.choices :=
  sorted.choices.imp Nat.le_of_lt

/-- The lines after a statement lie in order, none deeper than the statement. -/
theorem lines_sorted_of_step (sorted : Descends before.lines)
    (read : before.step scope statement = .ok after) :
    Descends after.lines ∧ ∀ line ∈ after.lines, line.indent ≤ statement.indent := by
  obtain ⟨own, kept, lines, opened, suffix, -⟩ := exists_lines_of_step read
  have keptSorted := sorted.sublist suffix.sublist
  have shallow : ∀ line ∈ kept.dropWhile fun line => statement.indent < line.indent,
      line.indent ≤ statement.indent := fun line => le_of_mem_dropWhile keptSorted
  have left := keptSorted.sublist (List.dropWhile_sublist fun line =>
    statement.indent < line.indent)
  rw [lines]
  rcases opened with rfl | ⟨rfl, -⟩
  · exact ⟨left, shallow⟩
  · exact ⟨left.cons shallow, List.forall_mem_cons.mpr ⟨Nat.le_refl _, shallow⟩⟩

/-- A line that is open after a statement is spoken: it was open before, or the statement says
it. -/
theorem spoken_of_step (orderly : before.Orderly)
    (spoken : ∀ line ∈ before.lines, before.graph.Speaks line.id)
    (read : before.step scope statement = .ok after) :
    ∀ line ∈ after.lines, after.graph.Speaks line.id := by
  intro line member
  rcases mem_lines_of_step read member with ⟨old, -⟩ | ⟨rfl, speaks, -⟩
  · have spoke := spoken line old
    have said := congrArg Line.text
      ((advances_of_step orderly read).unlinked line.id spoke.lt_size)
    exact spoke.of_text_eq said
  · obtain ⟨speech, commands, -, -, -, said, -⟩ := speech_of_step speaks read
    exact congrArg Line.isRelay said

/-- A statement leaves nothing open that is deeper than itself. -/
theorem noDeeper_of_step (tidy : before.Tidy) (read : before.step scope statement = .ok after) :
    after.NoDeeper statement.indent := by
  constructor
  · obtain ⟨kept, branches, -, shallow⟩ := exists_branches_of_step tidy.nested read
    intro branch member
    rw [branches] at member
    rcases List.mem_append.mp member with new | old
    · split at new
      · exact Nat.le_of_eq (congrArg OpenNode.indent (List.mem_singleton.mp new))
      · cases new
    · exact shallow branch old
  · obtain ⟨opened, kept, choices, fresh, -, shallow⟩ := exists_choices_of_step tidy.nested read
    intro choice member
    rw [choices] at member
    rcases List.mem_append.mp member with new | old
    · rcases fresh with rfl | ⟨rfl, -⟩
      · cases new
      · exact Nat.le_of_eq (congrArg OpenNode.indent (List.mem_singleton.mp new))
    · exact Nat.le_of_lt (shallow choice old).1
  · exact (lines_sorted_of_step tidy.sorted.lines read).2

theorem Tidy.step (tidy : before.Tidy) (read : before.step scope statement = .ok after) :
    after.Tidy := by
  have nested := tidy.nested.step read
  constructor
  · exact (advances_of_step tidy.orderly read).orderly
  · exact nested
  · constructor
    · exact nested.sortedBranches
    · exact nested.choices.imp And.right
    · exact (lines_sorted_of_step tidy.sorted.lines read).1
    · exact spoken_of_step tidy.orderly tidy.sorted.spoken read

theorem Tidy.stepAll (tidy : before.Tidy) {statements : List Statement}
    (read : before.stepAll scope statements = .ok after) : after.Tidy := by
  induction statements generalizing before with
  | nil =>
      cases read
      exact tidy
  | cons statement rest ih =>
      obtain ⟨middle, first, others⟩ := stepAll_cons_eq_ok_iff.mp read
      exact ih (tidy.step first) others

/-! ## The order while a statement is read -/

/-- Open nodes lie in order, but for deep lines on top of the others. -/
structure NearlySorted (draft : Draft) (indent : Nat) : Prop where
  choices : Descends draft.choices
  lines : Descends (draft.lines.dropWhile fun line => indent < line.indent)

theorem NearlySorted.of_stacks {indent : Nat} (nearly : draft.NearlySorted indent)
    (choices : after.choices <:+ draft.choices) (lines : after.lines = draft.lines) :
    after.NearlySorted indent where
  choices := nearly.choices.sublist choices.sublist
  lines := by
    rw [lines]
    exact nearly.lines

/-- The relays of branches that are closed are deeper than the statement that closes them. -/
theorem Sorted.closeDeepBranches (sorted : draft.Sorted) (indent : Nat) :
    (draft.closeDeepBranches indent).NearlySorted indent where
  choices := sorted.descending_choices.sublist (draft.choices_closeDeepBranches_suffix indent).sublist
  lines := by
    rw [dropWhile_lines_closeDeepBranches]
    exact sorted.lines.sublist (List.dropWhile_sublist _)

/-- What a statement finds once the branches deeper than it are closed. -/
structure NearlyTidy (draft : Draft) (indent : Nat) : Prop where
  orderly : draft.Orderly
  nested : draft.Nested
  sorted : draft.NearlySorted indent

theorem Tidy.closeDeepBranches (tidy : draft.Tidy) (indent : Nat) :
    (draft.closeDeepBranches indent).NearlyTidy indent where
  orderly := (Extends.closeDeepBranches draft indent).orderly tidy.orderly
  nested := tidy.nested.closeDeepBranches indent
  sorted := tidy.sorted.closeDeepBranches indent

theorem choices_finishBodiless_suffix (draft : Draft) :
    draft.finishBodiless.choices <:+ draft.choices := by
  unfold finishBodiless
  split
  · split
    · rename_i bodiless outer stack
      exact stack ▸ List.suffix_cons bodiless outer
    · exact List.suffix_refl _
  · exact List.suffix_refl _

theorem NearlySorted.attachBranch {indent : Nat} (nearly : draft.NearlySorted indent)
    (title : String) (branch : BranchIndex) :
    (draft.attachBranch title branch).NearlySorted indent := by
  apply nearly.of_stacks
  · unfold Draft.attachBranch
    split
    · exact List.suffix_refl _
    all_goals split <;> exact List.suffix_refl _
  · exact draft.lines_attachBranch title branch

/-- When a spoken line has been attached, only deep relays lie above the lines that were
open. -/
theorem Sorted.attachSpeech (sorted : before.Sorted) {line : Line} {title : String} {id : LineIndex}
    (attached : ((before.roomFor statement).addLine line).attachSpeech title id statement.indent =
      .ok after) : after.NearlySorted statement.indent := by
  obtain ⟨-, lines, -, choices⟩ := linked_attachSpeech attached
  obtain ⟨kept, suffix, left⟩ := before.exists_dropWhile_lines_release statement
  constructor
  · rw [choices]
    have room := (choices_makeRoom_suffix (before.closeDeepBranches statement.indent)
      statement.indent).trans (before.choices_closeDeepBranches_suffix statement.indent)
    exact sorted.descending_choices.sublist room.sublist
  · rw [lines]
    show Descends (((before.roomFor statement).release statement.indent).lines.dropWhile _)
    rw [left]
    exact (sorted.lines.sublist suffix.sublist).sublist (List.dropWhile_sublist _)

end Draft

end Parley
