import Parley.Proofs.Draft.Bodiless
import Parley.Proofs.Draft.Sound

/-!
# What a branch is attached to

A first arm opens a branch and attaches it to a line or to a choice, its owner.  No other
statement attaches a branch to anything, so a branch belongs to its owner until a later
first arm takes the same owner.  That needs an owner that is found a second time: the
statement right before the later arm is a line with return markers or a terminal option,
neither of which is remembered.
-/

namespace Parley

open Parley.Script

/-- What a branch may be attached to. -/
inductive Owner where
  | line (id : LineIndex)
  | choice (id : ChoiceIndex)
  deriving DecidableEq

namespace Graph

variable (graph : Graph)

/-- The branch of a line or of a choice. -/
def branchOf (graph : Graph) : Owner → Option BranchIndex
  | .line id => (graph.line id).branch
  | .choice id => (graph.choice id).branch

/-- A branch that belongs to exactly one line or choice. -/
def OwnedOnce (graph : Graph) (id : BranchIndex) : Prop :=
  ∃ owner, graph.branchOf owner = some id ∧
    ∀ other, graph.branchOf other = some id → other = owner

/-- A line that is added has the branch it comes with. -/
theorem branch_line_addLine (line : Line) (id : LineIndex) :
    ((graph.addLine line).line id).branch =
      if id = graph.lines.size then line.branch else (graph.line id).branch := by
  rw [line_addLine]
  split <;> rfl

end Graph

namespace Draft

variable {scope : Scope} {draft before after : Draft} {statement : Statement}

/-- The line or choice to which a branch is attached that is opened now. -/
def owner? (draft : Draft) : Option Owner :=
  match draft.latest with
  | .title => some (.line draft.graph.lines.size)
  | .choice => draft.choices.head?.map fun choice => .choice choice.id
  | .nothing | .line | .branch => draft.lines.head?.map fun line => .line line.id

/-- The line or choice to which a statement attaches a branch, if it is a first arm. -/
def branchedBy (draft : Draft) (statement : Statement) : Option Owner :=
  if statement.construct = .ifArm then (draft.closeDeepBranches statement.indent).owner?
  else none

/-! ## Lines -/

theorem branch_line_offer (draft : Draft) (choice : Choice) (terminal : Bool) (indent : Nat)
    (id : LineIndex) : ((draft.offer choice terminal indent).graph.line id).branch =
      (draft.graph.line id).branch := by
  have listed : ((draft.addChoiceUnder choice).graph.line id).branch =
      (draft.graph.line id).branch := by
    rw [addChoiceUnder, Graph.line_modifyLine_eq]
    split <;> rfl
  rw [graph_offer, ← listed]
  exact congrArg Prod.fst ((draft.addChoiceUnder choice).attached_finishBodiless id)

/-- A branch is attached to a line that is there or to the relay made for it. -/
theorem branch_line_attachBranch (draft : Draft) (title : String) (branch : BranchIndex)
    (known : ∀ node ∈ draft.lines, node.id < draft.graph.lines.size) (id : LineIndex) :
    ((draft.attachBranch title branch).graph.line id).branch =
      if draft.owner? = some (.line id) then some branch else (draft.graph.line id).branch := by
  have attached : draft.latest ≠ .title → draft.latest ≠ .choice →
      (draft.attachBranch title branch).graph.lines = (draft.lines.head?.elim draft.graph
        fun owner => draft.graph.modifyLine owner.id fun held =>
          { held with branch := some branch }).lines := by
    intro notTitle notChoice
    unfold attachBranch
    split
    · rename_i latest
      exact absurd latest notTitle
    · rename_i latest
      exact absurd latest notChoice
    all_goals split <;> simp_all
  have waiting : draft.latest ≠ .title → draft.latest ≠ .choice →
      draft.owner? = draft.lines.head?.map fun line => .line line.id := by
    intro notTitle notChoice
    unfold owner?
    split <;> simp_all
  by_cases isTitle : draft.latest = .title
  · unfold attachBranch owner?
    simp only [isTitle]
    rw [show ((draft.graph.addLine { Line.relay with branch := some branch }).addEntry title
      draft.graph.lines.size).line id = (draft.graph.addLine { Line.relay with
        branch := some branch }).line id from rfl, Graph.branch_line_addLine]
    simp [eq_comm]
  · by_cases isChoice : draft.latest = .choice
    · have lines : (draft.attachBranch title branch).graph.lines = draft.graph.lines := by
        unfold attachBranch
        simp only [isChoice]
        split <;> rfl
      rw [Graph.line_congr lines, if_neg]
      unfold owner?
      simp [isChoice]
    · have lines := attached isTitle isChoice
      rw [waiting isTitle isChoice]
      rcases stack : draft.lines with _ | ⟨owner, outer⟩
      · rw [stack] at lines
        rw [Graph.line_congr lines]
        rfl
      · have ownerKnown := known owner (stack ▸ List.mem_cons_self)
        rw [stack, List.head?_cons, Option.elim_some] at lines
        rw [Graph.line_congr lines, Graph.line_modifyLine_eq]
        by_cases same : owner.id = id
        · rw [if_pos ⟨same, same ▸ ownerKnown⟩, if_pos (by simp [same])]
        · rw [if_neg fun both => same both.1, if_neg (by simp [same])]

/-- A first arm attaches its branch to its owner, and nothing else changes the branch of a
line. -/
theorem branch_line_of_step (orderly : before.Orderly)
    (read : before.step scope statement = .ok after) (id : LineIndex) :
    (after.graph.line id).branch =
      if before.branchedBy statement = some (.line id) then some before.graph.branches.size
      else (before.graph.line id).branch := by
  let closed := before.closeDeepBranches statement.indent
  have closedBranch : (closed.graph.line id).branch = (before.graph.line id).branch :=
    congrArg Prod.fst (before.attached_closeDeepBranches statement.indent id)
  have others : statement.construct ≠ .ifArm → before.branchedBy statement = none :=
    fun noArm => if_neg noArm
  by_cases opens : statement.construct = .ifArm
  · have armed := read
    unfold step at armed
    simp only [opens] at armed
    obtain ⟨title, source, conditions, -, -, -, -, rfl⟩ := stepIfArm_eq_ok_iff.mp armed
    have closedOrderly := (Extends.closeDeepBranches before statement.indent).orderly orderly
    have known : ∀ node ∈ closed.lines, node.id < closed.graph.lines.size := by
      intro node member
      apply closedOrderly.known
      exact List.mem_map.mpr ⟨node, List.mem_append_left _ member, rfl⟩
    have attached := branch_line_attachBranch { closed with
      graph := closed.graph.addBranch ⟨[⟨conditions, none⟩]⟩
      branches := ⟨closed.graph.branches.size, statement.indent⟩ :: closed.branches }
      title closed.graph.branches.size known id
    rw [branchedBy, if_pos opens, ← before.size_branches_closeDeepBranches statement.indent,
      ← closedBranch]
    exact attached
  · rw [others opens, if_neg (by simp)]
    by_cases offers : statement.construct = .option
    · unfold step at read
      simp only [offers] at read
      obtain ⟨option, commands, conditions, root, -, -, -, -, rfl⟩ := stepOption_eq_ok_iff.mp read
      rw [branch_line_offer]
      exact closedBranch
    · exact congrArg Prod.fst (attached_of_step offers opens read id)

/-! ## Choices -/

/-- A new choice has no branch. -/
theorem branch_choice_of_size_le (nested : before.Nested)
    (read : before.step scope statement = .ok after) {id : ChoiceIndex}
    (new : before.graph.choices.size ≤ id) : (after.graph.choice id).branch = none := by
  by_cases isOption : statement.construct = .option ∧ id = before.graph.choices.size
  · obtain ⟨construct, rfl⟩ := isOption
    unfold step at read
    simp only [construct] at read
    obtain ⟨option, commands, conditions, root, -, -, -, -, rfl⟩ := stepOption_eq_ok_iff.mp read
    let dedented := (before.closeDeepBranches statement.indent).abandonDeepLines statement.indent
    have size : dedented.graph.choices.size = before.graph.choices.size :=
      congrArg Array.size (before.graphChoices_closeDeepBranches statement.indent)
    have known : ∀ choice ∈ dedented.choices, choice.id < dedented.graph.choices.size := by
      intro choice member
      rw [size]
      exact nested.knownChoices choice
        ((before.choices_closeDeepBranches_suffix statement.indent).mem member)
    rw [← size]
    exact congrArg Choice.branch (choice_offer_size known _ option.terminal statement.indent)
  · have sizeAfter := size_choices_of_step read
    have beyond : after.graph.choices.size ≤ id := by
      rw [sizeAfter]
      split
      · rename_i construct
        exact Nat.lt_of_le_of_ne new fun same => isOption ⟨construct, same.symm⟩
      · exact new
    rw [after.graph.choice_eq_fresh beyond]
    rfl

/-- A first arm attaches its branch to its owner, and nothing else changes the branch of a
choice. -/
theorem branch_choice_of_step (nested : before.Nested)
    (read : before.step scope statement = .ok after) (id : ChoiceIndex) :
    (after.graph.choice id).branch =
      if before.branchedBy statement = some (.choice id) then some before.graph.branches.size
      else (before.graph.choice id).branch := by
  let closed := before.closeDeepBranches statement.indent
  have owns_iff : before.branchedBy statement = some (.choice id) ↔
      statement.construct = .ifArm ∧
        (before.enteredBy statement).map OpenNode.id = some id := by
    unfold branchedBy
    by_cases construct : statement.construct = .ifArm
    · rw [if_pos construct]
      simp only [construct, true_and, enteredBy, owner?, latestChoice?]
      rcases closed.latest with _ | _ | _ | _ | _ <;> simp
    · rw [if_neg construct]
      simp [construct]
  by_cases known : id < before.graph.choices.size
  · rw [choice_of_step read known]
    show (before.branchGiven statement id).or (before.graph.choice id).branch = _
    rw [branchGiven]
    by_cases owns : before.branchedBy statement = some (.choice id)
    · rw [if_pos (owns_iff.mp owns), if_pos owns]
      rfl
    · rw [if_neg fun both => owns (owns_iff.mpr both), if_neg owns]
      rfl
  · have new := Nat.le_of_not_lt known
    rw [branch_choice_of_size_le nested read new, before.graph.choice_eq_fresh new, if_neg]
    · rfl
    · intro owns
      obtain ⟨choice, entered, same⟩ := Option.map_eq_some_iff.mp (owns_iff.mp owns).2
      have last := latestChoice?_of_enteredBy entered
      unfold latestChoice? at last
      split at last
      · exact known (same ▸ nested.knownChoices choice (List.mem_of_head? last))
      · cases last

/-- A first arm attaches its branch to its owner, and nothing else attaches any. -/
theorem branchOf_of_step (orderly : before.Orderly) (nested : before.Nested)
    (read : before.step scope statement = .ok after) (owner : Owner) :
    after.graph.branchOf owner =
      if before.branchedBy statement = some owner then some before.graph.branches.size
      else before.graph.branchOf owner := by
  cases owner with
  | line id => exact branch_line_of_step orderly read id
  | choice id => exact branch_choice_of_step nested read id

/-- A branch that belongs to something is there. -/
theorem Sound.lt_of_branchOf (sound : draft.Sound scope) {owner : Owner} {id : BranchIndex}
    (owned : draft.graph.branchOf owner = some id) : id < draft.graph.branches.size := by
  cases owner with
  | line line => exact (sound.graph.lines line).branch id owned
  | choice choice => exact (sound.graph.choices choice).branch id owned

/-! ## Finding an owner -/

/-- The innermost open line is too deep for what stands at an indentation. -/
def IsOvertopped (draft : Draft) (indent : Nat) : Prop :=
  ∃ top outer, draft.lines = top :: outer ∧ indent + 1 < top.indent

/-- The relay of a deep branch goes on top of the open lines. -/
theorem isOvertopped_addDefaultArm {branch : OpenNode} {indent : Nat}
    (deep : indent < branch.indent) : (draft.addDefaultArm branch).IsOvertopped indent :=
  ⟨⟨draft.graph.lines.size, branch.indent + 1⟩, draft.lines, rfl, Nat.succ_lt_succ deep⟩

theorem IsOvertopped.foldl_completeBranch {indent : Nat} (topped : draft.IsOvertopped indent)
    {closed : List OpenNode} (deep : ∀ branch ∈ closed, indent < branch.indent) :
    (closed.foldl completeBranch draft).IsOvertopped indent := by
  induction closed generalizing draft with
  | nil => exact topped
  | cons branch rest ih =>
      apply ih _ fun other member => deep other (List.mem_cons_of_mem branch member)
      unfold completeBranch
      split
      · exact topped
      · exact isOvertopped_addDefaultArm (deep branch List.mem_cons_self)

theorem isOvertopped_foldl_completeBranch_of_incomplete {indent : Nat} {closed : List OpenNode}
    (deep : ∀ branch ∈ closed, indent < branch.indent)
    (incomplete : ∃ branch ∈ closed, (draft.graph.branch branch.id).isExhaustive = false) :
    (closed.foldl completeBranch draft).IsOvertopped indent := by
  induction closed with
  | nil =>
      obtain ⟨_, member, _⟩ := incomplete
      cases member
  | cons branch rest ih =>
      have deepRest : ∀ other ∈ rest, indent < other.indent :=
        fun other member => deep other (List.mem_cons_of_mem branch member)
      rw [List.foldl_cons]
      by_cases complete : (draft.graph.branch branch.id).isExhaustive = true
      · obtain ⟨other, member, lacking⟩ := incomplete
        rw [show draft.completeBranch branch = draft by rw [completeBranch, if_pos complete]]
        rcases List.mem_cons.mp member with rfl | member
        · rw [complete] at lacking
          cases lacking
        · exact ih deepRest ⟨other, member, lacking⟩
      · rw [completeBranch, if_neg complete]
        exact (isOvertopped_addDefaultArm (deep branch List.mem_cons_self)).foldl_completeBranch
          deepRest

/-- Closing a branch that lacks an arm without conditions puts a deep relay on top of the
open lines. -/
theorem isOvertopped_closeDeepBranches {indent : Nat} (incomplete : ¬ draft.CompleteBelow indent) :
    (draft.closeDeepBranches indent).IsOvertopped indent := by
  apply isOvertopped_foldl_completeBranch_of_incomplete
  · intro branch member
    simpa using List.all_eq_true.mp List.all_takeWhile branch member
  · simpa [CompleteBelow] using incomplete

/-- A first arm closes no branch that lacks an arm without conditions: the relay of such a
branch would be too deep to own the new branch. -/
theorem completeBelow_of_checkIfArm {indent : Nat}
    (fits : (draft.closeDeepBranches indent).checkIfArm indent = .ok ()) :
    draft.CompleteBelow indent := by
  apply Classical.byContradiction
  intro incomplete
  obtain ⟨relay, outer, stack, deep⟩ := isOvertopped_closeDeepBranches incomplete
  have latest := latest_closeDeepBranches_of_not_completeBelow incomplete
  have level : relay.indent ≠ indent := Nat.ne_of_gt (Nat.lt_of_succ_lt deep)
  simp [checkIfArm, latest, stack, topIndent, level, bind, Except.bind, throw, throwThe,
    MonadExceptOf.throw] at fits

/-- A first arm that may stand where it stands finds an owner. -/
theorem exists_owner_of_checkIfArm {indent : Nat} (fits : draft.checkIfArm indent = .ok ()) :
    ∃ owner, draft.owner? = some owner := by
  unfold owner?
  rcases latest : draft.latest with _ | _ | _ | _ | _
  · simp [checkIfArm, latest, bind, Except.bind, throw, throwThe, MonadExceptOf.throw] at fits
  · exact ⟨_, rfl⟩
  · rcases stack : draft.lines with _ | ⟨top, outer⟩
    · simp [checkIfArm, latest, stack, topIndent, bind, Except.bind] at fits
    · exact ⟨_, rfl⟩
  · rcases stack : draft.choices with _ | ⟨top, outer⟩
    · simp [checkIfArm, latest, stack, topIndent, bind, Except.bind, Functor.map,
        Except.map] at fits
    · exact ⟨_, rfl⟩
  · simp [checkIfArm, latest, bind, Except.bind, throw, throwThe, MonadExceptOf.throw] at fits

/-- A first arm that has been read has attached its branch to something. -/
theorem exists_branchedBy_of_step (construct : statement.construct = .ifArm)
    (read : before.step scope statement = .ok after) :
    before.CompleteBelow statement.indent ∧ (before.closeDeepBranches statement.indent).checkIfArm
      statement.indent = .ok () ∧ ∃ owner, before.branchedBy statement = some owner := by
  unfold step at read
  simp only [construct] at read
  obtain ⟨title, source, conditions, -, fits, -, -, -⟩ := stepIfArm_eq_ok_iff.mp read
  refine ⟨completeBelow_of_checkIfArm fits, fits, ?_⟩
  rw [branchedBy, if_pos construct]
  exact exists_owner_of_checkIfArm fits

@[simp]
theorem branchOf_closeDialogue (draft : Draft) (owner : Owner) :
    draft.closeDialogue.graph.branchOf owner = draft.graph.branchOf owner := by
  cases owner with
  | line id => exact congrArg Prod.fst (draft.attached_closeDialogue id)
  | choice id =>
      exact congrArg Choice.branch (Graph.choice_congr draft.graphChoices_closeDialogue id)

end Draft

section Reading

variable (scope : Scope) (statements : List Statement)

/-- The line or choice to which the statement at a place attaches a branch, if it is a first
arm. -/
def ownerAt (place : Nat) : Option Owner :=
  statements[place]?.bind (draftAfter scope statements place).branchedBy

/-- The first arms at two places attach their branches to the same line or choice. -/
def SharesOwner (earlier later : Nat) : Prop :=
  ∃ owner, ownerAt scope statements earlier = some owner ∧
    ownerAt scope statements later = some owner

/-- The statement at a place is a line with return markers or a terminal option, so what
comes right after it does not follow it. -/
def IsUnremembered (place : Nat) : Prop :=
  (constructAt statements place = some .speech ∧ ¬ IsPlain statements place) ∨
    IsOption statements true place

variable {scope statements} {final : Draft} {place earlier later : Nat} {statement : Statement}

theorem sound_draftAfter (count : Nat) : (draftAfter scope statements count).Sound scope := by
  unfold draftAfter
  split
  · rename_i draft read
    exact Draft.Sound.empty.stepAll read
  · exact Draft.Sound.empty

theorem constructAt_of_ownerAt {owner : Owner}
    (owned : ownerAt scope statements place = some owner) :
    constructAt statements place = some .ifArm := by
  obtain ⟨statement, found, attached⟩ := Option.bind_eq_some_iff.mp owned
  rw [constructAt_of_found found]
  unfold Draft.branchedBy at attached
  split at attached
  · rename_i construct
    rw [construct]
  · cases attached

/-- Every first arm finds an owner for its branch. -/
theorem exists_ownerAt (read : Draft.empty.stepAll scope statements = .ok final)
    (first : constructAt statements place = some .ifArm) :
    ∃ owner, ownerAt scope statements place = some owner := by
  obtain ⟨statement, found, construct⟩ := Option.map_eq_some_iff.mp first
  obtain ⟨-, -, owner, attached⟩ := Draft.exists_branchedBy_of_step construct
    (step_draftAfter read found)
  exact ⟨owner, Option.bind_eq_some_iff.mpr ⟨statement, found, attached⟩⟩

/-- The branch of a line or choice after one more statement. -/
theorem branchOf_draftAfter_succ (read : Draft.empty.stepAll scope statements = .ok final)
    (within : place < statements.length) (owner : Owner) :
    (draftAfter scope statements (place + 1)).graph.branchOf owner =
      if ownerAt scope statements place = some owner then
        some (branchOpenedAt scope statements place)
      else (draftAfter scope statements place).graph.branchOf owner := by
  have found : statements[place]? = some statements[place] := List.getElem?_eq_getElem within
  rw [Draft.branchOf_of_step (orderly_draftAfter place) (nested_draftAfter place)
    (step_draftAfter read found), ownerAt, found]
  rfl

/-- Something has a branch exactly if a first arm has attached one to it. -/
theorem branchOf_draftAfter_eq_none_iff
    (read : Draft.empty.stepAll scope statements = .ok final) {count : Nat}
    (within : count ≤ statements.length) (owner : Owner) :
    (draftAfter scope statements count).graph.branchOf owner = none ↔
      ∀ earlier < count, ownerAt scope statements earlier ≠ some owner := by
  refine draftAfter_induction (motive := fun count =>
    (draftAfter scope statements count).graph.branchOf owner = none ↔
      ∀ earlier < count, ownerAt scope statements earlier ≠ some owner)
    read (Nat.zero_le count) within ?_ ?_
  · constructor
    · exact fun _ earlier before => absurd before (Nat.not_lt_zero earlier)
    · intro _
      cases owner <;> rfl
  · intro place statement _ _ found _ soFar
    rw [branchOf_draftAfter_succ read (List.getElem?_eq_some_iff.mp found).1 owner]
    constructor
    · intro free earlier before
      split at free
      · cases free
      · rename_i other
        rcases Nat.lt_or_eq_of_le (Nat.le_of_lt_succ before) with early | rfl
        · exact soFar.mp free earlier early
        · exact other
    · intro others
      rw [if_neg (others place (Nat.lt_succ_self place))]
      exact soFar.mpr fun earlier before => others earlier (Nat.lt_succ_of_lt before)

/-- In the end something has the branch of a first arm exactly if the arm attached it there and
no later arm attached another one. -/
theorem branchOf_eq_branchOpenedAt_iff
    (read : Draft.empty.stepAll scope statements = .ok final)
    (first : constructAt statements place = some .ifArm) (owner : Owner) :
    final.closeDialogue.graph.branchOf owner = some (branchOpenedAt scope statements place) ↔
      ownerAt scope statements place = some owner ∧
        ∀ later, place < later → ownerAt scope statements later ≠ some owner := by
  obtain ⟨statement, found, -⟩ := Option.map_eq_some_iff.mp first
  have within := (List.getElem?_eq_some_iff.mp found).1
  let given : Nat → Option BranchIndex := fun time =>
    if ownerAt scope statements time = some owner then
      some (branchOpenedAt scope statements time)
    else none
  have silent_iff : ∀ time, given time = none ↔ ownerAt scope statements time ≠ some owner := by
    intro time
    by_cases owns : ownerAt scope statements time = some owner <;> simp [given, owns]
  -- The branch of this arm is attached by this arm if by any up to here.
  have attached : (draftAfter scope statements (place + 1)).graph.branchOf owner =
      some (branchOpenedAt scope statements place) ↔
        ownerAt scope statements place = some owner := by
    rw [branchOf_draftAfter_succ read within owner]
    by_cases owns : ownerAt scope statements place = some owner
    · rw [if_pos owns]
      exact iff_of_true rfl owns
    · rw [if_neg owns]
      refine iff_of_false (fun old => ?_) owns
      exact Nat.lt_irrefl _ ((sound_draftAfter place).lt_of_branchOf old)
  rw [Draft.branchOf_closeDialogue, ← draftAfter_length read, ← attached]
  refine (eq_iff_of_writes
    (fun count => (draftAfter scope statements count).graph.branchOf owner) given
    (Nat.succ_le_of_lt within) ?_ ?_ ?_).trans ?_
  · intro time past
    rw [silent_iff, ownerAt, List.getElem?_eq_none past]
    simp
  · intro time _ before
    show (draftAfter scope statements (time + 1)).graph.branchOf owner = _
    rw [branchOf_draftAfter_succ read before owner]
    by_cases owns : ownerAt scope statements time = some owner <;> simp [given, owns]
  · intro time after before written wrote same
    dsimp only [given] at wrote
    split at wrote
    · cases wrote
      have opened := Draft.size_branches_of_step (step_draftAfter read found)
      rw [if_pos (Option.some.inj ((constructAt_of_found found).symm.trans first))] at opened
      have mono := size_branches_mono read after (Nat.le_of_lt before)
      rw [opened] at mono
      exact Nat.ne_of_gt (Nat.lt_of_succ_le mono) (Option.some.inj same)
    · cases wrote
  · simp only [silent_iff]
    exact Iff.rfl

/-- The branch of a first arm has one owner in the end exactly if no later arm takes it
away. -/
theorem ownedOnce_branchOpenedAt_iff (read : Draft.empty.stepAll scope statements = .ok final)
    (first : constructAt statements place = some .ifArm) :
    final.closeDialogue.graph.OwnedOnce (branchOpenedAt scope statements place) ↔
      ∀ later, place < later → ¬ SharesOwner scope statements place later := by
  have owned_iff := branchOf_eq_branchOpenedAt_iff read first
  obtain ⟨owner, attached⟩ := exists_ownerAt read first
  constructor
  · rintro ⟨held, owns, -⟩ later after ⟨other, owned, shared⟩
    obtain ⟨same, alone⟩ := (owned_iff held).mp owns
    rw [same] at owned
    exact alone later after (owned ▸ shared)
  · intro alone
    refine ⟨owner, (owned_iff owner).mpr ⟨attached, fun later after shared =>
      alone later after ⟨owner, attached, shared⟩⟩, fun other owns => ?_⟩
    have same := ((owned_iff other).mp owns).1
    rw [attached] at same
    exact (Option.some.inj same).symm

/-- Every branch has been opened by a first arm. -/
theorem exists_branchOpenedAt (read : Draft.empty.stepAll scope statements = .ok final)
    {id : BranchIndex} (known : id < final.closeDialogue.graph.branches.size) :
    ∃ place, constructAt statements place = some .ifArm ∧
      branchOpenedAt scope statements place = id := by
  have size : final.closeDialogue.graph.branches.size =
      (draftAfter scope statements statements.length).graph.branches.size := by
    rw [draftAfter_length read]
    exact Draft.closeDialogue_keeps (fun closed => closed.graph.branches.size)
      Draft.size_branches_completeBranch final
  rw [size] at known
  revert known
  refine draftAfter_induction (motive := fun count =>
    id < (draftAfter scope statements count).graph.branches.size →
      ∃ place, constructAt statements place = some .ifArm ∧
        branchOpenedAt scope statements place = id)
    read (Nat.zero_le _) (Nat.le_refl _) ?_ ?_
  · intro known
    exact absurd known (Nat.not_lt_zero id)
  · intro place statement _ _ found stepped soFar known
    rw [Draft.size_branches_of_step stepped] at known
    by_cases older : id < (draftAfter scope statements place).graph.branches.size
    · exact soFar older
    · by_cases construct : statement.construct = .ifArm
      · rw [if_pos construct] at known
        refine ⟨place, construct ▸ constructAt_of_found found, ?_⟩
        exact Nat.le_antisymm (Nat.le_of_not_lt older) (Nat.le_of_lt_succ known)
      · rw [if_neg construct] at known
        exact absurd known older

/-- A first arm finds what the statement before it has left on top: no relay comes in
between. -/
theorem owner?_of_ownerAt (read : Draft.empty.stepAll scope statements = .ok final)
    {owner : Owner} (attached : ownerAt scope statements place = some owner) :
    (draftAfter scope statements place).owner? = some owner ∧
      (draftAfter scope statements place).latest ≠ .branch := by
  obtain ⟨arm, found, owns⟩ := Option.bind_eq_some_iff.mp attached
  have isArm : arm.construct = .ifArm :=
    Option.some.inj ((constructAt_of_found found).symm.trans (constructAt_of_ownerAt attached))
  obtain ⟨complete, fits, -⟩ := Draft.exists_branchedBy_of_step isArm (step_draftAfter read found)
  have closed := Draft.closeDeepBranches_of_completeBelow complete
  constructor
  · rw [Draft.branchedBy, if_pos isArm, closed] at owns
    exact owns
  · intro latest
    rw [closed] at fits
    simp [Draft.checkIfArm, latest, bind, Except.bind, throw, throwThe,
      MonadExceptOf.throw] at fits

/-- The relay that would own a branch at the start of a dialogue is new. -/
theorem branchOf_owner?_of_dialogue (read : Draft.empty.stepAll scope statements = .ok final)
    (found : statements[place]? = some statement) (construct : statement.construct = .dialogue)
    {owner : Owner} (ownerIs : (draftAfter scope statements (place + 1)).owner? = some owner) :
    (draftAfter scope statements (place + 1)).graph.branchOf owner = none := by
  have stepped := step_draftAfter read found
  unfold Draft.step at stepped
  simp only [construct] at stepped
  obtain ⟨title, -, -, -, begun⟩ := Draft.stepTitle_eq_ok_iff.mp stepped
  have latest : (draftAfter scope statements (place + 1)).latest = .title := by
    rw [begun]
    rfl
  rw [Draft.owner?, latest] at ownerIs
  cases ownerIs
  exact congrArg Line.branch (Graph.line_eq_relay _ (Nat.le_refl _))

/-- The choice of an option that may have a body is new. -/
theorem branchOf_owner?_of_option (read : Draft.empty.stepAll scope statements = .ok final)
    (option : IsOption statements false place)
    {owner : Owner} (ownerIs : (draftAfter scope statements (place + 1)).owner? = some owner) :
    (draftAfter scope statements (place + 1)).graph.branchOf owner = none := by
  have last := option.isLast read
  obtain ⟨outer, innermost⟩ := last.innermost
  rw [Draft.owner?, last.latest, innermost] at ownerIs
  cases ownerIs
  exact last.fresh.2

/-- A line that waits is new. -/
theorem branchOf_owner?_of_isPlain (read : Draft.empty.stepAll scope statements = .ok final)
    (plain : IsPlain statements place)
    {owner : Owner} (ownerIs : (draftAfter scope statements (place + 1)).owner? = some owner) :
    (draftAfter scope statements (place + 1)).graph.branchOf owner = none := by
  obtain ⟨statement, speech, found, construct, readSpeech, unmarked⟩ := plain
  have stepped := step_draftAfter read found
  have unattached := Draft.branch_line_of_step (orderly_draftAfter place) stepped
    (((draftAfter scope statements place).roomFor statement).graph.lines.size)
  rw [Draft.branchedBy, if_neg (by simp [construct]),
    Graph.line_eq_relay _ (Draft.extends_roomFor _ statement).size] at unattached
  unfold Draft.step at stepped
  simp only [construct] at stepped
  have latest := (Draft.stacks_of_stepSpeech stepped).2.2
  obtain ⟨other, readOther, lines⟩ := Draft.lines_of_stepSpeech stepped
  rw [readSpeech] at readOther
  cases readOther
  rw [if_pos unmarked] at lines
  rw [Draft.owner?, latest, lines] at ownerIs
  cases ownerIs
  exact unattached

/-- A first arm right behind a statement that is remembered finds an owner without a branch. -/
theorem branchOf_eq_none_of_remembered (read : Draft.empty.stepAll scope statements = .ok final)
    {owner : Owner} (attached : ownerAt scope statements (place + 1) = some owner)
    (remembered : ¬ IsUnremembered statements place) :
    (draftAfter scope statements (place + 1)).graph.branchOf owner = none := by
  obtain ⟨ownerIs, notArm⟩ := owner?_of_ownerAt read attached
  obtain ⟨arm, foundArm, -⟩ := Option.bind_eq_some_iff.mp attached
  have within : place < statements.length :=
    Nat.lt_of_succ_lt (List.getElem?_eq_some_iff.mp foundArm).1
  have found : statements[place]? = some statements[place] := List.getElem?_eq_getElem within
  have stepped := step_draftAfter read found
  rcases construct : statements[place].construct with _ | _ | _ | _ | _
  · exact branchOf_owner?_of_dialogue read found construct ownerIs
  · unfold Draft.step at stepped
    simp only [construct] at stepped
    obtain ⟨option, readOption, -, -, -⟩ := Draft.stacks_of_stepOption stepped
    have isOption : IsOption statements option.terminal place :=
      ⟨_, option, found, construct, readOption, rfl⟩
    rcases terminal : option.terminal with _ | _
    · exact branchOf_owner?_of_option read (terminal ▸ isOption) ownerIs
    · exact absurd (Or.inr (terminal ▸ isOption)) remembered
  · unfold Draft.step at stepped
    simp only [construct] at stepped
    exact absurd (Draft.stacks_of_stepIfArm stepped).2.2 notArm
  · unfold Draft.step at stepped
    simp only [construct] at stepped
    exact absurd (Draft.stacks_of_stepElseArm stepped).2.2 notArm
  · have plain : IsPlain statements place := by
      apply Classical.byContradiction
      intro marked
      exact remembered (Or.inl ⟨construct ▸ constructAt_of_found found, marked⟩)
    exact branchOf_owner?_of_isPlain read plain ownerIs

/-- A first arm that takes the owner of another one stands right behind a line with return
markers or a terminal option. -/
theorem SharesOwner.unremembered (read : Draft.empty.stepAll scope statements = .ok final)
    (before : earlier < later) (shares : SharesOwner scope statements earlier later) :
    ∃ place, later = place + 1 ∧ IsUnremembered statements place := by
  obtain ⟨owner, owned, taken⟩ := shares
  obtain ⟨statement, found, -⟩ := Option.bind_eq_some_iff.mp taken
  have within := Nat.le_of_lt (List.getElem?_eq_some_iff.mp found).1
  obtain ⟨place, rfl⟩ : ∃ place, later = place + 1 :=
    ⟨later - 1, (Nat.sub_add_cancel (Nat.one_le_of_lt before)).symm⟩
  refine ⟨place, rfl, ?_⟩
  apply Classical.byContradiction
  intro remembered
  have free := branchOf_eq_none_of_remembered read taken remembered
  exact (branchOf_draftAfter_eq_none_iff read within owner).mp free earlier before owned

end Reading

end Parley
