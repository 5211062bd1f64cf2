import Parley.Proofs.Draft.Roots
import Parley.Proofs.Draft.Sorted
import Parley.Proofs.Graph.Lookup

/-!
# Reading a script under watch

Open nodes are kept by their places and are used much later.  Here a watch is asked before a node
of the graph is looked up or changed, before a line is given a successor and before a loop closes
open nodes, and it may forbid it; then reading has no outcome at all.  A watch is lenient if it
allows the use of every node that is there, a successor to every line that has none, and every loop
that takes exactly the nodes beyond its bound.  Under a lenient watch a script is read as it is
without one, be that a success or a fault: whatever is used is there, whatever is linked had no
successor, and every loop is exact.
-/

namespace Parley

open Parley.Script
open Parley.Text

/-- What may be done while a script is read. -/
structure Watch where
  /-- Whether a node of a graph may be looked up or changed. -/
  mayUse : Graph → Graph.Address → Bool
  /-- Whether a line of a graph may be given a successor. -/
  mayLink : Graph → LineIndex → Bool
  /-- Whether a loop may close open nodes of a draft. -/
  mayClose : Draft → ScopeLoop → Bool

namespace Watch

/-- A watch that only lets nodes be used which are there. -/
def presentNodes : Watch where
  mayUse graph address := graph.has address
  mayLink _ _ := true
  mayClose _ _ := true

/-- A watch that only lets lines without a successor be given one. -/
def writeOnce : Watch where
  mayUse _ _ := true
  mayLink graph id := (graph.line id).next = none
  mayClose _ _ := true

/-- A watch that only lets loops run which take exactly the nodes beyond their bound. -/
def exactLoops : Watch where
  mayUse _ _ := true
  mayLink _ _ := true
  mayClose draft loop := loop.IsExact draft

/-- A watch that allows what is done as it should be. -/
structure Lenient (watch : Watch) : Prop where
  use : ∀ graph address, graph.has address = true → watch.mayUse graph address = true
  link : ∀ graph id, (graph.line id).next = none → watch.mayLink graph id = true
  close : ∀ draft loop, loop.IsExact draft → watch.mayClose draft loop = true

theorem Lenient.presentNodes : Watch.presentNodes.Lenient where
  use _ _ present := present
  link _ _ _ := rfl
  close _ _ _ := rfl

theorem Lenient.writeOnce : Watch.writeOnce.Lenient where
  use _ _ _ := rfl
  link _ _ unfollowed := decide_eq_true unfollowed
  close _ _ _ := rfl

theorem Lenient.exactLoops : Watch.exactLoops.Lenient where
  use _ _ _ := rfl
  link _ _ _ := rfl
  close _ _ isExact := decide_eq_true isExact

/-! ## Reading -/

section Reading

variable (watch : Watch)

/-- What a look-up or a change of a node gives, if the watch allows it. -/
def use? {α : Type} (graph : Graph) (address : Graph.Address) (result : α) : Option α :=
  if watch.mayUse graph address then some result else none

/-- Look up a branch. -/
def branch? (graph : Graph) (id : BranchIndex) : Option Branch :=
  watch.use? graph (.branch id) (graph.branch id)

/-- Look up a choice. -/
def choice? (graph : Graph) (id : ChoiceIndex) : Option Choice :=
  watch.use? graph (.choice id) (graph.choice id)

/-- Change a line. -/
def modifyLine? (graph : Graph) (id : LineIndex) (change : Line → Line) : Option Graph :=
  watch.use? graph (.line id) (graph.modifyLine id change)

/-- Change a branch. -/
def modifyBranch? (graph : Graph) (id : BranchIndex) (change : Branch → Branch) : Option Graph :=
  watch.use? graph (.branch id) (graph.modifyBranch id change)

/-- Change a choice. -/
def modifyChoice? (graph : Graph) (id : ChoiceIndex) (change : Choice → Choice) : Option Graph :=
  watch.use? graph (.choice id) (graph.modifyChoice id change)

/-- Let a line be followed by another. -/
def setNext? (graph : Graph) (id next : LineIndex) : Option Graph :=
  if watch.mayLink graph id then
    watch.modifyLine? graph id fun line => { line with next := some next }
  else none

/-- Run a loop over open nodes that only takes them from their stack. -/
def close? (draft : Draft) (loop : ScopeLoop) : Option Draft :=
  if watch.mayClose draft loop then some (loop.run draft) else none

/-- Leave the nodes deeper than an indentation and close the choices at it. -/
def dedent? (draft : Draft) (indent : Nat) : Option Draft := do
  let left ← watch.close? draft (.lines indent)
  watch.close? left (.choices indent)

/-- Let lines that were left behind be followed by a line. -/
def linkStrays? (draft : Draft) (ready : OpenNode → Bool) (next : LineIndex) : Option Draft := do
  let linked ← (draft.strays.takeWhile ready).foldlM
    (fun graph stray => watch.setNext? graph stray.id next) draft.graph
  return { draft with graph := linked, strays := draft.strays.dropWhile ready }

/-- Give a branch an arm without conditions.  Its relay closes the choices in the other arms. -/
def addDefaultArm? (draft : Draft) (branch : OpenNode) : Option Draft := do
  let relay := draft.graph.lines.size
  let armed ← watch.modifyBranch? (draft.graph.addLine .relay) branch.id
    fun held => held.addArm [] (some relay)
  watch.close?
    { draft with
      graph := armed
      lines := ⟨relay, branch.indent + 1⟩ :: draft.lines
      latest := .line }
    (.choices (branch.indent + 1))

/-- Complete a branch that is closed. -/
def completeBranch? (draft : Draft) (branch : OpenNode) : Option Draft := do
  let held ← watch.branch? draft.graph branch.id
  if held.isExhaustive then return draft else watch.addDefaultArm? draft branch

/-- Close the branches deeper than an indentation. -/
def closeDeepBranches? (draft : Draft) (indent : Nat) : Option Draft :=
  if watch.mayClose draft (.branches indent) then
    (draft.branches.takeWhile fun branch => indent < branch.indent).foldlM watch.completeBranch?
      { draft with branches := draft.branches.dropWhile fun branch => indent < branch.indent }
  else none

/-- Close the innermost branch if it stands at an indentation. -/
def closeBranchAt? (draft : Draft) (indent : Nat) : Option Draft :=
  match draft.branches with
  | branch :: outer =>
      if branch.indent = indent then watch.completeBranch? { draft with branches := outer } branch
      else some draft
  | [] => some draft

/-- Close every branch. -/
def closeDialogue? (draft : Draft) : Option Draft :=
  draft.branches.foldlM watch.completeBranch? { draft with branches := [] }

/-- Let a choice without a body lead to a relay. -/
def endChoice? (draft : Draft) (choice : OpenNode) : Option Draft := do
  let relay := draft.graph.lines.size
  let ended ← watch.modifyChoice? (draft.graph.addLine .relay) choice.id
    fun held => { held with next := some relay }
  return { draft with graph := ended, strays := ⟨relay, choice.indent + 1⟩ :: draft.strays }

/-- End a choice that a line shows to have no body. -/
def settleChoice? (draft : Draft) (indent : Nat) : Option Draft :=
  if draft.latest = .choice then
    match draft.choices with
    | choice :: _ =>
        if indent ≤ choice.indent then do
          let ended ← watch.endChoice? draft choice
          return { ended with latest := .line }
        else some draft
    | [] => some draft
  else some draft

/-- End the last choice, if that was made last. -/
def finishBodiless? (draft : Draft) : Option Draft :=
  if draft.latest = .choice then
    match draft.choices with
    | bodiless :: outer => watch.endChoice? { draft with choices := outer } bodiless
    | [] => some draft
  else some draft

/-- Add a choice under a line. -/
def addChoiceUnder? (draft : Draft) (choice : Choice) : Option Draft := do
  let id := draft.graph.choices.size
  let offered ← watch.modifyLine? (draft.graph.addChoice choice) choice.root
    fun root => { root with choices := root.choices ++ [id] }
  return { draft with graph := offered }

/-- Let a branch follow what was made last. -/
def attachBranch? (draft : Draft) (title : String) (branch : BranchIndex) : Option Draft :=
  match draft.latest with
  | .title =>
      let relay := draft.graph.lines.size
      some { draft with
        graph := (draft.graph.addLine { Line.relay with branch := some branch }).addEntry
          title relay }
  | .choice =>
      match draft.choices with
      | choice :: _ => do
          let attached ← watch.modifyChoice? draft.graph choice.id
            fun held => { held with branch := some branch }
          return { draft with graph := attached }
      | [] => some draft
  | .nothing | .line | .branch =>
      match draft.lines with
      | owner :: _ => do
          let attached ← watch.modifyLine? draft.graph owner.id
            fun held => { held with branch := some branch }
          return { draft with graph := attached }
      | [] => some draft

/-- Whether a branch may get a further arm. -/
def checkElseArm? (draft : Draft) (branch : BranchIndex) : ExceptT Fault Option Unit :=
  if draft.latest = .line ∨ draft.latest = .choice then do
    let held ← watch.branch? draft.graph branch
    if held.isExhaustive then throw (.malformed .elseAfterElse) else pure ()
  else throw (.malformed .misplacedElse)

/-- Let a spoken line follow what was made last. -/
def attachSpeech? (draft : Draft) (title : String) (id : LineIndex) (indent : Nat) :
    ExceptT Fault Option Draft :=
  match draft.latest with
  | .nothing => pure draft
  | .title => pure { draft with graph := draft.graph.addEntry title id }
  | .line =>
      match draft.lines with
      | [] => throw (.malformed .lineIndent)
      | earlier :: waiting => do
          let followed ← watch.setNext? draft.graph earlier.id id
          watch.linkStrays? { draft with graph := followed, lines := waiting }
            (fun stray => indent ≤ stray.indent) id
  | .choice =>
      match draft.choices with
      | choice :: _ => do
          let entered ← watch.modifyChoice? draft.graph choice.id
            fun held => { held with next := some id }
          return { draft with graph := entered }
      | [] => pure draft
  | .branch =>
      match draft.branches with
      | branch :: _ => do
          let entered ← watch.modifyBranch? draft.graph branch.id fun held => held.setLastBody id
          return { draft with graph := entered }
      | [] => pure draft

/-- The root of the choice to which a number of return markers leads. -/
def markedRoot? (draft : Draft) (depth : Nat) : ExceptT Fault Option LineIndex :=
  match draft.choices.drop (depth - 1) with
  | choice :: _ => do
      let held ← watch.choice? draft.graph choice.id
      return held.root
  | [] => throw (.malformed (.returnTooFar depth draft.choices.length))

/-- Let a spoken line wait, or follow its return markers. -/
def directSpeech? (draft : Draft) (id : LineIndex) (indent depth : Nat) :
    ExceptT Fault Option Draft :=
  if depth = 0 then pure { draft with lines := ⟨id, indent⟩ :: draft.lines }
  else do
    let target ← watch.markedRoot? draft depth
    let directed ← watch.setNext? draft.graph id target
    return { draft with graph := directed }

/-- Let a spoken line follow the deeper lines left behind. -/
def gatherStrays? (draft : Draft) (id : LineIndex) (indent : Nat) : Option Draft :=
  if draft.choices.isEmpty then watch.linkStrays? draft (fun stray => indent < stray.indent) id
  else some draft

/-- Begin a dialogue. -/
def stepTitle? (draft : Draft) (statement : Statement) : ExceptT Fault Option Draft := do
  let name := trim (statement.content.drop 1)
  let title := String.ofList name
  if name = [] then throw (.malformed .missingTitle)
  else
    let closed ← watch.closeDialogue? draft
    if title ∈ closed.declared then throw (.malformed (.duplicateTitle title))
    else
      return {
        graph := closed.graph
        declared := title :: closed.declared
        title := some title
        latest := .title
        lines := []
        strays := []
        choices := []
        branches := [] }

/-- Offer a choice. -/
def stepOption? (scope : Scope) (draft : Draft) (statement : Statement) :
    ExceptT Fault Option Draft := do
  let option ← OptionLine.read statement.content
  let commands ← Draft.readBlock scope option.block
  let conditions ← Draft.readGuard scope option.condition
  let draft ← watch.close? draft (.lines statement.indent)
  let root ← draft.optionRoot statement.indent
  let id := draft.graph.choices.size
  let draft ← watch.addChoiceUnder? draft (Choice.fresh option.text conditions commands root)
  let draft ← watch.finishBodiless? draft
  let draft ← watch.close? draft (.choices statement.indent)
  if option.terminal then
    return draft
  else
    return { draft with choices := ⟨id, statement.indent⟩ :: draft.choices, latest := .choice }

/-- Begin a branch. -/
def stepIfArm? (scope : Scope) (draft : Draft) (statement : Statement) :
    ExceptT Fault Option Draft := do
  let title ← draft.currentTitle
  draft.checkIfArm statement.indent
  match ← ArmLine.read statement.content with
  | none => throw (.malformed .bareIf)
  | some source =>
      let conditions ← scope.readConditions source
      let branch := draft.graph.branches.size
      let draft := { draft with
        graph := draft.graph.addBranch ⟨[⟨conditions, none⟩]⟩
        branches := ⟨branch, statement.indent⟩ :: draft.branches }
      let draft ← watch.attachBranch? draft title branch
      let draft ← watch.dedent? draft statement.indent
      return { draft with latest := .branch }

/-- Add an arm to a branch. -/
def stepElseArm? (scope : Scope) (draft : Draft) (statement : Statement) :
    ExceptT Fault Option Draft := do
  let source ← ArmLine.read statement.content
  let branch ← draft.branchAt statement.indent
  watch.checkElseArm? draft branch
  let conditions ← Draft.readGuard scope source
  let extended ← watch.modifyBranch? draft.graph branch fun held => held.addArm conditions none
  let draft ← watch.dedent? { draft with graph := extended } statement.indent
  return { draft with latest := .branch }

/-- Add a spoken line. -/
def stepSpeech? (scope : Scope) (draft : Draft) (statement : Statement) :
    ExceptT Fault Option Draft := do
  let title ← draft.currentTitle
  let draft ← watch.settleChoice? draft statement.indent
  draft.checkSpeech statement.indent
  let draft ← watch.closeBranchAt? draft statement.indent
  let speech ← Speech.read statement.content
  let commands ← Draft.readBlock scope speech.block
  let id := draft.graph.lines.size
  let draft := draft.addLine
    (Line.spoken speech.speaker speech.text speech.expression commands)
  let draft ← watch.attachSpeech? draft title id statement.indent
  let draft ← watch.dedent? draft statement.indent
  let draft ← watch.directSpeech? draft id statement.indent speech.returnDepth
  let draft ← watch.gatherStrays? draft id statement.indent
  return { draft with latest := .line }

/-- Read a statement. -/
def step? (scope : Scope) (draft : Draft) (statement : Statement) :
    ExceptT Fault Option Draft := do
  let draft ← watch.closeDeepBranches? draft statement.indent
  match statement.construct with
  | .dialogue => watch.stepTitle? draft statement
  | .option => watch.stepOption? scope draft statement
  | .ifArm => watch.stepIfArm? scope draft statement
  | .elseArm => watch.stepElseArm? scope draft statement
  | .speech => watch.stepSpeech? scope draft statement

/-- Read statements in order, up to the first that cannot be read. -/
def stepAll? (scope : Scope) : Draft → List Statement → ExceptT Diagnostic Option Draft
  | draft, [] => pure draft
  | draft, statement :: rest => do
      match ← liftM (watch.step? scope draft statement).run with
      | .error fault => throw ((Diagnostic.ofFault fault).atLine statement.number)
      | .ok next => stepAll? scope next rest

/-- The graph of a draft to which nothing is added any more. -/
def finish? (draft : Draft) : ExceptT Diagnostic Option Graph := do
  let closed ← watch.closeDialogue? draft
  if closed.graph.entries.isEmpty then throw (Diagnostic.ofFault .emptyScript)
  else return closed.graph

end Reading

/-! ## Under a lenient watch -/

section Lenient

variable {watch : Watch} (lenient : watch.Lenient) {scope : Scope} {draft before after : Draft}
  {statement : Statement} {graph : Graph}

include lenient

theorem Lenient.use? {α : Type} {address : Graph.Address} (present : graph.has address = true)
    (result : α) : watch.use? graph address result = some result :=
  if_pos (lenient.use graph address present)

theorem Lenient.branch? {id : BranchIndex} (known : id < graph.branches.size) :
    watch.branch? graph id = some (graph.branch id) :=
  lenient.use? (Graph.has_branch known) _

theorem Lenient.choice? {id : ChoiceIndex} (known : id < graph.choices.size) :
    watch.choice? graph id = some (graph.choice id) :=
  lenient.use? (Graph.has_choice known) _

theorem Lenient.modifyLine? {id : LineIndex} (known : id < graph.lines.size)
    (change : Line → Line) :
    watch.modifyLine? graph id change = some (graph.modifyLine id change) :=
  lenient.use? (Graph.has_line known) _

theorem Lenient.modifyBranch? {id : BranchIndex} (known : id < graph.branches.size)
    (change : Branch → Branch) :
    watch.modifyBranch? graph id change = some (graph.modifyBranch id change) :=
  lenient.use? (Graph.has_branch known) _

theorem Lenient.modifyChoice? {id : ChoiceIndex} (known : id < graph.choices.size)
    (change : Choice → Choice) :
    watch.modifyChoice? graph id change = some (graph.modifyChoice id change) :=
  lenient.use? (Graph.has_choice known) _

theorem Lenient.setNext? {id : LineIndex} (known : id < graph.lines.size)
    (unfollowed : (graph.line id).next = none) (next : LineIndex) :
    watch.setNext? graph id next = some (graph.setNext id next) := by
  rw [Watch.setNext?, if_pos (lenient.link graph id unfollowed)]
  exact lenient.modifyLine? known _

theorem Lenient.close? {loop : ScopeLoop} (isExact : loop.IsExact draft) :
    watch.close? draft loop = some (loop.run draft) :=
  if_pos (lenient.close draft loop isExact)

/-- Choices that lie in order may be left. -/
theorem Lenient.leaveChoices? (sorted : Descends draft.choices) (indent : Nat) :
    watch.close? draft (.choices indent) = some (draft.leaveChoices indent) :=
  lenient.close? (ScopeLoop.isExact_of_sorted sorted)

/-- Lines may be left behind if those that stay open lie in order. -/
theorem Lenient.abandonDeepLines? {indent : Nat}
    (sorted : Descends (draft.lines.dropWhile fun line => indent < line.indent)) :
    watch.close? draft (.lines indent) = some (draft.abandonDeepLines indent) :=
  lenient.close? (ScopeLoop.isExact_of_rest sorted)

theorem Lenient.dedent? {indent : Nat} (nearly : draft.NearlySorted indent) :
    watch.dedent? draft indent = some (draft.dedent indent) := by
  rw [Watch.dedent?, lenient.abandonDeepLines? nearly.lines]
  apply lenient.leaveChoices?
  exact nearly.choices

/-! ### Closing branches -/

theorem Lenient.addDefaultArm? (sorted : Descends draft.choices) {branch : OpenNode}
    (known : branch.id < draft.graph.branches.size) :
    watch.addDefaultArm? draft branch = some (draft.addDefaultArm branch) := by
  have grown : branch.id < (draft.graph.addLine .relay).branches.size := known
  rw [Watch.addDefaultArm?, lenient.modifyBranch? grown]
  apply lenient.leaveChoices?
  exact sorted

theorem Lenient.completeBranch? (sorted : Descends draft.choices) {branch : OpenNode}
    (known : branch.id < draft.graph.branches.size) :
    watch.completeBranch? draft branch = some (draft.completeBranch branch) := by
  rw [Watch.completeBranch?, lenient.branch? known, Draft.completeBranch]
  show (if _ then _ else _) = _
  split
  · rfl
  · exact lenient.addDefaultArm? sorted known

/-- Closing branches only ever leaves choices, so they stay in order, and it makes no branch. -/
theorem Lenient.foldlM_completeBranch? (sorted : Descends draft.choices) {closed : List OpenNode}
    (known : ∀ branch ∈ closed, branch.id < draft.graph.branches.size) :
    closed.foldlM watch.completeBranch? draft =
      some (closed.foldl Draft.completeBranch draft) := by
  refine foldlM_eq_some (fun closing : Draft => Descends closing.choices ∧
    closing.graph.branches.size = draft.graph.branches.size) ?_ ⟨sorted, rfl⟩
  rintro closing ⟨sorted, size⟩ branch member
  have suffix := closing.choices_completeBranch_suffix branch closing.branches
  have same := closing.size_branches_completeBranch branch closing.branches
  exact ⟨lenient.completeBranch? sorted (size ▸ known branch member),
    sorted.sublist suffix.sublist, same.trans size⟩

theorem Lenient.closeDeepBranches? (tidy : draft.Tidy) (indent : Nat) :
    watch.closeDeepBranches? draft indent = some (draft.closeDeepBranches indent) := by
  have isExact : (ScopeLoop.branches indent).IsExact draft :=
    ScopeLoop.isExact_of_sorted tidy.sorted.branches
  rw [Watch.closeDeepBranches?, if_pos (lenient.close draft _ isExact)]
  apply lenient.foldlM_completeBranch?
  · exact tidy.sorted.descending_choices
  · exact fun branch member =>
      tidy.nested.knownBranches branch ((List.takeWhile_sublist _).mem member)

theorem Lenient.closeBranchAt? (sorted : Descends draft.choices)
    (known : ∀ branch ∈ draft.branches, branch.id < draft.graph.branches.size) (indent : Nat) :
    watch.closeBranchAt? draft indent = some (draft.closeBranchAt indent) := by
  rcases stack : draft.branches with _ | ⟨branch, outer⟩
  · simp only [Watch.closeBranchAt?, Draft.closeBranchAt, stack]
  · simp only [Watch.closeBranchAt?, Draft.closeBranchAt, stack]
    split
    · apply lenient.completeBranch?
      · exact sorted
      · exact known branch (stack ▸ List.mem_cons_self)
    · rfl

theorem Lenient.closeDialogue? (sorted : Descends draft.choices) (nested : draft.Nested) :
    watch.closeDialogue? draft = some draft.closeDialogue := by
  apply lenient.foldlM_completeBranch?
  · exact sorted
  · exact nested.knownBranches

/-! ### Choices -/

theorem Lenient.endChoice? {choice : OpenNode} (known : choice.id < draft.graph.choices.size) :
    watch.endChoice? draft choice = some (draft.endChoice choice) := by
  have grown : choice.id < (draft.graph.addLine .relay).choices.size := known
  rw [Watch.endChoice?, lenient.modifyChoice? grown]
  rfl

theorem Lenient.settleChoice? (nested : draft.Nested) (indent : Nat) :
    watch.settleChoice? draft indent = some (draft.settleChoice indent) := by
  unfold Watch.settleChoice? Draft.settleChoice
  split
  · rcases stack : draft.choices with _ | ⟨choice, outer⟩
    · rfl
    · dsimp only
      split
      · rw [lenient.endChoice? (nested.knownChoices choice (stack ▸ List.mem_cons_self))]
        rfl
      · rfl
  · rfl

theorem Lenient.finishBodiless?
    (known : ∀ choice ∈ draft.choices, choice.id < draft.graph.choices.size) :
    watch.finishBodiless? draft = some draft.finishBodiless := by
  unfold Watch.finishBodiless? Draft.finishBodiless
  split
  · rcases stack : draft.choices with _ | ⟨bodiless, outer⟩
    · rfl
    · exact lenient.endChoice? (known bodiless (stack ▸ List.mem_cons_self))
  · rfl

theorem Lenient.addChoiceUnder? {choice : Choice} (known : choice.root < draft.graph.lines.size) :
    watch.addChoiceUnder? draft choice = some (draft.addChoiceUnder choice) := by
  have grown : choice.root < (draft.graph.addChoice choice).lines.size := known
  rw [Watch.addChoiceUnder?, lenient.modifyLine? grown]
  rfl

/-! ### Arms -/

theorem Lenient.attachBranch? (lines : ∀ line ∈ draft.lines, line.id < draft.graph.lines.size)
    (choices : ∀ choice ∈ draft.choices, choice.id < draft.graph.choices.size) (title : String)
    (branch : BranchIndex) :
    watch.attachBranch? draft title branch = some (draft.attachBranch title branch) := by
  rcases latest : draft.latest with _ | _ | _ | _ | _ <;>
    simp only [Watch.attachBranch?, Draft.attachBranch, latest]
  case choice =>
    rcases stack : draft.choices with _ | ⟨choice, outer⟩
    · rfl
    · have known := choices choice (stack ▸ List.mem_cons_self)
      simp only [lenient.modifyChoice? known]
      rfl
  all_goals
    rcases stack : draft.lines with _ | ⟨owner, outer⟩
    · rfl
    · have known := lines owner (stack ▸ List.mem_cons_self)
      simp only [lenient.modifyLine? known]
      rfl

theorem Lenient.checkElseArm? {branch : BranchIndex}
    (known : branch < draft.graph.branches.size) :
    Finds (fun _ => True) (watch.checkElseArm? draft branch) (draft.checkElseArm branch) := by
  unfold Watch.checkElseArm? Draft.checkElseArm
  split
  · refine .lookUp (lenient.branch? known) ?_
    split
    · exact .error _
    · exact .ok trivial
  · exact .error _

/-! ### Linking -/

/-- Lines without a successor may be given one if none of them is named twice. -/
theorem Lenient.foldlM_setNext? {nodes : List OpenNode}
    (apart : (nodes.map OpenNode.id).Nodup) (known : ∀ node ∈ nodes, node.id < graph.lines.size)
    (unfollowed : ∀ node ∈ nodes, (graph.line node.id).next = none) (next : LineIndex) :
    nodes.foldlM (fun graph node => watch.setNext? graph node.id next) graph =
      some (nodes.foldl (fun graph node => graph.setNext node.id next) graph) := by
  induction nodes generalizing graph with
  | nil => rfl
  | cons node rest ih =>
      obtain ⟨new, apart⟩ := List.nodup_cons.mp apart
      rw [List.foldlM_cons, lenient.setNext? (known node List.mem_cons_self)
        (unfollowed node List.mem_cons_self)]
      apply ih apart
      · intro other member
        rw [Graph.size_lines_setNext]
        exact known other (List.mem_cons_of_mem node member)
      · intro other member
        have different : node.id ≠ other.id :=
          fun same => new (same ▸ List.mem_map_of_mem member)
        rw [Graph.next_setNext, if_neg fun both => different both.1]
        exact unfollowed other (List.mem_cons_of_mem node member)

theorem Lenient.linkStrays? (orderly : draft.Orderly) (ready : OpenNode → Bool)
    (next : LineIndex) :
    watch.linkStrays? draft ready next = some (draft.linkStrays ready next) := by
  have sublist := List.takeWhile_sublist (l := draft.strays) ready
  rw [Watch.linkStrays?, lenient.foldlM_setNext?
    (orderly.nodup_strays.sublist (sublist.map OpenNode.id))
    (fun stray member => orderly.known_stray stray (sublist.mem member))
    fun stray member => orderly.unfollowed_stray stray (sublist.mem member)]
  rfl

/-! ### Spoken lines -/

theorem Lenient.attachSpeech? (orderly : draft.Orderly) (nested : draft.Nested) (title : String)
    (id : LineIndex) (indent : Nat) :
    Finds (fun _ => True) (watch.attachSpeech? draft title id indent)
      (draft.attachSpeech title id indent) := by
  rcases latest : draft.latest with _ | _ | _ | _ | _ <;>
    simp only [Watch.attachSpeech?, Draft.attachSpeech, latest]
  case nothing => exact .ok trivial
  case title => exact .ok trivial
  case line =>
    rcases stack : draft.lines with _ | ⟨earlier, waiting⟩
    · exact .error _
    · have waits : earlier.id ∈ draft.waiting := by
        rw [Draft.waiting, Draft.waitingNodes, stack]
        exact List.mem_cons_self
      -- The line before is followed first, and it is none of those that were left behind.
      let popped : Draft := { draft with
        graph := draft.graph.setNext earlier.id id
        latest := .line
        lines := waiting }
      have others : popped.Orderly := by
        apply orderly.of_linked (Graph.Linked.setNext draft.graph earlier.id id)
        rw [Draft.waiting, Draft.waitingNodes, stack]
        exact List.Perm.refl _
      have linked := lenient.linkStrays? others (fun stray => indent ≤ stray.indent) id
      exact .lookUp
        (lenient.setNext? (orderly.known earlier.id waits) (orderly.unfollowed earlier.id waits) id)
        (.looked linked trivial)
  case choice =>
    rcases stack : draft.choices with _ | ⟨choice, outer⟩
    · exact .ok trivial
    · have known := nested.knownChoices choice (stack ▸ List.mem_cons_self)
      exact .lookUp (lenient.modifyChoice? known _) (.ok trivial)
  case branch =>
    rcases stack : draft.branches with _ | ⟨branch, outer⟩
    · exact .ok trivial
    · have known := nested.knownBranches branch (stack ▸ List.mem_cons_self)
      exact .lookUp (lenient.modifyBranch? known _) (.ok trivial)

theorem Lenient.markedRoot?
    (known : ∀ choice ∈ draft.choices, choice.id < draft.graph.choices.size) (depth : Nat) :
    Finds (fun _ => True) (watch.markedRoot? draft depth) (draft.markedRoot depth) := by
  unfold Watch.markedRoot? Draft.markedRoot
  rcases stack : draft.choices.drop (depth - 1) with _ | ⟨choice, outer⟩
  · exact .error _
  · have isOpen : choice ∈ draft.choices := List.mem_of_mem_drop (stack ▸ List.mem_cons_self)
    exact .lookUp (lenient.choice? (known choice isOpen)) (.ok trivial)

theorem Lenient.directSpeech? {id : LineIndex} (unplaced : draft.Unplaced id)
    (known : ∀ choice ∈ draft.choices, choice.id < draft.graph.choices.size) (indent depth : Nat) :
    Finds (fun _ => True) (watch.directSpeech? draft id indent depth)
      (draft.directSpeech id indent depth) := by
  unfold Watch.directSpeech?
  split
  · rename_i plain
    rw [Draft.directSpeech, if_pos plain]
    exact .ok trivial
  · rename_i marked
    have bound : draft.directSpeech id indent depth = draft.markedRoot depth >>= fun target =>
        .ok { draft with graph := draft.graph.setNext id target } := by
      rw [Draft.directSpeech, if_neg marked]
      cases draft.markedRoot depth <;> rfl
    rw [bound]
    refine .bind (lenient.markedRoot? known depth) fun target _ => ?_
    exact .lookUp (lenient.setNext? unplaced.known unplaced.unfollowed target) (.ok trivial)

theorem Lenient.gatherStrays? (orderly : draft.Orderly) (id : LineIndex) (indent : Nat) :
    watch.gatherStrays? draft id indent = some (draft.gatherStrays id indent) := by
  unfold Watch.gatherStrays? Draft.gatherStrays
  split
  · exact lenient.linkStrays? orderly _ id
  · rfl

/-! ### Statements -/

theorem Lenient.stepTitle? (nearly : draft.NearlyTidy statement.indent) :
    Finds (fun _ => True) (watch.stepTitle? draft statement) (draft.stepTitle statement) := by
  unfold Watch.stepTitle? Draft.stepTitle
  dsimp only
  split
  · exact .error _
  · refine .lookUp (lenient.closeDialogue? nearly.sorted.choices nearly.nested) ?_
    split
    · exact .error _
    · exact .ok trivial

theorem Lenient.stepOption? (nearly : draft.NearlyTidy statement.indent) :
    Finds (fun _ => True) (watch.stepOption? scope draft statement)
      (draft.stepOption scope statement) := by
  unfold Watch.stepOption? Draft.stepOption
  refine .bind (.read _) fun option _ => ?_
  refine .bind (.read _) fun commands _ => ?_
  refine .bind (.read _) fun conditions _ => ?_
  refine .lookUp (lenient.abandonDeepLines? nearly.sorted.lines) ?_
  refine .bind (.read _) fun root found => ?_
  let choice := Choice.fresh option.text conditions commands root
  refine .lookUp (lenient.addChoiceUnder? ?_) ?_
  · obtain ⟨outer, stack⟩ := Draft.exists_of_optionRoot found
    have left : ⟨root, statement.indent⟩ ∈ draft.lines :=
      (List.dropWhile_sublist _).mem (stack ▸ List.mem_cons_self)
    exact nearly.orderly.known_line _ left
  refine .lookUp (lenient.finishBodiless? ?_) ?_
  · intro open' member
    have known := nearly.nested.knownChoices open' member
    exact (draft.graph.size_choices_addChoice choice).symm ▸ Nat.lt_succ_of_lt known
  refine .lookUp (lenient.leaveChoices? ?_ statement.indent) ?_
  · exact nearly.sorted.choices.sublist (Draft.choices_finishBodiless_suffix _).sublist
  · dsimp only
    split <;> exact .ok trivial

theorem Lenient.stepIfArm? (nearly : draft.NearlyTidy statement.indent) :
    Finds (fun _ => True) (watch.stepIfArm? scope draft statement)
      (draft.stepIfArm scope statement) := by
  unfold Watch.stepIfArm? Draft.stepIfArm
  refine .bind (.read _) fun title _ => ?_
  refine .bind (.read _) fun _ _ => ?_
  refine .bind (.read _) fun source _ => ?_
  cases source with
  | none => exact .error _
  | some source =>
      refine .bind (.read _) fun conditions _ => ?_
      refine .lookUp (lenient.attachBranch? ?_ ?_ title draft.graph.branches.size) ?_
      · exact nearly.orderly.known_line
      · exact nearly.nested.knownChoices
      have begun : { draft with
          graph := draft.graph.addBranch ⟨[⟨conditions, none⟩]⟩
          branches := ⟨draft.graph.branches.size, statement.indent⟩ :: draft.branches
          }.NearlySorted statement.indent := nearly.sorted.of_stacks (List.suffix_refl _) rfl
      exact .lookUp (lenient.dedent? (begun.attachBranch title _)) (.ok trivial)

theorem Lenient.stepElseArm? (nearly : draft.NearlyTidy statement.indent) :
    Finds (fun _ => True) (watch.stepElseArm? scope draft statement)
      (draft.stepElseArm scope statement) := by
  unfold Watch.stepElseArm? Draft.stepElseArm
  refine .bind (.read _) fun source _ => ?_
  refine .bind (.read _) fun branch found => ?_
  obtain ⟨node, member, rfl⟩ := Draft.exists_of_branchAt found
  have known := nearly.nested.knownBranches node member
  refine .bind (lenient.checkElseArm? known) fun _ _ => ?_
  refine .bind (.read _) fun conditions _ => ?_
  refine .lookUp (lenient.modifyBranch? known _) ?_
  exact .lookUp (lenient.dedent? (nearly.sorted.of_stacks (List.suffix_refl _) rfl)) (.ok trivial)

/-- The new line has no successor until its return markers give it one, and neither has any line
that it follows. -/
theorem Lenient.stepSpeech? (tidy : before.Tidy) (statement : Statement) :
    Finds (fun _ => True)
      (watch.stepSpeech? scope (before.closeDeepBranches statement.indent) statement)
      ((before.closeDeepBranches statement.indent).stepSpeech scope statement) := by
  let closed := before.closeDeepBranches statement.indent
  let room := before.roomFor statement
  have nearly := tidy.closeDeepBranches statement.indent
  have roomOrderly := (before.extends_roomFor statement).orderly tidy.orderly
  have roomNested : room.Nested := nearly.nested.makeRoom statement.indent
  unfold Watch.stepSpeech? Draft.stepSpeech
  refine .bind (.read _) fun title _ => ?_
  refine .lookUp (lenient.settleChoice? nearly.nested statement.indent) ?_
  refine .bind (.read _) fun _ _ => ?_
  refine .lookUp (lenient.closeBranchAt? ?_ ?_ statement.indent) ?_
  · rw [Draft.choices_settleChoice]
    exact nearly.sorted.choices
  · rw [Draft.branches_settleChoice, Draft.graphBranches_settleChoice]
    exact nearly.nested.knownBranches
  refine .bind (.read _) fun speech _ => ?_
  refine .bind (.read _) fun commands _ => ?_
  let line := Line.spoken speech.speaker speech.text speech.expression commands
  have added : (room.addLine line).Orderly ∧ (room.addLine line).Unplaced room.graph.lines.size :=
    roomOrderly.addLine rfl
  have addedNested : (room.addLine line).Nested :=
    roomNested.of_suffix (List.suffix_refl _) (List.suffix_refl _) (Nat.le_refl _) (Nat.le_refl _)
  refine .bind (lenient.attachSpeech? added.1 addedNested title room.graph.lines.size
    statement.indent).same ?_
  intro attached attach
  have attachedNearly : attached.NearlySorted statement.indent := tidy.sorted.attachSpeech attach
  have placed := added.2.attachSpeech added.1 attach
  have dedents := Draft.Extends.dedent attached statement.indent
  have orderly := dedents.orderly placed.1
  have unplaced := placed.2.of_extends dedents
  refine .lookUp (lenient.dedent? attachedNearly) ?_
  have known := Draft.known_choices_of_attachSpeech addedNested.knownChoices attach
  refine .bind (lenient.directSpeech? unplaced known statement.indent speech.returnDepth).same ?_
  intro directed direct
  have directedOrderly := unplaced.directSpeech orderly direct
  exact .lookUp (lenient.gatherStrays? directedOrderly room.graph.lines.size statement.indent)
    (.ok trivial)

theorem Lenient.step? (tidy : draft.Tidy) (statement : Statement) :
    (watch.step? scope draft statement).run = some (draft.step scope statement) := by
  have nearly := tidy.closeDeepBranches statement.indent
  have stepped : Finds (fun _ => True) (watch.step? scope draft statement)
      (draft.step scope statement) := by
    unfold Watch.step? Draft.step
    refine .lookUp (lenient.closeDeepBranches? tidy statement.indent) ?_
    cases statement.construct with
    | dialogue => exact lenient.stepTitle? nearly
    | option => exact lenient.stepOption? nearly
    | ifArm => exact lenient.stepIfArm? nearly
    | elseArm => exact lenient.stepElseArm? nearly
    | speech => exact lenient.stepSpeech? tidy statement
  exact stepped.found

theorem Lenient.stepAll? (tidy : draft.Tidy) (scope : Scope) (statements : List Statement) :
    Finds (fun final => draft.stepAll scope statements = .ok final)
      (watch.stepAll? scope draft statements) (draft.stepAll scope statements) := by
  induction statements generalizing draft with
  | nil => exact .ok rfl
  | cons statement rest ih =>
      unfold Watch.stepAll? Draft.stepAll
      refine .lookUp (lenient.step? tidy statement) ?_
      rcases outcome : draft.step scope statement with fault | next
      · exact .error _
      · exact ih (tidy.step outcome)

theorem Lenient.finish? (tidy : draft.Tidy) :
    Finds (fun _ => True) (watch.finish? draft) draft.finish := by
  unfold Watch.finish? Draft.finish
  refine .lookUp (lenient.closeDialogue? tidy.sorted.descending_choices tidy.nested) ?_
  dsimp only
  split
  · exact .error _
  · exact .ok trivial

end Lenient

end Watch

end Parley
