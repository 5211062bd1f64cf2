import Parley.Proofs.Draft.Owners
import Parley.Proofs.Draft.Roots
import Parley.Proofs.Draft.Titles
import Parley.Proofs.Graph.Relays

/-!
# Where relays are made

A relay is made for an arm or a choice without a line of its own, and for a branch with which
a dialogue begins.  Relays wait for their successor with the spoken lines, but they are too
deep for anything else to be attached to them: whatever a statement attaches to an open line
stands at the line's own indentation.  So relays only pass on.
-/

namespace Parley

open Parley.Script

namespace Draft

/-- Relays only pass on, and so they will when a statement at an indentation is read: of the
open lines, those to which it may attach something are spoken, and so are the roots of the open
choices. -/
structure Tame (indent : Nat) (draft : Draft) : Prop where
  graph : draft.graph.RelaysPass
  lines : ∀ node ∈ draft.lines, node.indent ≤ indent → draft.graph.Speaks node.id
  roots : ∀ node ∈ draft.choices, draft.graph.Speaks (draft.graph.choice node.id).root

/-- A dialogue of which nothing but the title has been read has no first line. -/
def Unentered (draft : Draft) : Prop :=
  draft.latest = .title → ∀ title, draft.title = some title →
    draft.graph.entries.get? title = none

namespace Unentered

variable {draft after : Draft}

theorem of_titles (unentered : draft.Unentered) (titles : after.titles = draft.titles)
    (entries : after.graph.entries = draft.graph.entries)
    (latest : after.latest = .title → draft.latest = .title) : after.Unentered := by
  intro begins title current
  rw [entries]
  exact unentered (latest begins) title ((congrArg Prod.fst titles).symm.trans current)

theorem of_latest (latest : after.latest ≠ .title) : after.Unentered :=
  fun begins => absurd begins latest

/-- Closing branches makes lines, but no title. -/
theorem of_closes (unentered : draft.Unentered) (closes : draft.Closes after) :
    after.Unentered := by
  induction closes with
  | refl => exact unentered
  | @close closing branch outer _ _ ih =>
      refine ih.of_titles (titles_completeBranch closing branch outer)
        (entries_completeBranch closing branch outer) fun begins => ?_
      unfold completeBranch at begins
      split at begins
      · exact begins
      · cases begins

theorem settleChoice (unentered : draft.Unentered) (indent : Nat) :
    (draft.settleChoice indent).Unentered := by
  unfold Draft.settleChoice
  split
  · split
    · split
      · apply of_latest
        intro begins
        cases begins
      · exact unentered
    · exact unentered
  · exact unentered

theorem makeRoom (unentered : draft.Unentered) (indent : Nat) :
    (draft.makeRoom indent).Unentered :=
  (unentered.settleChoice indent).of_closes (closes_closeBranchAt _ indent)

theorem closeDeepBranches (unentered : draft.Unentered) (indent : Nat) :
    (draft.closeDeepBranches indent).Unentered :=
  unentered.of_closes (closes_closeDeepBranches _ indent)

/-- A title that is declared for the first time has no first line. -/
theorem beginDialogue (titled : draft.Titled) {title : String}
    (new : title ∉ draft.closeDialogue.declared) : (draft.beginDialogue title).Unentered := by
  intro _ current same
  cases same
  have entries : draft.closeDialogue.graph.entries = draft.graph.entries :=
    closeDialogue_keeps (fun draft => draft.graph.entries) entries_completeBranch draft
  have declared : draft.closeDialogue.declared = draft.declared :=
    congrArg Prod.snd draft.titles_closeDialogue
  show draft.closeDialogue.graph.entries.get? title = none
  rw [entries]
  rcases found : draft.graph.entries.get? title with _ | line
  · rfl
  · exact absurd (declared ▸ titled.entered title line found) new

/-- After any statement but a title, something else was made last. -/
theorem step {scope : Scope} {statement : Statement} (titled : draft.Titled)
    (read : draft.step scope statement = .ok after) : after.Unentered := by
  by_cases begins : statement.construct = .dialogue
  · have closed : (draft.closeDeepBranches statement.indent).Titled :=
      titled.of_entries (draft.titles_closeDeepBranches statement.indent)
        (Or.inl (draft.entries_closeDeepBranches statement.indent))
    unfold Draft.step at read
    simp only [begins] at read
    obtain ⟨title, -, -, new, rfl⟩ := stepTitle_eq_ok_iff.mp read
    exact beginDialogue closed new
  · exact of_latest fun latest => begins ((latest_eq_title_iff_of_step read).mp latest)

end Unentered

namespace Tame

variable {scope : Scope} {indent : Nat} {draft next : Draft}

/-- Fewer open lines, or lines in another order, are as tame; what was made last and which
branches are open does not matter. -/
theorem of_graph_eq (tame : draft.Tame indent) (graph : next.graph = draft.graph)
    (lines : ∀ node ∈ next.lines, node ∈ draft.lines)
    (choices : ∀ node ∈ next.choices, node ∈ draft.choices) : next.Tame indent where
  graph := graph ▸ tame.graph
  lines node member := by
    rw [graph]
    exact tame.lines node (lines node member)
  roots node member := by
    rw [graph]
    exact tame.roots node (choices node member)

theorem withBranches (tame : draft.Tame indent) (stack : List OpenNode) :
    { draft with branches := stack }.Tame indent :=
  ⟨tame.graph, tame.lines, tame.roots⟩

theorem leaveChoices (tame : draft.Tame indent) (level : Nat) :
    (draft.leaveChoices level).Tame indent :=
  tame.of_graph_eq rfl (fun _ member => member) fun _ => (List.dropWhile_sublist _).mem

theorem abandonDeepLines (tame : draft.Tame indent) (level : Nat) :
    (draft.abandonDeepLines level).Tame indent :=
  tame.of_graph_eq rfl (fun _ => (List.dropWhile_sublist _).mem) fun _ member => member

theorem dedent (tame : draft.Tame indent) (level : Nat) : (draft.dedent level).Tame indent :=
  (tame.abandonDeepLines level).leaveChoices level

/-- Lines that are left behind may be followed by a spoken line. -/
theorem linkStrays (tame : draft.Tame indent) (ready : OpenNode → Bool) {id : LineIndex}
    (speaks : draft.graph.Speaks id) : (draft.linkStrays ready id).Tame indent where
  graph := tame.graph.foldl_setNext OpenNode.id _ speaks
  lines node member shallow := (tame.lines node member shallow).foldl_setNext OpenNode.id _ id
  roots node member := by
    have same : (draft.linkStrays ready id).graph.choice node.id = draft.graph.choice node.id :=
      Graph.choice_congr (draft.graph.choices_foldl_setNext OpenNode.id _ id) node.id
    rw [same]
    exact (tame.roots node member).foldl_setNext OpenNode.id _ id

/-- The relay of a default arm is too deep for anything to be attached to it. -/
theorem completeBranch (tame : draft.Tame indent) {branch : OpenNode}
    (deep : indent ≤ branch.indent) : (draft.completeBranch branch).Tame indent := by
  unfold Draft.completeBranch
  split
  · exact tame
  · apply leaveChoices
    constructor
    · refine tame.graph.addRelay.modifyBranch branch.id fun held target leads => ?_
      rcases Branch.leadsTo_addArm_some leads with old | rfl
      · exact Or.inl old
      · exact Or.inr (Graph.lands_addLine_size rfl)
    · intro node member shallow
      rcases List.mem_cons.mp member with rfl | old
      · exact absurd shallow (Nat.not_le_of_lt (Nat.lt_succ_of_le deep))
      · exact (tame.lines node old shallow).addLine .relay
    · exact fun node member => (tame.roots node member).addLine .relay

theorem foldl_completeBranch (tame : draft.Tame indent) {closed : List OpenNode}
    (deep : ∀ branch ∈ closed, indent ≤ branch.indent) :
    (closed.foldl Draft.completeBranch draft).Tame indent := by
  induction closed generalizing draft with
  | nil => exact tame
  | cons branch closed ih =>
      exact ih (tame.completeBranch (deep branch List.mem_cons_self))
        fun other member => deep other (List.mem_cons_of_mem branch member)

theorem closeDeepBranches (tame : draft.Tame indent) :
    (draft.closeDeepBranches indent).Tame indent := by
  apply (tame.withBranches _).foldl_completeBranch
  intro branch member
  have deep := List.all_eq_true.mp List.all_takeWhile branch member
  exact Nat.le_of_lt (of_decide_eq_true deep)

theorem closeBranchAt (tame : draft.Tame indent) : (draft.closeBranchAt indent).Tame indent := by
  unfold Draft.closeBranchAt
  split
  · rename_i branch outer stack
    split
    · rename_i level
      exact (tame.withBranches outer).completeBranch (Nat.le_of_eq level.symm)
    · exact tame
  · exact tame

/-- A dialogue may be closed wherever it ends. -/
theorem closeDialogue (tame : draft.Tame 0) : draft.closeDialogue.Tame 0 :=
  (tame.withBranches []).foldl_completeBranch fun _ _ => Nat.zero_le _

/-! ## Choices -/

theorem root_endChoice (draft : Draft) (choice : OpenNode) (id : ChoiceIndex) :
    ((draft.endChoice choice).graph.choice id).root = (draft.graph.choice id).root := by
  rw [endChoice, Graph.root_modifyChoice_of_keeps]
  · rfl
  · exact fun _ => rfl

theorem endChoice (tame : draft.Tame indent) (choice : OpenNode) :
    (draft.endChoice choice).Tame indent where
  graph := by
    refine tame.graph.addRelay.modifyChoice choice.id fun held target leads => ?_
    cases leads
    exact Or.inr (Graph.lands_addLine_size rfl)
  lines node member shallow := (tame.lines node member shallow).addLine .relay
  roots node member := by
    rw [root_endChoice]
    exact (tame.roots node member).addLine .relay

theorem settleChoice (tame : draft.Tame indent) (level : Nat) :
    (draft.settleChoice level).Tame indent := by
  unfold Draft.settleChoice
  split
  · split
    · split
      · have ended := tame.endChoice ‹OpenNode›
        exact ⟨ended.graph, ended.lines, ended.roots⟩
      · exact tame
    · exact tame
  · exact tame

theorem makeRoom (tame : draft.Tame indent) : (draft.makeRoom indent).Tame indent :=
  (tame.settleChoice indent).closeBranchAt

theorem finishBodiless (tame : draft.Tame indent) : draft.finishBodiless.Tame indent := by
  unfold Draft.finishBodiless
  split
  · split
    · rename_i bodiless outer stack
      have popped : { draft with choices := outer }.Tame indent :=
        tame.of_graph_eq rfl (fun _ member => member)
          fun node member => stack ▸ List.mem_cons_of_mem bodiless member
      exact popped.endChoice bodiless
    · exact tame
  · exact tame

theorem root_finishBodiless (draft : Draft) (id : ChoiceIndex) :
    (draft.finishBodiless.graph.choice id).root = (draft.graph.choice id).root := by
  unfold Draft.finishBodiless
  split
  · split
    · exact root_endChoice _ _ id
    · rfl
  · rfl

theorem speaks_finishBodiless {id : LineIndex} (speaks : draft.graph.Speaks id) :
    draft.finishBodiless.graph.Speaks id := by
  unfold Draft.finishBodiless
  split
  · split
    · exact speaks.addLine .relay
    · exact speaks
  · exact speaks

/-- A choice is offered under a spoken line. -/
theorem addChoiceUnder (tame : draft.Tame indent) {choice : Choice}
    (speaks : draft.graph.Speaks choice.root) (unlinked : choice.next = none) :
    (draft.addChoiceUnder choice).Tame indent where
  graph := by
    have added := tame.graph.addChoice unlinked
    exact added.modifyLine (speaks.of_lines_eq rfl) (fun _ => rfl) fun _ => rfl
  lines node member shallow :=
    ((tame.lines node member shallow).of_lines_eq rfl).modifyLine choice.root fun _ => rfl
  roots node member := by
    have root : draft.graph.Speaks ((draft.graph.addChoice choice).choice node.id).root := by
      rw [Graph.choice_addChoice]
      split
      · exact speaks
      · exact tame.roots node member
    exact (root.of_lines_eq rfl).modifyLine choice.root fun _ => rfl

theorem offer (tame : draft.Tame indent) {choice : Choice}
    (speaks : draft.graph.Speaks choice.root) (unlinked : choice.next = none) (terminal : Bool)
    (level : Nat) : (draft.offer choice terminal level).Tame indent := by
  have added := tame.addChoiceUnder speaks unlinked
  have settled := added.finishBodiless.leaveChoices level
  unfold Draft.offer
  split
  · exact settled
  · refine ⟨settled.graph, settled.lines, fun node member => ?_⟩
    rcases List.mem_cons.mp member with rfl | old
    · -- The new choice has the root that it was given.
      have root : ((draft.addChoiceUnder choice).finishBodiless.graph.choice
          draft.graph.choices.size).root = choice.root := by
        rw [root_finishBodiless]
        exact congrArg Choice.root (draft.graph.choice_addChoice_size choice)
      show ((draft.addChoiceUnder choice).finishBodiless.graph.Speaks
        ((draft.addChoiceUnder choice).finishBodiless.graph.choice draft.graph.choices.size).root)
      rw [root]
      apply speaks_finishBodiless
      exact (speaks.of_lines_eq rfl).modifyLine choice.root fun _ => rfl
    · exact settled.roots node old

/-! ## Branches -/

/-- A branch is attached to a choice, to a spoken line or to a relay made for it. -/
theorem attachBranch (tame : draft.Tame indent) {title : String} {branch : BranchIndex}
    (new : draft.latest = .title → draft.graph.entries.get? title = none)
    (owner : draft.latest = .line ∨ draft.latest = .title ∨ draft.latest = .choice)
    (level : ∀ node outer, draft.latest = .line → draft.lines = node :: outer →
      node.indent = indent) : (draft.attachBranch title branch).Tame indent := by
  unfold Draft.attachBranch
  split
  · rename_i begins
    refine ⟨tame.graph.addBranchedEntry (new begins) branch, ?_, ?_⟩
    · exact fun node member shallow =>
        ((tame.lines node member shallow).addLine _).of_lines_eq rfl
    · exact fun node member => ((tame.roots node member).addLine _).of_lines_eq rfl
  · split
    · rename_i choice outer stack
      refine ⟨tame.graph.modifyChoice choice.id fun held target => Or.inl, tame.lines, ?_⟩
      intro node member
      show Graph.Speaks _ ((draft.graph.modifyChoice choice.id _).choice node.id).root
      rw [Graph.root_modifyChoice_of_keeps]
      · exact (tame.roots node member).of_lines_eq rfl
      · exact fun _ => rfl
    · exact tame
  · rename_i latest
    simp [latest] at owner
  · rename_i latest
    split
    · rename_i node outer stack
      have speaks := tame.lines node (stack ▸ List.mem_cons_self)
        (Nat.le_of_eq (level node outer latest stack))
      refine ⟨tame.graph.modifyLine speaks (fun _ => rfl) fun _ => rfl, ?_, ?_⟩
      · exact fun other member shallow =>
          (tame.lines other member shallow).modifyLine node.id fun _ => rfl
      · exact fun other member => (tame.roots other member).modifyLine node.id fun _ => rfl
    · exact tame
  · rename_i latest
    simp [latest] at owner

/-- A first arm stands where it may own a branch. -/
theorem owner_of_checkIfArm (fits : draft.checkIfArm indent = .ok ()) :
    (draft.latest = .line ∨ draft.latest = .title ∨ draft.latest = .choice) ∧
      ∀ node outer, draft.latest = .line → draft.lines = node :: outer → node.indent = indent := by
  rcases latest : draft.latest with _ | _ | _ | _ | _
  · simp [checkIfArm, latest, bind, Except.bind, throw, throwThe, MonadExceptOf.throw] at fits
  · exact ⟨.inr (.inl rfl), fun _ _ same => by cases same⟩
  · refine ⟨.inl rfl, fun node outer _ stack => ?_⟩
    simp only [checkIfArm, latest, stack, topIndent, bind, Except.bind] at fits
    split at fits
    · assumption
    · cases fits
  · exact ⟨.inr (.inr rfl), fun _ _ same => by cases same⟩
  · simp [checkIfArm, latest, bind, Except.bind, throw, throwThe, MonadExceptOf.throw] at fits

theorem openBranch (tame : draft.Tame indent) {title : String} (conditions : List Call)
    (new : draft.latest = .title → draft.graph.entries.get? title = none)
    (fits : draft.checkIfArm indent = .ok ()) :
    (draft.openBranch title conditions indent).Tame indent := by
  obtain ⟨owner, level⟩ := owner_of_checkIfArm fits
  let added : Draft := { draft with
    graph := draft.graph.addBranch ⟨[⟨conditions, none⟩]⟩
    branches := ⟨draft.graph.branches.size, indent⟩ :: draft.branches }
  have addedTame : added.Tame indent := by
    refine ⟨tame.graph.addBranch ?_, tame.lines, tame.roots⟩
    rintro target ⟨arm, member, body⟩
    rw [List.mem_singleton.mp member] at body
    cases body
  have attached : (added.attachBranch title draft.graph.branches.size).Tame indent :=
    addedTame.attachBranch new owner level
  exact (attached.dedent indent).of_graph_eq rfl (fun _ member => member) fun _ member => member

theorem extendBranch (tame : draft.Tame indent) (branch : BranchIndex) (conditions : List Call)
    (level : Nat) : (draft.extendBranch branch conditions level).Tame indent := by
  let added : Draft := { draft with
    graph := draft.graph.modifyBranch branch fun held => held.addArm conditions none }
  have addedTame : added.Tame indent := by
    refine ⟨tame.graph.modifyBranch branch fun held target leads => ?_, tame.lines, tame.roots⟩
    exact Or.inl (Branch.leadsTo_addArm_none leads)
  exact (addedTame.dedent level).of_graph_eq rfl (fun _ member => member) fun _ member => member

/-! ## Spoken lines -/

theorem addSpoken (tame : draft.Tame indent) {line : Line} (spoken : line.isRelay = false)
    (unlinked : line.next = none) (unbranched : line.branch = none) :
    (draft.addLine line).Tame indent where
  graph := tame.graph.addSpoken spoken unlinked unbranched
  lines node member shallow := (tame.lines node member shallow).addLine line
  roots node member := (tame.roots node member).addLine line

/-- What was made last leads to the spoken line. -/
theorem attachSpeech (tame : draft.Tame indent) {title : String} {id : LineIndex} {level : Nat}
    (new : draft.latest = .title → draft.graph.entries.get? title = none)
    (speaks : draft.graph.Speaks id) (attached : draft.attachSpeech title id level = .ok next) :
    next.Tame indent ∧ next.graph.Speaks id := by
  unfold Draft.attachSpeech at attached
  split at attached
  · cases attached
    exact ⟨tame, speaks⟩
  · rename_i begins
    cases attached
    exact ⟨⟨tame.graph.addEntry (new begins) id, tame.lines, tame.roots⟩, speaks⟩
  · split at attached
    · cases attached
    · rename_i earlier waiting stack
      cases attached
      have linked : { draft with
          graph := draft.graph.setNext earlier.id id
          lines := waiting }.Tame indent := by
        refine ⟨tame.graph.setNext earlier.id speaks, ?_, ?_⟩
        · intro node member shallow
          have old := tame.lines node (stack ▸ List.mem_cons_of_mem earlier member) shallow
          exact old.setNext earlier.id id
        · exact fun node member => (tame.roots node member).setNext earlier.id id
      have speaksNext := speaks.setNext earlier.id id
      exact ⟨linked.linkStrays _ speaksNext, speaksNext.foldl_setNext OpenNode.id _ id⟩
  · split at attached
    · rename_i choice outer stack
      cases attached
      refine ⟨⟨?_, tame.lines, ?_⟩, speaks⟩
      · refine tame.graph.modifyChoice choice.id fun held target leads => ?_
        cases leads
        exact Or.inr speaks.lands
      · intro node member
        show Graph.Speaks _ ((draft.graph.modifyChoice choice.id _).choice node.id).root
        rw [Graph.root_modifyChoice_of_keeps]
        · exact tame.roots node member
        · exact fun _ => rfl
    · cases attached
      exact ⟨tame, speaks⟩
  · split at attached
    · rename_i branch outer stack
      cases attached
      refine ⟨⟨?_, tame.lines, tame.roots⟩, speaks⟩
      refine tame.graph.modifyBranch branch.id fun held target leads => ?_
      rcases Branch.leadsTo_setLastBody leads with old | rfl
      · exact Or.inl old
      · exact Or.inr speaks.lands
    · cases attached
      exact ⟨tame, speaks⟩

/-- Return markers lead to the root of an open choice, which is spoken. -/
theorem directSpeech (tame : draft.Tame indent) {id : LineIndex} {level depth : Nat}
    (speaks : draft.graph.Speaks id) (directed : draft.directSpeech id level depth = .ok next) :
    next.Tame indent ∧ next.graph.Speaks id := by
  unfold Draft.directSpeech at directed
  split at directed
  · cases directed
    refine ⟨⟨tame.graph, fun node member shallow => ?_, tame.roots⟩, speaks⟩
    rcases List.mem_cons.mp member with rfl | old
    · exact speaks
    · exact tame.lines node old shallow
  · split at directed
    · cases directed
    · rename_i target found
      cases directed
      have root : draft.graph.Speaks target := by
        unfold markedRoot at found
        split at found
        · rename_i choice outer stack
          cases found
          apply tame.roots choice
          exact List.mem_of_mem_drop (stack ▸ List.mem_cons_self)
        · cases found
      refine ⟨⟨tame.graph.setNext id root, ?_, ?_⟩, speaks.setNext id target⟩
      · exact fun node member shallow => (tame.lines node member shallow).setNext id target
      · exact fun node member => (tame.roots node member).setNext id target

theorem gatherStrays (tame : draft.Tame indent) {id : LineIndex} (speaks : draft.graph.Speaks id)
    (level : Nat) : (draft.gatherStrays id level).Tame indent := by
  unfold Draft.gatherStrays
  split
  · exact tame.linkStrays _ speaks
  · exact tame

/-! ## Steps and runs -/

theorem empty (indent : Nat) : Draft.empty.Tame indent where
  graph := Graph.relaysPass_empty
  lines _ member := nomatch member
  roots _ member := nomatch member

variable {statement : Statement}

theorem stepOption (tame : draft.Tame statement.indent)
    (read : draft.stepOption scope statement = .ok next) : next.Tame statement.indent := by
  obtain ⟨option, commands, conditions, root, -, -, -, found, rfl⟩ := stepOption_eq_ok_iff.mp read
  have dedented := tame.abandonDeepLines statement.indent
  obtain ⟨outer, stack⟩ := exists_of_optionRoot found
  have speaks := dedented.lines _ (stack ▸ List.mem_cons_self) (Nat.le_refl _)
  exact dedented.offer speaks rfl option.terminal statement.indent

theorem stepSpeech (tame : draft.Tame statement.indent) (unentered : draft.Unentered)
    (read : draft.stepSpeech scope statement = .ok next) : next.Tame statement.indent := by
  obtain ⟨title, speech, commands, attached, directed, current, -, -, -, attach, direct, rfl⟩ :=
    stepSpeech_eq_ok_iff.mp read
  let line := Line.spoken speech.speaker speech.text speech.expression commands
  let room := draft.makeRoom statement.indent
  have added : (room.addLine line).Tame statement.indent := tame.makeRoom.addSpoken rfl rfl rfl
  have speaks : (room.addLine line).graph.Speaks room.graph.lines.size :=
    Graph.speaks_addLine_size rfl
  have same : room.title = some title :=
    (congrArg Prod.fst (draft.titles_makeRoom statement.indent)).trans (title_eq_some current)
  have new : (room.addLine line).latest = .title →
      (room.addLine line).graph.entries.get? title = none :=
    fun begins => unentered.makeRoom statement.indent begins title same
  obtain ⟨attachedTame, attachedSpeaks⟩ := added.attachSpeech new speaks attach
  obtain ⟨directedTame, directedSpeaks⟩ :=
    (attachedTame.dedent statement.indent).directSpeech attachedSpeaks direct
  have gathered := directedTame.gatherStrays directedSpeaks statement.indent
  exact gathered.of_graph_eq rfl (fun _ member => member) fun _ member => member

/-- What a statement attaches, it attaches to spoken lines and to choices. -/
theorem attaches (tame : draft.Tame statement.indent) (whole : draft.Tame 0)
    (unentered : draft.Unentered) (read : draft.step scope statement = .ok next) :
    next.Tame statement.indent := by
  have closed := tame.closeDeepBranches
  have closedUnentered := unentered.closeDeepBranches statement.indent
  unfold Draft.step at read
  split at read
  · obtain ⟨title, -, -, -, rfl⟩ := stepTitle_eq_ok_iff.mp read
    refine ⟨?_, List.forall_mem_nil _, List.forall_mem_nil _⟩
    show (draft.closeDeepBranches statement.indent).closeDialogue.graph.RelaysPass
    rw [closeDialogue_closeDeepBranches]
    exact whole.closeDialogue.graph
  · exact closed.stepOption read
  · obtain ⟨title, source, conditions, current, fits, -, -, rfl⟩ := stepIfArm_eq_ok_iff.mp read
    refine closed.openBranch conditions (fun begins => ?_) fits
    exact closedUnentered begins title (title_eq_some current)
  · obtain ⟨source, branch, conditions, -, -, -, -, rfl⟩ := stepElseArm_eq_ok_iff.mp read
    exact closed.extendBranch branch conditions statement.indent
  · exact closed.stepSpeech closedUnentered read

/-- Relays are open within a statement only: between statements, every open line is spoken. -/
theorem step (tame : ∀ indent, draft.Tame indent) (unentered : draft.Unentered)
    (orderly : draft.Orderly) (read : draft.step scope statement = .ok next) (indent : Nat) :
    next.Tame indent := by
  have attached := (tame statement.indent).attaches (tame 0) unentered read
  refine ⟨attached.graph, fun node member _ => ?_, attached.roots⟩
  rcases mem_lines_of_step read member with ⟨old, -⟩ | ⟨rfl, -⟩
  · have speaks := (tame node.indent).lines node old (Nat.le_refl _)
    have advances := advances_of_step orderly read
    have said := congrArg Line.text (advances.unlinked node.id speaks.lt_size)
    exact speaks.of_text_eq said
  · exact attached.lines _ member (Nat.le_refl _)

theorem stepAll {statements : List Statement} (tame : ∀ indent, draft.Tame indent)
    (unentered : draft.Unentered) (orderly : draft.Orderly) (titled : draft.Titled)
    (read : draft.stepAll scope statements = .ok next) (indent : Nat) : next.Tame indent := by
  induction statements generalizing draft with
  | nil =>
      cases read
      exact tame indent
  | cons statement rest ih =>
      obtain ⟨middle, first, others⟩ := stepAll_cons_eq_ok_iff.mp read
      have advances := advances_of_step orderly first
      exact ih (step tame unentered orderly first) (Unentered.step titled first)
        advances.orderly (titled.step first) others

end Tame

/-- Relays of a finished draft only pass on. -/
theorem relaysPass_of_stepAll {scope : Scope} {statements : List Statement} {final : Draft}
    (read : Draft.empty.stepAll scope statements = .ok final) :
    final.closeDialogue.graph.RelaysPass :=
  (Tame.stepAll Tame.empty (.of_latest (by decide)) .empty .empty read 0).closeDialogue.graph

end Draft

end Parley
