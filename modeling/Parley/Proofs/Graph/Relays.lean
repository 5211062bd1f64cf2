import Parley.Proofs.Graph.Links

/-!
# Relays that only pass on

A relay that does its work says nothing, does nothing and offers nothing; it hands on to a
spoken line or to nothing.  It has a branch only where a dialogue begins with one, and then
nothing leads to it.  A change of a graph keeps its relays in that order if it gives links
only to lines on which a link may land, and branches and choices only to spoken lines.
-/

namespace Parley.Graph

/-- A line is spoken. -/
def Speaks (graph : Graph) (id : LineIndex) : Prop :=
  (graph.line id).isRelay = false

/-- A link may land on a line: it is there, and if it is a relay, it has no branch. -/
structure Lands (graph : Graph) (id : LineIndex) : Prop where
  known : id < graph.lines.size
  unbranched : (graph.line id).isRelay = true → (graph.line id).branch = none

/-- A link leads to a line: that of a line or of a choice to its successor, that of an arm to its
body, or that of a choice back to its root. -/
inductive IsTarget (graph : Graph) (id : LineIndex) : Prop
  | next (line : LineIndex) (linked : (graph.line line).next = some id)
  | arm (branch : BranchIndex) (leads : (graph.branch branch).LeadsTo id)
  | choice (choice : ChoiceIndex) (linked : (graph.choice choice).next = some id)
  | root (choice : ChoiceIndex) (known : choice < graph.choices.size)
      (rooted : (graph.choice choice).root = id)

/-- Relays only pass on. -/
structure RelaysPass (graph : Graph) : Prop where
  bare : ∀ id, (graph.line id).isRelay = true → (graph.line id).speaker = none ∧
    (graph.line id).commands = [] ∧ (graph.line id).choices = []
  next : ∀ id target, (graph.line id).next = some target → graph.Speaks target
  arm : ∀ id target, (graph.branch id).LeadsTo target → graph.Lands target
  choice : ∀ id target, (graph.choice id).next = some target → graph.Lands target
  entry : ∀ id branch, (graph.line id).isRelay = true → (graph.line id).branch = some branch →
    ∃ title, graph.entries.get? title = some id

variable {graph : Graph} {id target : LineIndex}

theorem Speaks.lt_size (speaks : graph.Speaks id) : id < graph.lines.size := by
  by_cases known : id < graph.lines.size
  · exact known
  · rw [Speaks, line_eq_relay _ (Nat.le_of_not_lt known)] at speaks
    cases speaks

theorem Speaks.lands (speaks : graph.Speaks id) : graph.Lands id where
  known := speaks.lt_size
  unbranched relay := by
    rw [speaks] at relay
    cases relay

theorem Speaks.of_lines_eq {after : Graph} (speaks : graph.Speaks id)
    (same : after.lines = graph.lines) : after.Speaks id := by
  rw [Speaks, line_congr same]
  exact speaks

theorem Speaks.of_text_eq {after : Graph} (speaks : graph.Speaks id)
    (same : (after.line id).text = (graph.line id).text) : after.Speaks id := by
  rw [Speaks, Line.isRelay, same]
  exact speaks

theorem Lands.of_lines_eq {after : Graph} (lands : graph.Lands id)
    (same : after.lines = graph.lines) : after.Lands id where
  known := same ▸ lands.known
  unbranched := by
    rw [line_congr same]
    exact lands.unbranched

/-- Earlier lines stay as they are. -/
theorem Lands.addLine (lands : graph.Lands id) (line : Line) : (graph.addLine line).Lands id where
  known := by
    rw [size_lines_addLine]
    exact Nat.lt_succ_of_lt lands.known
  unbranched := by
    rw [line_addLine_of_lt graph line lands.known]
    exact lands.unbranched

theorem Speaks.addLine (speaks : graph.Speaks id) (line : Line) :
    (graph.addLine line).Speaks id := by
  rw [Speaks, line_addLine_of_lt graph line speaks.lt_size]
  exact speaks

/-- A new line without a branch is one on which a link may land. -/
theorem lands_addLine_size {line : Line} (unbranched : line.branch = none) :
    (graph.addLine line).Lands graph.lines.size where
  known := by
    rw [size_lines_addLine]
    exact Nat.lt_succ_self _
  unbranched _ := by
    rw [line_addLine_size]
    exact unbranched

theorem speaks_addLine_size {line : Line} (spoken : line.isRelay = false) :
    (graph.addLine line).Speaks graph.lines.size := by
  rw [Speaks, line_addLine_size]
  exact spoken

/-- What a line says is kept by every change of its links. -/
theorem isRelay_modifyLine (changed : LineIndex) {change : Line → Line}
    (text : ∀ line, (change line).text = line.text) :
    ((graph.modifyLine changed change).line id).isRelay = (graph.line id).isRelay := by
  rw [line_modifyLine_eq]
  split
  · rw [Line.isRelay, text]
    rfl
  · rfl

theorem isRelay_setNext (graph : Graph) (changed target id : LineIndex) :
    ((graph.setNext changed target).line id).isRelay = (graph.line id).isRelay :=
  isRelay_modifyLine changed fun _ => rfl

theorem Speaks.modifyLine (speaks : graph.Speaks id) (changed : LineIndex) {change : Line → Line}
    (text : ∀ line, (change line).text = line.text) :
    (graph.modifyLine changed change).Speaks id := by
  rw [Speaks, isRelay_modifyLine changed text]
  exact speaks

theorem Speaks.setNext (speaks : graph.Speaks id) (changed target : LineIndex) :
    (graph.setNext changed target).Speaks id :=
  speaks.modifyLine changed fun _ => rfl

theorem Speaks.foldl_setNext {α : Type} (speaks : graph.Speaks id) (place : α → LineIndex)
    (changed : List α) (target : LineIndex) :
    (changed.foldl (fun graph item => graph.setNext (place item) target) graph).Speaks id := by
  induction changed generalizing graph with
  | nil => exact speaks
  | cons item rest ih => exact ih (speaks.setNext (place item) target)

/-- Only a spoken line may get a branch. -/
theorem Lands.modifyLine (lands : graph.Lands id) {changed : LineIndex} {change : Line → Line}
    (text : ∀ line, (change line).text = line.text)
    (branch : graph.Speaks changed ∨ ∀ line, (change line).branch = line.branch) :
    (graph.modifyLine changed change).Lands id where
  known := by
    rw [size_lines_modifyLine]
    exact lands.known
  unbranched relay := by
    rw [isRelay_modifyLine changed text] at relay
    rw [line_modifyLine_eq]
    split
    · rename_i same
      rcases branch with speaks | keeps
      · rw [same.1, Speaks, relay] at speaks
        cases speaks
      · rw [keeps]
        exact lands.unbranched relay
    · exact lands.unbranched relay

namespace RelaysPass

variable (pass : graph.RelaysPass)

include pass

/-- A new line leads nowhere yet; if it is a relay, it says and does nothing. -/
theorem addLine {line : Line}
    (bare : line.isRelay = true → line.speaker = none ∧ line.commands = [] ∧ line.choices = [])
    (unlinked : line.next = none) (unbranched : line.branch = none) :
    (graph.addLine line).RelaysPass where
  bare id := by
    rw [line_addLine]
    split
    · exact bare
    · exact pass.bare id
  next id target linked := by
    rw [line_addLine] at linked
    split at linked
    · rw [unlinked] at linked
      cases linked
    · exact (pass.next id target linked).addLine line
  arm id target leads := (pass.arm id target leads).addLine line
  choice id target leads := (pass.choice id target leads).addLine line
  entry id branch relay branched := by
    rw [line_addLine] at relay branched
    split at branched
    · rw [unbranched] at branched
      cases branched
    · rename_i old
      rw [if_neg old] at relay
      exact pass.entry id branch relay branched

theorem addRelay : (graph.addLine .relay).RelaysPass :=
  pass.addLine (fun _ => ⟨rfl, rfl, rfl⟩) rfl rfl

theorem addSpoken {line : Line} (spoken : line.isRelay = false) (unlinked : line.next = none)
    (unbranched : line.branch = none) : (graph.addLine line).RelaysPass :=
  pass.addLine (fun relay => by rw [spoken] at relay; cases relay) unlinked unbranched

/-- A link to a spoken line. -/
theorem setNext (changed : LineIndex) (speaks : graph.Speaks target) :
    (graph.setNext changed target).RelaysPass where
  bare id relay := by
    rw [isRelay_setNext] at relay
    rw [Graph.setNext, line_modifyLine_eq]
    split <;> exact pass.bare id relay
  next id next linked := by
    apply Speaks.setNext
    rw [next_setNext] at linked
    split at linked
    · cases linked
      exact speaks
    · exact pass.next id next linked
  arm id target leads := (pass.arm id target leads).modifyLine (fun _ => rfl) (.inr fun _ => rfl)
  choice id target leads :=
    (pass.choice id target leads).modifyLine (fun _ => rfl) (.inr fun _ => rfl)
  entry id branch relay branched := by
    rw [isRelay_setNext] at relay
    rw [Graph.setNext, line_modifyLine_eq] at branched
    split at branched <;> exact pass.entry id branch relay branched

theorem foldl_setNext {α : Type} (place : α → LineIndex) (changed : List α)
    (speaks : graph.Speaks target) :
    (changed.foldl (fun graph item => graph.setNext (place item) target) graph).RelaysPass := by
  induction changed generalizing graph with
  | nil => exact pass
  | cons item rest ih =>
      exact ih (pass.setNext (place item) speaks) (speaks.setNext (place item) target)

/-- A change of a spoken line that keeps its text and its successor. -/
theorem modifyLine (speaks : graph.Speaks target) {change : Line → Line}
    (text : ∀ line, (change line).text = line.text)
    (next : ∀ line, (change line).next = line.next) :
    (graph.modifyLine target change).RelaysPass := by
  -- Relays are as they were.
  have relays : ∀ id, ((graph.modifyLine target change).line id).isRelay = true →
      (graph.modifyLine target change).line id = graph.line id := by
    intro id relay
    rw [isRelay_modifyLine target text] at relay
    rw [line_modifyLine_eq, if_neg]
    rintro ⟨rfl, -⟩
    rw [Speaks, relay] at speaks
    cases speaks
  constructor
  · intro id relay
    have same := relays id relay
    rw [same] at relay ⊢
    exact pass.bare id relay
  · intro id target linked
    rw [next_modifyLine_of_keeps _ next] at linked
    exact (pass.next id target linked).modifyLine _ text
  · exact fun id target leads => (pass.arm id target leads).modifyLine text (.inl speaks)
  · exact fun id target leads => (pass.choice id target leads).modifyLine text (.inl speaks)
  · intro id branch relay branched
    have same := relays id relay
    rw [same] at relay branched
    exact pass.entry id branch relay branched

/-- A change of the other nodes, after which links land where they did or where they may. -/
theorem of_lines_eq {after : Graph} (lines : after.lines = graph.lines)
    (arm : ∀ id target, (after.branch id).LeadsTo target →
      (graph.branch id).LeadsTo target ∨ graph.Lands target)
    (choice : ∀ id target, (after.choice id).next = some target →
      (graph.choice id).next = some target ∨ graph.Lands target)
    (entries : ∀ title id, graph.entries.get? title = some id →
      after.entries.get? title = some id) : after.RelaysPass where
  bare id := by
    rw [line_congr lines]
    exact pass.bare id
  next id target linked := by
    rw [line_congr lines] at linked
    exact (pass.next id target linked).of_lines_eq lines
  arm id target leads := by
    rcases arm id target leads with old | new
    · exact (pass.arm id target old).of_lines_eq lines
    · exact new.of_lines_eq lines
  choice id target leads := by
    rcases choice id target leads with old | new
    · exact (pass.choice id target old).of_lines_eq lines
    · exact new.of_lines_eq lines
  entry id branch relay branched := by
    rw [line_congr lines] at relay branched
    obtain ⟨title, entered⟩ := pass.entry id branch relay branched
    exact ⟨title, entries title id entered⟩

theorem modifyBranch (changed : BranchIndex) {change : Branch → Branch}
    (lands : ∀ branch target, (change branch).LeadsTo target →
      branch.LeadsTo target ∨ graph.Lands target) :
    (graph.modifyBranch changed change).RelaysPass := by
  refine pass.of_lines_eq rfl ?_ (fun _ _ => Or.inl) fun _ _ found => found
  intro id target leads
  rw [branch_modifyBranch_eq] at leads
  split at leads
  · exact lands _ target leads
  · exact Or.inl leads

theorem addBranch {branch : Branch} (bodiless : branch.IsBodiless) :
    (graph.addBranch branch).RelaysPass := by
  refine pass.of_lines_eq rfl ?_ (fun _ _ => Or.inl) fun _ _ found => found
  intro id target leads
  rw [branch_addBranch] at leads
  split at leads
  · exact absurd leads (bodiless target)
  · exact Or.inl leads

theorem modifyChoice (changed : ChoiceIndex) {change : Choice → Choice}
    (lands : ∀ choice target, (change choice).next = some target →
      choice.next = some target ∨ graph.Lands target) :
    (graph.modifyChoice changed change).RelaysPass := by
  refine pass.of_lines_eq rfl (fun _ _ => Or.inl) ?_ fun _ _ found => found
  intro id target leads
  rw [choice_modifyChoice_eq] at leads
  split at leads
  · exact lands _ target leads
  · exact Or.inl leads

theorem addChoice {choice : Choice} (unlinked : choice.next = none) :
    (graph.addChoice choice).RelaysPass := by
  refine pass.of_lines_eq rfl (fun _ _ => Or.inl) ?_ fun _ _ found => found
  intro id target leads
  rw [choice_addChoice] at leads
  split at leads
  · rw [unlinked] at leads
    cases leads
  · exact Or.inl leads

/-- Another dialogue gets its first line. -/
theorem addEntry {title : String} (new : graph.entries.get? title = none) (line : LineIndex) :
    (graph.addEntry title line).RelaysPass := by
  refine pass.of_lines_eq rfl (fun _ _ => Or.inl) (fun _ _ => Or.inl) fun other id found => ?_
  show (graph.entries.insert title line).get? other = some id
  rw [NameMap.get?_insert]
  split
  · rename_i same
    rw [same, new] at found
    cases found
  · exact found

/-- A dialogue gets a relay with a branch as its first line. -/
theorem addBranchedEntry {title : String} (new : graph.entries.get? title = none)
    (branch : BranchIndex) :
    ((graph.addLine { Line.relay with branch := some branch }).addEntry title
      graph.lines.size).RelaysPass where
  bare id := by
    show ((graph.addLine _).line id).isRelay = true → ((graph.addLine _).line id).speaker = none ∧
      ((graph.addLine _).line id).commands = [] ∧ ((graph.addLine _).line id).choices = []
    rw [line_addLine]
    split
    · exact fun _ => ⟨rfl, rfl, rfl⟩
    · exact pass.bare id
  next id target linked := by
    replace linked : ((graph.addLine _).line id).next = some target := linked
    rw [line_addLine] at linked
    split at linked
    · cases linked
    · exact ((pass.next id target linked).addLine _).of_lines_eq rfl
  arm id target leads := ((pass.arm id target leads).addLine _).of_lines_eq rfl
  choice id target leads := ((pass.choice id target leads).addLine _).of_lines_eq rfl
  entry id other relay branched := by
    replace relay : ((graph.addLine _).line id).isRelay = true := relay
    replace branched : ((graph.addLine _).line id).branch = some other := branched
    rw [line_addLine] at relay branched
    show ∃ title', (graph.entries.insert title graph.lines.size).get? title' = some id
    by_cases newest : id = graph.lines.size
    · exact ⟨title, by rw [NameMap.get?_insert, if_pos rfl, newest]⟩
    · rw [if_neg newest] at relay branched
      obtain ⟨title', entered⟩ := pass.entry id other relay branched
      refine ⟨title', ?_⟩
      rw [NameMap.get?_insert, if_neg]
      · exact entered
      · rintro rfl
        rw [new] at entered
        cases entered

/-- Nothing leads to a relay with a branch. -/
theorem not_isTarget
    (roots : ∀ choice < graph.choices.size, graph.Speaks (graph.choice choice).root)
    (relay : (graph.line id).isRelay = true) {branch : BranchIndex}
    (branched : (graph.line id).branch = some branch) : ¬ graph.IsTarget id := by
  have lands : ¬ graph.Lands id := by
    intro lands
    rw [lands.unbranched relay] at branched
    cases branched
  rintro (⟨line, linked⟩ | ⟨node, leads⟩ | ⟨choice, linked⟩ | ⟨choice, known, rfl⟩)
  · exact lands (pass.next line id linked).lands
  · exact lands (pass.arm node id leads)
  · exact lands (pass.choice choice id linked)
  · exact lands (roots choice known).lands

end RelaysPass

theorem relaysPass_empty : Graph.empty.RelaysPass where
  bare _ _ := ⟨rfl, rfl, rfl⟩
  next _ _ linked := by cases linked
  arm _ _ leads := by
    obtain ⟨_, member, _⟩ := leads
    cases member
  choice _ _ linked := by cases linked
  entry _ _ _ branched := by cases branched

end Parley.Graph
