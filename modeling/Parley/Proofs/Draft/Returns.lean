import Parley.Proofs.Draft.Enclosing
import Parley.Proofs.Draft.Forward

/-!
# Where return markers lead

A spoken line with return markers counts the choices that are open around it.  If there are as
many as it has markers, it is followed by the root of the last one counted; else it is
rejected, and nothing but its markers is to blame.  It does not wait for a successor, so none of
the statements behind it changes where it leads.
-/

namespace Parley

open Parley.Script

namespace Draft

variable {scope : Scope} {draft before after : Draft} {statement : Statement} {speech : Speech}

/-- A spoken line would be accepted if it carried no return markers. -/
def AcceptsUnmarked (scope : Scope) (draft : Draft) (statement : Statement) : Prop :=
  ∃ unmarked, (draft.closeDeepBranches statement.indent).stepRemarked scope statement
    (fun _ => 0) = .ok unmarked

/-- The choices that are still open around a statement, the innermost first. -/
def around (draft : Draft) (statement : Statement) : List OpenNode :=
  draft.choices.dropWhile fun choice => statement.indent ≤ choice.indent

theorem markedRoot_of_some {depth : Nat} {choice : OpenNode}
    (found : draft.choices[depth - 1]? = some choice) :
    draft.markedRoot depth = .ok (draft.graph.choice choice.id).root := by
  obtain ⟨known, same⟩ := List.getElem?_eq_some_iff.mp found
  rw [markedRoot, List.drop_eq_getElem_cons known, same]

theorem markedRoot_of_lt {depth : Nat} (far : draft.choices.length < depth) :
    draft.markedRoot depth = .error (.malformed (.returnTooFar depth draft.choices.length)) := by
  rw [markedRoot, List.drop_eq_nil_of_le (Nat.le_sub_one_of_lt far)]

/-- Where the markers of a line lead is the root of a choice that is open. -/
theorem exists_of_markedRoot {depth : Nat} {target : LineIndex} (marked : depth ≠ 0)
    (found : draft.markedRoot depth = .ok target) :
    ∃ choice, draft.choices[depth - 1]? = some choice ∧
      (draft.graph.choice choice.id).root = target := by
  rcases Nat.lt_or_ge draft.choices.length depth with far | near
  · rw [markedRoot_of_lt far] at found
    cases found
  · have known : depth - 1 < draft.choices.length := by omega
    refine ⟨draft.choices[depth - 1], List.getElem?_eq_getElem known, ?_⟩
    rw [markedRoot_of_some (List.getElem?_eq_getElem known)] at found
    exact Except.ok.inj found

/-- The choices among which a line that has been attached counts are those around it. -/
theorem choices_dedent_attached {title : String} {line : Line} {id : LineIndex}
    {attached : Draft} (attach : ((draft.makeRoom statement.indent).addLine line).attachSpeech
      title id statement.indent = .ok attached) :
    (attached.dedent statement.indent).choices = draft.around statement := by
  show attached.choices.dropWhile _ = _
  rw [(stacks_attachSpeech attach).2.1]
  show (draft.makeRoom statement.indent).choices.dropWhile _ = _
  rw [makeRoom, dropWhile_choices_closeBranchAt, choices_settleChoice, around]

theorem around_closeDeepBranches (draft : Draft) (statement : Statement) :
    (draft.closeDeepBranches statement.indent).around statement = draft.around statement :=
  draft.dropWhile_choices_closeDeepBranches statement.indent

/-- A line that is accepted but for its return markers is placed, and then its markers decide. -/
theorem exists_placed_of_acceptsUnmarked (speaks : statement.construct = .speech)
    (accepted : before.AcceptsUnmarked scope statement)
    (readSpeech : Speech.read statement.content = .ok speech) :
    ∃ placed : Draft, placed.choices = before.around statement ∧
      before.step scope statement = do
        let directed ← placed.directSpeech (before.roomFor statement).graph.lines.size
          statement.indent speech.returnDepth
        return { directed.gatherStrays (before.roomFor statement).graph.lines.size
          statement.indent with latest := .line } := by
  obtain ⟨unmarked, accepted⟩ := accepted
  obtain ⟨title, other, commands, attached, -, current, fits, readOther, readCommands, attach, -,
    -⟩ := stepRemarked_eq_ok_iff.mp accepted
  rw [readSpeech] at readOther
  cases readOther
  refine ⟨attached.dedent statement.indent,
    (choices_dedent_attached attach).trans (before.around_closeDeepBranches statement), ?_⟩
  let room := (before.closeDeepBranches statement.indent).makeRoom statement.indent
  let line := Line.spoken speech.speaker speech.text speech.expression commands
  have attach' : (room.addLine line).attachSpeech title room.graph.lines.size statement.indent =
    .ok attached := attach
  unfold step
  simp only [speaks, stepSpeech, current, fits, readSpeech, ok_bind]
  simp only [readCommands, ok_bind]
  show ((room.addLine line).attachSpeech title room.graph.lines.size statement.indent >>= _) = _
  rw [attach']
  rfl

/-- A line that is accepted but for its return markers can be read exactly if they do not lead
further than to the outermost choice around it. -/
theorem step_of_acceptsUnmarked (speaks : statement.construct = .speech)
    (accepted : before.AcceptsUnmarked scope statement)
    (readSpeech : Speech.read statement.content = .ok speech) (marked : 0 < speech.returnDepth) :
    (speech.returnDepth ≤ (before.around statement).length →
      ∃ after, before.step scope statement = .ok after) ∧
    ((before.around statement).length < speech.returnDepth →
      before.step scope statement = .error
        (.malformed (.returnTooFar speech.returnDepth (before.around statement).length))) := by
  obtain ⟨placed, choices, stepped⟩ := exists_placed_of_acceptsUnmarked speaks accepted readSpeech
  rw [stepped, ← choices, directSpeech, if_neg (Nat.ne_of_gt marked)]
  constructor
  · intro near
    have known : speech.returnDepth - 1 < placed.choices.length := by omega
    rw [markedRoot_of_some (List.getElem?_eq_getElem known)]
    exact ⟨_, rfl⟩
  · intro far
    rw [markedRoot_of_lt far]
    rfl

/-- Return markers lead a line to the root of the choice that they count to. -/
theorem next_directSpeech {id : LineIndex} {indent depth : Nat} (marked : depth ≠ 0)
    (known : id < draft.graph.lines.size)
    (directed : draft.directSpeech id indent depth = .ok after) :
    ∃ choice, draft.choices[depth - 1]? = some choice ∧
      (after.graph.line id).next = some (after.graph.choice choice.id).root := by
  have choices := choices_directSpeech directed
  unfold directSpeech at directed
  rw [if_neg marked] at directed
  split at directed
  · cases directed
  · rename_i target found
    cases directed
    obtain ⟨choice, isChoice, rooted⟩ := exists_of_markedRoot marked found
    refine ⟨choice, isChoice, ?_⟩
    rw [Graph.choice_congr choices, rooted, Graph.next_setNext, if_pos ⟨rfl, known⟩]

/-- Gathering directs only lines that were left behind. -/
theorem next_gatherStrays_of_older {id : LineIndex} (indent : Nat)
    (known : id < draft.graph.lines.size) (older : ∀ stray ∈ draft.strays, stray.id < id) :
    ((draft.gatherStrays id indent).graph.line id).next = (draft.graph.line id).next := by
  rw [(draft.linked_gatherStrays id indent).1.next id known, if_neg]
  intro taken
  obtain ⟨stray, member, same⟩ := List.mem_map.mp taken
  split at member
  · exact Nat.ne_of_lt (older stray ((List.takeWhile_sublist _).mem member)) same
  · cases member

/-- What is left behind when a line has been attached is older than the line. -/
theorem strays_lt_of_attachSpeech {room attached : Draft} {title : String} {line : Line}
    {indent : Nat} (orderly : room.Orderly) (unbranched : line.branch = none)
    (bare : line.choices = [])
    (attach : (room.addLine line).attachSpeech title room.graph.lines.size indent =
      .ok attached) :
    ∀ stray ∈ (attached.dedent indent).strays, stray.id < room.graph.lines.size := by
  have newest : (room.addLine line).graph.IsNewest room.graph.lines.size :=
    Graph.IsNewest.addLine unbranched bare
  have waits : ∀ node ∈ (room.addLine line).waitingNodes, node.id < room.graph.lines.size :=
    fun node member => orderly.known node.id (List.mem_map.mpr ⟨node, member, rfl⟩)
  obtain ⟨-, earlier⟩ : Graph.Grows (fun _ => False) (room.addLine line).graph attached.graph ∧
      ∀ node ∈ attached.waitingNodes, node.id < room.graph.lines.size :=
    grows_attachSpeech newest waits attach
  exact strays_dedent_lt indent earlier

/-- A line with return markers that is accepted is followed by the root of the choice that they
count to, and does not wait. -/
theorem marked_of_step (orderly : before.Orderly) (speaks : statement.construct = .speech)
    (readSpeech : Speech.read statement.content = .ok speech) (marked : 0 < speech.returnDepth)
    (read : before.step scope statement = .ok after) :
    (∃ choice, (before.around statement)[speech.returnDepth - 1]? = some choice ∧
      (after.graph.line (before.roomFor statement).graph.lines.size).next =
        some (after.graph.choice choice.id).root) ∧
    (before.roomFor statement).graph.lines.size ∉ after.waiting := by
  let room := before.roomFor statement
  have roomOrderly : room.Orderly := (before.extends_roomFor statement).orderly orderly
  unfold step at read
  simp only [speaks] at read
  obtain ⟨title, other, commands, attached, directed, -, -, readOther, -, attach, direct, rfl⟩ :=
    stepSpeech_eq_ok_iff.mp read
  rw [readSpeech] at readOther
  cases readOther
  let line := Line.spoken speech.speaker speech.text speech.expression commands
  have attach' : (room.addLine line).attachSpeech title room.graph.lines.size statement.indent =
    .ok attached := attach
  have direct' : (attached.dedent statement.indent).directSpeech room.graph.lines.size
    statement.indent speech.returnDepth = .ok directed := direct
  have places := places_of_attachSpeech rfl attach' direct'
  have choices := (choices_dedent_attached attach).trans (before.around_closeDeepBranches statement)
  have known : room.graph.lines.size < (attached.dedent statement.indent).graph.lines.size := by
    show _ < attached.graph.lines.size
    rw [(linked_attachSpeech attach').1.size]
    exact Nat.lt_of_lt_of_eq (Nat.lt_succ_self _) (room.graph.size_lines_addLine line).symm
  constructor
  · obtain ⟨choice, isChoice, leads⟩ := next_directSpeech (Nat.ne_of_gt marked) known direct'
    obtain ⟨-, strays, -, size, -, -⟩ := directSpeech_eq_ok direct'
    have gathered := directed.next_gatherStrays_of_older statement.indent (size ▸ known)
      (strays ▸ strays_lt_of_attachSpeech roomOrderly rfl rfl attach')
    have roots := directed.choices_gatherStrays room.graph.lines.size statement.indent
    refine ⟨choice, choices ▸ isChoice, ?_⟩
    show ((directed.gatherStrays room.graph.lines.size statement.indent).graph.line _).next =
      some ((directed.gatherStrays room.graph.lines.size statement.indent).graph.choice _).root
    rw [Graph.choice_congr roots]
    exact gathered.trans leads
  · -- Only what has waited waits on.
    intro waits
    have left := places.waiting
    rw [if_neg (Nat.ne_of_gt marked), List.nil_append] at left
    have remains : room.graph.lines.size ∈ _ := left ▸ waits
    have waited := ((Places.mem_remaining_iff roomOrderly).mp remains).1
    exact Nat.lt_irrefl _ (roomOrderly.known _ waited)

/-- A line that does not wait keeps its successor. -/
theorem next_of_step_of_not_waiting (orderly : before.Orderly)
    (read : before.step scope statement = .ok after) {id : LineIndex}
    (known : id < before.graph.lines.size) (settled : id ∉ before.waiting) :
    (after.graph.line id).next = (before.graph.line id).next ∧ id ∉ after.waiting := by
  have advances := advances_of_step orderly read
  constructor
  · rw [advances.next id known, if_neg]
    intro taken
    exact settled (((before.extends_roomFor statement).waiting id known).mp
      (mem_waiting_of_taken taken))
  · exact fun waits => settled ((advances.waiting id known).mp waits).1

end Draft

section Prefix

variable {scope : Scope} {statements : List Statement} {before : Draft} {place count : Nat}
  {statement : Statement}

theorem constructAt_take (early : count < place) :
    constructAt (statements.take place) count = constructAt statements count := by
  rw [constructAt, constructAt, List.getElem?_take_of_lt early]

theorem indentAt_take (early : count < place) :
    indentAt (statements.take place) count = indentAt statements count := by
  rw [indentAt, indentAt, List.getElem?_take_of_lt early]

theorem draftAfter_take (early : count ≤ place) :
    draftAfter scope (statements.take place) count = draftAfter scope statements count := by
  rw [draftAfter, draftAfter, List.take_take, Nat.min_eq_left early]

theorem lineAt_take (early : count < place) :
    lineAt scope (statements.take place) count = lineAt scope statements count := by
  rw [lineAt, lineAt, draftAfter_take early]

/-- The options that are open depend on what has been read alone. -/
theorem openOptions_take :
    openOptions (statements.take place) place = openOptions statements place := by
  refine List.filter_congr fun option member => ?_
  have before := List.mem_range.mp (List.mem_reverse.mp member)
  apply decide_eq_decide.mpr
  rw [StaysOpen, StaysOpen, constructAt_take before, indentAt_take before]
  refine and_congr_right fun _ => forall_congr' fun between => forall_congr' fun early => ?_
  rw [constructAt_take early, indentAt_take early]

/-- When part of a script has been read, the open choices are those of its open options. -/
theorem choices_of_read (read : Draft.empty.stepAll scope (statements.take place) = .ok before)
    (unterminated : ∀ place, ¬ IsOption statements true place)
    (within : place ≤ statements.length) :
    before.choices = (openOptions statements place).map (choiceNode scope statements) := by
  have length : (statements.take place).length = place := List.length_take_of_le within
  have plain : ∀ earlier, ¬ IsOption (statements.take place) true earlier := by
    rintro earlier ⟨statement, option, found, offers⟩
    have early : earlier < place := length ▸ (List.getElem?_eq_some_iff.mp found).1
    rw [List.getElem?_take_of_lt early] at found
    exact unterminated earlier ⟨statement, option, found, offers⟩
  have choices := choices_eq_openOptions read plain (Nat.le_of_eq length.symm)
  rw [openOptions_take, draftAfter_take (Nat.le_refl place), draftAfter_of_read read] at choices
  rw [choices]
  refine List.map_congr_left fun option member => ?_
  have early := List.mem_range.mp (List.mem_reverse.mp (List.mem_filter.mp member).1)
  rw [choiceNode, choiceNode, choiceAt, choiceAt, draftAfter_take (Nat.le_of_lt early),
    indentAt_take early]

/-- The choices around a statement are those of the options that enclose it. -/
theorem around_of_read (read : Draft.empty.stepAll scope (statements.take place) = .ok before)
    (unterminated : ∀ place, ¬ IsOption statements true place)
    (found : statements[place]? = some statement) (stays : statement.construct ≠ .dialogue) :
    before.around statement = (enclosing statements place).map (choiceNode scope statements) := by
  have within := Nat.le_of_lt (List.getElem?_eq_some_iff.mp found).1
  have nested : before.Nested := draftAfter_of_read read ▸ nested_draftAfter place
  have inside : constructAt statements place ≠ some .dialogue := by
    rw [constructAt_of_found found]
    exact fun begins => stays (Option.some.inj begins)
  rw [Draft.around, dropWhile_eq_filter nested.sortedChoices,
    choices_of_read read unterminated within, enclosing_eq inside, List.filter_map,
    indentAt_eq found]
  rfl

end Prefix

section Reading

variable {scope : Scope} {statements : List Statement} {final : Draft} {place count : Nat}

theorem mem_enclosing_iff {option : Nat} :
    option ∈ enclosing statements place ↔ Encloses statements option place := by
  rw [enclosing, List.mem_filter, List.mem_reverse, List.mem_range, decide_eq_true_iff]
  exact ⟨And.right, fun encloses => ⟨encloses.1, encloses⟩⟩

/-- A line with return markers keeps the successor that it is given when it is read. -/
theorem next_lineAt_kept (read : Draft.empty.stepAll scope statements = .ok final)
    (marks : Marks statements place count) (marked : 0 < count) {later : Nat}
    (after : place < later) (within : later ≤ statements.length) :
    ((draftAfter scope statements later).graph.line (lineAt scope statements place)).next =
      ((draftAfter scope statements (place + 1)).graph.line
        (lineAt scope statements place)).next := by
  obtain ⟨statement, speech, found, speaks, readSpeech, rfl⟩ := marks
  obtain ⟨-, settled⟩ := Draft.marked_of_step (orderly_draftAfter place) speaks readSpeech marked
    (step_draftAfter read found)
  rw [← lineAt_eq read found speaks] at settled
  -- The line does not wait, so what is read later leaves its successor alone.
  refine (draftAfter_induction (motive := fun later =>
    ((draftAfter scope statements later).graph.line (lineAt scope statements place)).next =
        ((draftAfter scope statements (place + 1)).graph.line
          (lineAt scope statements place)).next ∧
      lineAt scope statements place ∉ (draftAfter scope statements later).waiting)
    read (Nat.succ_le_of_lt after) within ⟨rfl, settled⟩ ?_).1
  rintro index other behind _ _ steppedOther ⟨soFar, settled⟩
  have known := Nat.lt_of_lt_of_le (lineAt_lt read found speaks) (size_draftAfter_mono read behind)
  obtain ⟨kept, quiet⟩ :=
    Draft.next_of_step_of_not_waiting (orderly_draftAfter index) steppedOther known settled
  exact ⟨kept.trans soFar, quiet⟩

/-- From the moment when it is read, a line with return markers leads to the root of the option
that they count to, which is a plain line of the dialogue. -/
theorem next_lineAt_of_marks (read : Draft.empty.stepAll scope statements = .ok final)
    (unterminated : ∀ place, ¬ IsOption statements true place)
    (marks : Marks statements place count) (marked : 0 < count) :
    ∃ option spoken, (enclosing statements place)[count - 1]? = some option ∧
      spoken < option ∧ IsPlain statements spoken ∧ SameDialogue statements spoken place ∧
      rootAt scope statements option = some (lineAt scope statements spoken) ∧
      ∀ later, place < later → later ≤ statements.length →
        ((draftAfter scope statements later).graph.line (lineAt scope statements place)).next =
          some (lineAt scope statements spoken) := by
  have kept := @next_lineAt_kept _ _ _ _ _ read marks marked
  obtain ⟨statement, speech, found, speaks, readSpeech, rfl⟩ := marks
  have within := (List.getElem?_eq_some_iff.mp found).1
  have stepped := step_draftAfter read found
  obtain ⟨⟨choice, isChoice, leads⟩, -⟩ :=
    Draft.marked_of_step (orderly_draftAfter place) speaks readSpeech marked stepped
  rw [around_of_read (read_take read place) unterminated found (by simp [speaks]),
    List.getElem?_map] at isChoice
  obtain ⟨option, isOption, rfl⟩ := Option.map_eq_some_iff.mp isChoice
  obtain ⟨before, construct, inside⟩ := mem_enclosing_iff.mp (List.mem_of_getElem? isOption)
  obtain ⟨spoken, earlier, plain, rooted, -, same⟩ := exists_rootAt read construct
  rw [← lineAt_eq read found speaks] at leads
  have root := root_choice_draftAfter read construct (Nat.lt_succ_of_lt before) within
  rw [rooted] at root
  refine ⟨option, spoken, isOption, earlier, plain, ?_, rooted,
    fun later after reaches => (kept after reaches).trans (leads.trans root)⟩
  intro between after early
  rcases Nat.lt_trichotomy between option with sooner | rfl | behind
  · exact same between after sooner
  · rw [construct]
    simp
  · exact (inside between (Nat.le_of_lt early) behind).1

end Reading

end Parley
