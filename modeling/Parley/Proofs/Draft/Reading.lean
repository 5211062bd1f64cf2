import Parley.Proofs.Draft.Succession

/-!
# Which line follows which

A script is read one statement after the other.  A spoken line without return markers
waits from the moment it is read until a later spoken line of its dialogue follows it,
and nothing ever links it again.  So the successor that it has in the end is known
from the stacks that the later line finds.
-/

namespace Parley

open Parley.Script

namespace Draft

variable {before after : Draft} {statement : Statement} {scope : Scope}

/-- The draft in which a spoken line takes its place. -/
def roomFor (draft : Draft) (statement : Statement) : Draft :=
  (draft.closeDeepBranches statement.indent).makeRoom statement.indent

/-- The lines that get a successor when a statement is read. -/
def taken (draft : Draft) (statement : Statement) : List LineIndex :=
  if statement.construct = .speech then
    (draft.roomFor statement).predecessors statement.indent
  else []

/-- Room is made by adding lines at most. -/
theorem extends_roomFor (draft : Draft) (statement : Statement) :
    draft.Extends (draft.roomFor statement) :=
  (Extends.closeDeepBranches draft statement.indent).trans (Extends.makeRoom _ statement.indent)

/-- Only what is said follows a line. -/
theorem construct_of_taken {id : LineIndex} (gone : id ∈ before.taken statement) :
    statement.construct = .speech := by
  by_cases speaks : statement.construct = .speech
  · exact speaks
  · rw [taken, if_neg speaks] at gone
    cases gone

/-- Only a line that waits is followed. -/
theorem mem_waiting_of_taken {id : LineIndex} (gone : id ∈ before.taken statement) :
    id ∈ (before.roomFor statement).waiting := by
  have speaks := construct_of_taken gone
  rw [taken, if_pos speaks] at gone
  exact mem_waiting_of_predecessor gone

/-- What reading a statement makes of the lines that are there: it follows some of
them, and a new dialogue forgets those that wait. -/
structure Advances (before after : Draft) (statement : Statement) : Prop where
  size : before.graph.lines.size ≤ after.graph.lines.size
  unlinked : ∀ id < before.graph.lines.size,
    (after.graph.line id).unlinked = (before.graph.line id).unlinked
  next : ∀ id < before.graph.lines.size, (after.graph.line id).next =
    if id ∈ before.taken statement then some (before.roomFor statement).graph.lines.size
    else (before.graph.line id).next
  waiting : ∀ id < before.graph.lines.size, (id ∈ after.waiting ↔
    id ∈ before.waiting ∧ id ∉ before.taken statement ∧ statement.construct ≠ .dialogue)
  orderly : after.Orderly

theorem Extends.advances (extended : before.Extends after) (orderly : before.Orderly)
    (silent : statement.construct ≠ .speech) (stays : statement.construct ≠ .dialogue) :
    before.Advances after statement where
  size := extended.size
  unlinked := extended.unlinked
  next id known := by
    rw [taken, if_neg silent]
    exact extended.next id known
  waiting id known := by
    rw [extended.waiting id known, taken, if_neg silent]
    simp [stays]
  orderly := extended.orderly orderly

/-- Reading a statement advances a draft. -/
theorem advances_of_step (orderly : before.Orderly)
    (read : before.step scope statement = .ok after) : before.Advances after statement := by
  have closed := Extends.closeDeepBranches before statement.indent
  unfold step at read
  split at read
  · rename_i construct
    obtain ⟨title, _, _, _, rfl⟩ := stepTitle_eq_ok_iff.mp read
    have ended := closed.trans (Extends.closeDialogue _)
    constructor
    · exact ended.size
    · exact ended.unlinked
    · intro id known
      rw [taken, if_neg (by simp [construct])]
      exact ended.next id known
    · intro id known
      simp [construct, waiting, waitingNodes, beginDialogue]
    · constructor
      · exact List.nodup_nil
      · intro id member
        cases member
      · intro id member
        cases member
  · rename_i construct
    obtain ⟨option, commands, conditions, root, _, _, _, _, rfl⟩ := stepOption_eq_ok_iff.mp read
    have offered := (closed.trans (Extends.abandonDeepLines _ statement.indent)).trans
      (Extends.offer _ (Choice.fresh option.text conditions commands root) option.terminal
        statement.indent)
    exact offered.advances orderly (by simp [construct]) (by simp [construct])
  · rename_i construct
    obtain ⟨title, source, conditions, _, _, _, _, rfl⟩ := stepIfArm_eq_ok_iff.mp read
    have opened := closed.trans (Extends.openBranch _ title conditions statement.indent)
    exact opened.advances orderly (by simp [construct]) (by simp [construct])
  · rename_i construct
    obtain ⟨source, branch, conditions, _, _, _, _, rfl⟩ := stepElseArm_eq_ok_iff.mp read
    have extended := closed.trans (Extends.extendBranch _ branch conditions statement.indent)
    exact extended.advances orderly (by simp [construct]) (by simp [construct])
  · rename_i construct
    obtain ⟨speech, commands, _, _, places⟩ := places_of_stepSpeech read
    have roomy := before.extends_roomFor statement
    have roomOrderly := roomy.orderly orderly
    have inRoom : ∀ id < before.graph.lines.size,
        id < (before.roomFor statement).graph.lines.size :=
      fun id known => Nat.lt_of_lt_of_le known roomy.size
    constructor
    · rw [places.size]
      exact Nat.le_succ_of_le roomy.size
    · intro id known
      exact (places.unlinked id (inRoom id known)).trans (roomy.unlinked id known)
    · intro id known
      rw [taken, if_pos construct, ← roomy.next id known]
      exact places.next id (inRoom id known)
    · intro id known
      rw [taken, if_pos construct, ← roomy.waiting id known]
      rw [places.waiting_iff roomOrderly (inRoom id known)]
      simp [construct, roomFor]
    · exact places.orderly roomOrderly

theorem orderly_of_stepAll {statements : List Statement} (orderly : before.Orderly)
    (read : before.stepAll scope statements = .ok after) : after.Orderly := by
  induction statements generalizing before with
  | nil =>
      cases read
      exact orderly
  | cons statement rest ih =>
      obtain ⟨middle, first, others⟩ := stepAll_cons_eq_ok_iff.mp read
      exact ih (advances_of_step orderly first).orderly others

/-- The line that a spoken statement makes. -/
theorem speech_of_step (spoken : statement.construct = .speech)
    (read : before.step scope statement = .ok after) :
    ∃ speech commands, Speech.read statement.content = .ok speech ∧
      readBlock scope speech.block = .ok commands ∧
      after.graph.lines.size = (before.roomFor statement).graph.lines.size + 1 ∧
      (after.graph.line (before.roomFor statement).graph.lines.size).unlinked =
        (Line.spoken speech.speaker speech.text speech.expression commands).unlinked ∧
      (speech.returnDepth = 0 →
        (before.roomFor statement).graph.lines.size ∈ after.waiting) := by
  unfold step at read
  simp only [spoken] at read
  obtain ⟨speech, commands, readSpeech, readCommands, places⟩ := places_of_stepSpeech read
  have waits : speech.returnDepth = 0 →
      (before.roomFor statement).graph.lines.size ∈ after.waiting := by
    intro plain
    rw [places.waiting, roomFor, if_pos plain]
    exact List.mem_append_left _ (List.mem_singleton_self _)
  exact ⟨speech, commands, readSpeech, readCommands, places.size, places.said, waits⟩

end Draft

/-! ## Reading a whole script -/

section Reading

variable (scope : Scope) (statements : List Statement)

/-- The draft after a number of statements. -/
def draftAfter (count : Nat) : Draft :=
  match Draft.empty.stepAll scope (statements.take count) with
  | .ok draft => draft
  | .error _ => Draft.empty

/-- The line that the statement at a place makes, if it is spoken. -/
def lineAt (place : Nat) : LineIndex :=
  (draftAfter scope statements (place + 1)).graph.lines.size - 1

/-- The construct of the statement at a place. -/
def constructAt (place : Nat) : Option Construct :=
  statements[place]?.map Statement.construct

/-- The indentation of the statement at a place. -/
def indentAt (place : Nat) : Nat :=
  (statements[place]?.map Statement.indent).getD 0

/-- The statement at a place says something and carries no return marker. -/
def IsPlain (place : Nat) : Prop :=
  ∃ statement speech, statements[place]? = some statement ∧ statement.construct = .speech ∧
    Speech.read statement.content = .ok speech ∧ speech.returnDepth = 0

/-- No dialogue begins between two places. -/
def SameDialogue (earlier later : Nat) : Prop :=
  ∀ place, earlier < place → place < later → constructAt statements place ≠ some .dialogue

/-- A line is among those that the statement at a place follows. -/
def Follows (line : LineIndex) (later : Nat) : Prop :=
  ∃ statement, statements[later]? = some statement ∧
    line ∈ (draftAfter scope statements later).taken statement

/-- The line of one place is among those that the statement at another follows. -/
def TakesUp (earlier later : Nat) : Prop :=
  ∃ statement, statements[later]? = some statement ∧
    lineAt scope statements earlier ∈ (draftAfter scope statements later).taken statement

variable {scope statements} {final : Draft} {place earlier later : Nat} {statement : Statement}

theorem indentAt_eq (found : statements[place]? = some statement) :
    indentAt statements place = statement.indent := by
  rw [indentAt, found]
  rfl

theorem constructAt_of_found (found : statements[place]? = some statement) :
    constructAt statements place = some statement.construct := by
  rw [constructAt, found]
  rfl

theorem orderly_draftAfter (count : Nat) : (draftAfter scope statements count).Orderly := by
  unfold draftAfter
  split
  · rename_i draft read
    exact Draft.orderly_of_stepAll Draft.Orderly.empty read
  · exact Draft.Orderly.empty

theorem draftAfter_length (read : Draft.empty.stepAll scope statements = .ok final) :
    draftAfter scope statements statements.length = final := by
  rw [draftAfter, List.take_length, read]

theorem draftAfter_of_read {before : Draft}
    (read : Draft.empty.stepAll scope (statements.take place) = .ok before) :
    draftAfter scope statements place = before := by
  rw [draftAfter, read]

/-- A script is what stands before a statement, the statement and what stands behind it. -/
theorem take_append_cons_drop (found : statements[place]? = some statement) :
    statements.take place ++ statement :: statements.drop (place + 1) = statements := by
  obtain ⟨known, same⟩ := List.getElem?_eq_some_iff.mp found
  rw [← same, ← List.drop_eq_getElem_cons known, List.take_append_drop]

theorem read_take (read : Draft.empty.stepAll scope statements = .ok final) (place : Nat) :
    Draft.empty.stepAll scope (statements.take place) =
      .ok (draftAfter scope statements place) := by
  rw [← List.take_append_drop place statements] at read
  obtain ⟨middle, first, -⟩ := Draft.stepAll_append_eq_ok_iff.mp read
  rw [draftAfter_of_read first]
  exact first

theorem read_drop (read : Draft.empty.stepAll scope statements = .ok final)
    (found : statements[place]? = some statement) :
    (draftAfter scope statements place).stepAll scope
      (statement :: statements.drop (place + 1)) = .ok final := by
  have first := read_take read place
  rw [← take_append_cons_drop found] at read
  obtain ⟨middle, readFirst, rest⟩ := Draft.stepAll_append_eq_ok_iff.mp read
  rw [first] at readFirst
  cases readFirst
  exact rest

/-- Each statement is read into the draft after the statements before it. -/
theorem step_draftAfter (read : Draft.empty.stepAll scope statements = .ok final)
    (found : statements[place]? = some statement) :
    (draftAfter scope statements place).step scope statement =
      .ok (draftAfter scope statements (place + 1)) := by
  obtain ⟨next, stepped, -⟩ := Draft.stepAll_cons_eq_ok_iff.mp (read_drop read found)
  have through : Draft.empty.stepAll scope (statements.take (place + 1)) = .ok next := by
    rw [List.take_add_one, found, Option.toList_some]
    exact Draft.stepAll_append_eq_ok_iff.mpr ⟨_, read_take read place,
      Draft.stepAll_cons_eq_ok_iff.mpr ⟨next, stepped, rfl⟩⟩
  rw [draftAfter_of_read through]
  exact stepped

/-- Lines are only ever added. -/
theorem size_draftAfter_mono (read : Draft.empty.stepAll scope statements = .ok final)
    {count : Nat} (le : place ≤ count) :
    (draftAfter scope statements place).graph.lines.size ≤
      (draftAfter scope statements count).graph.lines.size := by
  induction le with
  | refl => exact Nat.le_refl _
  | @step count _ ih =>
      rcases found : statements[count]? with _ | statement
      · have same : statements.take (count + 1) = statements.take count := by
          rw [List.take_add_one, found, Option.toList_none, List.append_nil]
        have stays : draftAfter scope statements (count + 1) =
            draftAfter scope statements count := by
          rw [draftAfter, draftAfter, same]
        show _ ≤ (draftAfter scope statements (count + 1)).graph.lines.size
        rw [stays]
        exact ih
      · have stepped := Draft.advances_of_step (orderly_draftAfter count)
          (step_draftAfter read found)
        exact Nat.le_trans ih stepped.size

/-- A spoken statement makes the line that is the last one after it. -/
theorem lineAt_eq (read : Draft.empty.stepAll scope statements = .ok final)
    (found : statements[place]? = some statement) (spoken : statement.construct = .speech) :
    lineAt scope statements place =
      ((draftAfter scope statements place).roomFor statement).graph.lines.size := by
  obtain ⟨_, _, _, _, size, _⟩ := Draft.speech_of_step spoken (step_draftAfter read found)
  rw [lineAt, size, Nat.add_sub_cancel]

theorem lineAt_lt (read : Draft.empty.stepAll scope statements = .ok final)
    (found : statements[place]? = some statement) (spoken : statement.construct = .speech) :
    lineAt scope statements place <
      (draftAfter scope statements (place + 1)).graph.lines.size := by
  obtain ⟨_, _, _, _, size, _⟩ := Draft.speech_of_step spoken (step_draftAfter read found)
  rw [lineAt_eq read found spoken, size]
  exact Nat.lt_succ_self _

/-- Later spoken statements make later lines. -/
theorem lineAt_lt_lineAt (read : Draft.empty.stepAll scope statements = .ok final)
    (spokenEarlier : constructAt statements earlier = some .speech)
    (spokenLater : constructAt statements later = some .speech) (before : earlier < later) :
    lineAt scope statements earlier < lineAt scope statements later := by
  obtain ⟨first, foundFirst, firstSpoken⟩ := Option.map_eq_some_iff.mp spokenEarlier
  obtain ⟨second, foundSecond, secondSpoken⟩ := Option.map_eq_some_iff.mp spokenLater
  have roomy := (draftAfter scope statements later).extends_roomFor second
  rw [lineAt_eq read foundSecond secondSpoken]
  calc
    lineAt scope statements earlier
        < (draftAfter scope statements (earlier + 1)).graph.lines.size :=
      lineAt_lt read foundFirst firstSpoken
    _ ≤ (draftAfter scope statements later).graph.lines.size := size_draftAfter_mono read before
    _ ≤ _ := roomy.size

/-- Different spoken statements make different lines. -/
theorem lineAt_injective (read : Draft.empty.stepAll scope statements = .ok final)
    (spokenEarlier : constructAt statements earlier = some .speech)
    (spokenLater : constructAt statements later = some .speech)
    (same : lineAt scope statements earlier = lineAt scope statements later) :
    earlier = later := by
  rcases Nat.lt_trichotomy earlier later with before | equal | behind
  · exact absurd same (Nat.ne_of_lt (lineAt_lt_lineAt read spokenEarlier spokenLater before))
  · exact equal
  · exact absurd same.symm (Nat.ne_of_lt (lineAt_lt_lineAt read spokenLater spokenEarlier behind))

/-- Only a spoken statement follows a line, and only one that comes later. -/
theorem TakesUp.spoken_later (read : Draft.empty.stepAll scope statements = .ok final)
    (spoken : constructAt statements earlier = some .speech)
    (takes : TakesUp scope statements earlier later) :
    constructAt statements later = some .speech ∧ earlier < later := by
  obtain ⟨statement, found, taken⟩ := takes
  have speaks := Draft.construct_of_taken taken
  have spokenLater : constructAt statements later = some .speech :=
    Option.map_eq_some_iff.mpr ⟨statement, found, speaks⟩
  apply And.intro spokenLater
  have roomy := (draftAfter scope statements later).extends_roomFor statement
  have orderly := roomy.orderly (orderly_draftAfter later)
  have less : lineAt scope statements earlier < lineAt scope statements later := by
    rw [lineAt_eq read found speaks]
    exact orderly.known _ (Draft.mem_waiting_of_taken taken)
  rcases Nat.lt_trichotomy earlier later with before | same | behind
  · exact before
  · rw [same] at less
    exact absurd less (Nat.lt_irrefl _)
  · have more := lineAt_lt_lineAt read spokenLater spoken behind
    exact absurd (Nat.lt_trans less more) (Nat.lt_irrefl _)

/-- What has become, after a number of statements, of a line that waits from some place on. -/
structure Course (scope : Scope) (statements : List Statement) (line : LineIndex)
    (start count : Nat) : Prop where
  known : line < (draftAfter scope statements count).graph.lines.size
  /-- It waits until it is followed or forgotten. -/
  waiting : line ∈ (draftAfter scope statements count).waiting ↔
    ∀ between, start ≤ between → between < count →
      ¬ Follows scope statements line between ∧ constructAt statements between ≠ some .dialogue
  /-- It has no successor until it is followed. -/
  unfollowed : (∀ between, start ≤ between → between < count →
      ¬ Follows scope statements line between) →
    ((draftAfter scope statements count).graph.line line).next = none
  /-- What follows it is its successor from then on. -/
  followed : ∀ between, start ≤ between → between < count →
    Follows scope statements line between →
      ((draftAfter scope statements count).graph.line line).next =
        some (lineAt scope statements between)

theorem follows_iff_mem_taken {line : LineIndex} (found : statements[place]? = some statement) :
    Follows scope statements line place ↔
      line ∈ (draftAfter scope statements place).taken statement := by
  constructor
  · rintro ⟨other, foundOther, taken⟩
    rw [found] at foundOther
    cases foundOther
    exact taken
  · exact fun taken => ⟨statement, found, taken⟩

/-- A line that waits has its course before it. -/
theorem Course.of_waiting {line : LineIndex} {start : Nat}
    (waits : line ∈ (draftAfter scope statements start).waiting) :
    Course scope statements line start start where
  known := (orderly_draftAfter start).known line waits
  waiting := by
    constructor
    · exact fun _ between after before => absurd before (Nat.not_lt_of_le after)
    · exact fun _ => waits
  unfollowed _ := (orderly_draftAfter start).unfollowed line waits
  followed between after before := absurd before (Nat.not_lt_of_le after)

/-- Each statement leaves a line alone, follows it if it still waits, or forgets it. -/
theorem Course.next (read : Draft.empty.stepAll scope statements = .ok final) {line : LineIndex}
    {start count : Nat} (course : Course scope statements line start count)
    (behind : start ≤ count) (found : statements[count]? = some statement) :
    Course scope statements line start (count + 1) := by
  have stepped := Draft.advances_of_step (orderly_draftAfter count) (step_draftAfter read found)
  have follows_iff : Follows scope statements line count ↔
      line ∈ (draftAfter scope statements count).taken statement := follows_iff_mem_taken found
  have construct := constructAt_of_found found
  constructor
  · exact Nat.lt_of_lt_of_le course.known stepped.size
  · rw [stepped.waiting _ course.known, course.waiting, ← follows_iff]
    constructor
    · rintro ⟨soFar, free, stays⟩ between after before
      rcases Nat.lt_or_eq_of_le (Nat.le_of_lt_succ before) with early | rfl
      · exact soFar between after early
      · rw [construct]
        exact ⟨free, fun begins => stays (Option.some.inj begins)⟩
    · intro throughout
      obtain ⟨free, stays⟩ := throughout count behind (Nat.lt_succ_self count)
      rw [construct] at stays
      constructor
      · intro between after before
        exact throughout between after (Nat.lt_succ_of_lt before)
      · exact ⟨free, fun begins => stays (congrArg some begins)⟩
  · intro free
    have notNow : line ∉ (draftAfter scope statements count).taken statement :=
      fun taken => free count behind (Nat.lt_succ_self count) (follows_iff.mpr taken)
    rw [stepped.next _ course.known, if_neg notNow]
    exact course.unfollowed fun between after before =>
      free between after (Nat.lt_succ_of_lt before)
  · intro between after before follows
    rw [stepped.next _ course.known]
    rcases Nat.lt_or_eq_of_le (Nat.le_of_lt_succ before) with early | rfl
    · -- A line that has been followed does not wait any more.
      have notNow : line ∉ (draftAfter scope statements count).taken statement := by
        intro taken
        have waits := ((draftAfter scope statements count).extends_roomFor statement).waiting _
          course.known |>.mp (Draft.mem_waiting_of_taken taken)
        exact (course.waiting.mp waits between after early).1 follows
      rw [if_neg notNow]
      exact course.followed between after early follows
    · have taken := follows_iff.mp follows
      rw [if_pos taken, lineAt_eq read found (Draft.construct_of_taken taken)]

/-- A line that waits where a spoken line takes its place is followed then or waits on. -/
theorem Course.of_room (read : Draft.empty.stepAll scope statements = .ok final)
    {line : LineIndex} {start : Nat} (found : statements[start]? = some statement)
    (spoken : statement.construct = .speech)
    (waits : line ∈ ((draftAfter scope statements start).roomFor statement).waiting) :
    Course scope statements line start (start + 1) := by
  have stepped := step_draftAfter read found
  have roomOrderly := ((draftAfter scope statements start).extends_roomFor statement).orderly
    (orderly_draftAfter start)
  have known := roomOrderly.known line waits
  unfold Draft.step at stepped
  simp only [spoken] at stepped
  obtain ⟨speech, commands, _, _, places⟩ := Draft.places_of_stepSpeech stepped
  have follows_iff : Follows scope statements line start ↔
      line ∈ ((draftAfter scope statements start).roomFor statement).predecessors
        statement.indent := by
    rw [follows_iff_mem_taken found, Draft.taken, if_pos spoken]
  have only : ∀ between, start ≤ between → between < start + 1 → between = start :=
    fun between after before => Nat.le_antisymm (Nat.le_of_lt_succ before) after
  have construct : constructAt statements start ≠ some .dialogue := by
    rw [constructAt_of_found found, spoken]
    simp
  have next := places.next line known
  constructor
  · rw [places.size]
    exact Nat.lt_succ_of_lt known
  · rw [places.waiting_iff roomOrderly known]
    constructor
    · rintro ⟨_, free⟩ between after before
      rw [only between after before, follows_iff]
      exact ⟨free, construct⟩
    · intro free
      have notNow := (free start (Nat.le_refl start) (Nat.lt_succ_self start)).1
      exact ⟨waits, fun taken => notNow (follows_iff.mpr taken)⟩
  · intro free
    have notNow := free start (Nat.le_refl start) (Nat.lt_succ_self start)
    rw [next]
    exact (if_neg fun taken => notNow (follows_iff.mpr taken)).trans
      (roomOrderly.unfollowed line waits)
  · intro between after before follows
    rw [only between after before] at follows ⊢
    rw [lineAt_eq read found spoken, next]
    exact if_pos (follows_iff.mp follows)

/-- The course of a line through the whole script. -/
theorem Course.all (read : Draft.empty.stepAll scope statements = .ok final) {line : LineIndex}
    {start first count : Nat} (course : Course scope statements line start first)
    (behind : start ≤ first) (le : first ≤ count) (within : count ≤ statements.length) :
    Course scope statements line start count := by
  induction le with
  | refl => exact course
  | @step count le ih =>
      have found : statements[count]? = some statements[count] := List.getElem?_eq_getElem within
      exact (ih (Nat.le_of_lt within)).next read (Nat.le_trans behind le) found

/-- A plain line waits as soon as it has been read. -/
theorem waits_of_isPlain (read : Draft.empty.stepAll scope statements = .ok final)
    (plain : IsPlain statements place) :
    lineAt scope statements place ∈ (draftAfter scope statements (place + 1)).waiting := by
  obtain ⟨statement, speech, found, spoken, readSpeech, unmarked⟩ := plain
  obtain ⟨other, _, readOther, _, size, _, waits⟩ :=
    Draft.speech_of_step spoken (step_draftAfter read found)
  rw [readSpeech] at readOther
  cases readOther
  rw [lineAt_eq read found spoken]
  exact waits unmarked

/-- The course of a plain line through the whole script. -/
theorem IsPlain.course (read : Draft.empty.stepAll scope statements = .ok final)
    (plain : IsPlain statements place) {count : Nat} (behind : place < count)
    (within : count ≤ statements.length) :
    Course scope statements (lineAt scope statements place) (place + 1) count :=
  (Course.of_waiting (waits_of_isPlain read plain)).all read (Nat.le_refl _) behind within

theorem IsPlain.constructAt_eq (plain : IsPlain statements place) :
    constructAt statements place = some .speech := by
  obtain ⟨statement, _, found, spoken, _⟩ := plain
  exact Option.map_eq_some_iff.mpr ⟨statement, found, spoken⟩

theorem IsPlain.lt_length (plain : IsPlain statements place) : place < statements.length := by
  obtain ⟨statement, _, found, _⟩ := plain
  exact (List.getElem?_eq_some_iff.mp found).1

theorem Follows.lt_length {line : LineIndex} (follows : Follows scope statements line later) :
    later < statements.length := by
  obtain ⟨_, found, _⟩ := follows
  exact (List.getElem?_eq_some_iff.mp found).1

/-- A line is taken up within its dialogue. -/
theorem TakesUp.sameDialogue (read : Draft.empty.stepAll scope statements = .ok final)
    (plain : IsPlain statements earlier) (takes : TakesUp scope statements earlier later) :
    SameDialogue statements earlier later := by
  obtain ⟨_, before⟩ := takes.spoken_later read plain.constructAt_eq
  have course := plain.course read before (Nat.le_of_lt (Follows.lt_length takes))
  obtain ⟨statement, _, taken⟩ := takes
  have waits := ((draftAfter scope statements later).extends_roomFor statement).waiting _
    course.known |>.mp (Draft.mem_waiting_of_taken taken)
  intro between after early
  exact (course.waiting.mp waits between after early).2

/-- A line is taken up at most once. -/
theorem TakesUp.unique (read : Draft.empty.stepAll scope statements = .ok final)
    (plain : IsPlain statements place) (first : TakesUp scope statements place earlier)
    (second : TakesUp scope statements place later) : earlier = later := by
  have spoken := plain.constructAt_eq
  obtain ⟨spokenFirst, afterFirst⟩ := first.spoken_later read spoken
  obtain ⟨spokenSecond, afterSecond⟩ := second.spoken_later read spoken
  have course := plain.course read plain.lt_length (Nat.le_refl _)
  have firstNext := course.followed earlier afterFirst (Follows.lt_length first) first
  have secondNext := course.followed later afterSecond (Follows.lt_length second) second
  rw [firstNext] at secondNext
  exact lineAt_injective read spokenFirst spokenSecond (Option.some.inj secondNext)

/-- In the end the successor of a line that has waited is the line that follows it. -/
theorem Course.next_eq_some_iff (read : Draft.empty.stepAll scope statements = .ok final)
    {line target : LineIndex} {start first : Nat}
    (course : Course scope statements line start first)
    (behind : start ≤ first) (within : first ≤ statements.length) :
    (final.closeDialogue.graph.line line).next = some target ↔
      ∃ later, start ≤ later ∧ Follows scope statements line later ∧
        lineAt scope statements later = target := by
  have whole := course.all read behind within (Nat.le_refl _)
  have kept : (final.closeDialogue.graph.line line).next =
      ((draftAfter scope statements statements.length).graph.line line).next := by
    rw [draftAfter_length read]
    apply (Draft.Extends.closeDialogue final).next
    rw [← draftAfter_length read]
    exact whole.known
  rw [kept]
  constructor
  · intro linked
    by_cases followed : ∃ later, start ≤ later ∧ Follows scope statements line later
    · obtain ⟨later, after, follows⟩ := followed
      have next := whole.followed later after follows.lt_length follows
      rw [next] at linked
      exact ⟨later, after, follows, Option.some.inj linked⟩
    · have free := whole.unfollowed fun between after _ follows =>
        followed ⟨between, after, follows⟩
      rw [free] at linked
      cases linked
  · rintro ⟨later, after, follows, rfl⟩
    exact whole.followed later after follows.lt_length follows

/-- In the end the successor of a plain line is the line that took it up. -/
theorem next_lineAt_eq_some_iff (read : Draft.empty.stepAll scope statements = .ok final)
    (plain : IsPlain statements place) {target : LineIndex} :
    (final.closeDialogue.graph.line (lineAt scope statements place)).next = some target ↔
      ∃ later, TakesUp scope statements place later ∧
        lineAt scope statements later = target := by
  have course := plain.course read plain.lt_length (Nat.le_refl _)
  rw [course.next_eq_some_iff read plain.lt_length (Nat.le_refl _)]
  constructor
  · rintro ⟨later, _, follows, same⟩
    exact ⟨later, follows, same⟩
  · rintro ⟨later, takes, same⟩
    exact ⟨later, (takes.spoken_later read plain.constructAt_eq).2, takes, same⟩

/-- What a line says never changes. -/
theorem unlinked_draftAfter (read : Draft.empty.stepAll scope statements = .ok final)
    {line : LineIndex} {count : Nat} (le : place ≤ count)
    (known : line < (draftAfter scope statements place).graph.lines.size)
    (within : count ≤ statements.length) :
    ((draftAfter scope statements count).graph.line line).unlinked =
      ((draftAfter scope statements place).graph.line line).unlinked := by
  induction le with
  | refl => rfl
  | @step count le ih =>
      have found : statements[count]? = some statements[count] := List.getElem?_eq_getElem within
      have stepped := Draft.advances_of_step (orderly_draftAfter count) (step_draftAfter read found)
      have still := Nat.lt_of_lt_of_le known (size_draftAfter_mono read le)
      exact (stepped.unlinked line still).trans (ih (Nat.le_of_lt within))

/-- The line of a spoken statement says what the statement says. -/
theorem said_lineAt (read : Draft.empty.stepAll scope statements = .ok final)
    (found : statements[place]? = some statement) (spoken : statement.construct = .speech) :
    ∃ speech commands, Speech.read statement.content = .ok speech ∧
      Draft.readBlock scope speech.block = .ok commands ∧
      (final.closeDialogue.graph.line (lineAt scope statements place)).unlinked =
        (Line.spoken speech.speaker speech.text speech.expression commands).unlinked := by
  obtain ⟨speech, commands, readSpeech, readCommands, _, said, _⟩ :=
    Draft.speech_of_step spoken (step_draftAfter read found)
  have within := (List.getElem?_eq_some_iff.mp found).1
  have known := lineAt_lt read found spoken
  have knownLast : lineAt scope statements place < final.graph.lines.size := by
    rw [← draftAfter_length read]
    exact Nat.lt_of_lt_of_le known (size_draftAfter_mono read within)
  have kept := unlinked_draftAfter read within known (Nat.le_refl _)
  rw [draftAfter_length read, lineAt_eq read found spoken, said] at kept
  have closed := (Draft.Extends.closeDialogue final).unlinked _ knownLast
  rw [lineAt_eq read found spoken] at closed ⊢
  exact ⟨speech, commands, readSpeech, readCommands, closed.trans kept⟩

end Reading

end Parley
