import Parley.Proofs.Compilation.Successors
import Parley.Proofs.Draft.Branches

/-!
# Where a branch without an `(else)` continues

A branch that is left without an arm without conditions gets one that leads to a relay.
The relay always leads to the spoken line that ends the branch.  The last line of the
last written arm should lead there too, but it is left behind under the relay; the spoken
line takes it up exactly if no choice is open around the branch.
-/

namespace Parley

open Parley.Script

/-- The last line of an arm: nothing is said between it and the end of the arm, and nothing in
between is shallower. -/
structure LastOfArm (statements : List Statement) (header place later : Nat) : Prop where
  plain : IsPlain statements place
  inside : header < place
  before : place < later
  quiet : ∀ between, place < between → between < later →
    constructAt statements between ≠ some .speech ∧
      indentAt statements place ≤ indentAt statements between

section Reading

variable {scope : Scope} {statements : List Statement} {final : Draft} {header later : Nat}
  {id : BranchIndex}

/-- The arm that completes a branch leads over a relay to the spoken line that ends it. -/
theorem exists_default_of_endsArm (read : Draft.empty.stepAll scope statements = .ok final)
    (adds : AddsArm scope statements header id) (ends : EndsArm statements header later) :
    let graph := final.closeDialogue.graph
    ∃ earlier relay, (graph.branch id).arms = earlier ++ [⟨[], some relay⟩] ∧
      (graph.line relay).isRelay = true ∧
      (graph.line relay).next = some (lineAt scope statements later) := by
  intro graph
  obtain ⟨statement, found, spoken⟩ := Option.map_eq_some_iff.mp ends.spoken
  have within : later + 1 ≤ statements.length := (List.getElem?_eq_some_iff.mp found).1
  have level : statement.indent = indentAt statements header := by
    rw [← ends.level, indentAt_eq found]
  have lacks := adds.lacks_until read ends
  rw [← level] at lacks
  have nested : (draftAfter scope statements later).Nested := nested_draftAfter later
  let draft := draftAfter scope statements later
  let relay := ((draft.closeDeepBranches statement.indent).settleChoice
    statement.indent).graph.lines.size
  obtain ⟨latest, lines, isRelay, record, closed, known⟩ := Draft.makeRoom_of_lacks lacks nested
  have stepped := step_draftAfter read found
  have room : draft.roomFor statement =
      (draft.closeDeepBranches statement.indent).makeRoom statement.indent := rfl
  -- The relay is the innermost line that waits where the spoken line takes its place.
  have taken : relay ∈ (draft.roomFor statement).predecessors statement.indent := by
    apply List.mem_append_left
    rw [room, Draft.followed, if_pos latest, lines]
    simp [relay, draft]
  have waits := Draft.mem_waiting_of_predecessor taken
  have course := Course.of_room read found spoken waits
  have follows : Follows scope statements relay later := by
    rw [follows_iff_mem_taken found, Draft.taken, if_pos spoken]
    exact taken
  have next : (graph.line relay).next = some (lineAt scope statements later) :=
    (course.next_eq_some_iff read (Nat.le_succ later) within).mpr
      ⟨later, Nat.le_refl later, follows, rfl⟩
  have roomKnown := ((draft.extends_roomFor statement).orderly (orderly_draftAfter later)).known
    relay waits
  have stepSpeech := stepped
  unfold Draft.step at stepSpeech
  simp only [spoken] at stepSpeech
  obtain ⟨speech, commands, -, -, places⟩ := Draft.places_of_stepSpeech stepSpeech
  have said : (graph.line relay).unlinked = Line.relay.unlinked := by
    have knownThen : relay < (draftAfter scope statements (later + 1)).graph.lines.size := by
      rw [places.size]
      exact Nat.lt_succ_of_lt roomKnown
    have knownFinal := Nat.lt_of_lt_of_le knownThen (size_draftAfter_mono read within)
    have kept := unlinked_draftAfter read within knownThen (Nat.le_refl _)
    rw [draftAfter_length read] at kept knownFinal
    calc
      (graph.line relay).unlinked = (final.graph.line relay).unlinked :=
        (Draft.Extends.closeDialogue final).unlinked relay knownFinal
      _ = ((draftAfter scope statements (later + 1)).graph.line relay).unlinked := kept
      _ = ((draft.roomFor statement).graph.line relay).unlinked :=
        places.unlinked relay roomKnown
      _ = Line.relay.unlinked := congrArg Line.unlinked isRelay
  have branchThen : (draftAfter scope statements (later + 1)).graph.branch id =
      (draft.graph.branch id).addArm [] (some relay) := by
    rw [branch_of_speech_after_line read found spoken latest]
    exact record
  obtain ⟨branches, -, -⟩ := Draft.stacks_of_stepSpeech stepSpeech
  have branchesThen : (draftAfter scope statements (later + 1)).branches =
      (draft.roomFor statement).branches := by
    rw [branches, room, Draft.makeRoom, Draft.branches_closeBranchAt,
      Draft.branches_closeBranchAt, Draft.branches_settleChoice]
  have size : (draftAfter scope statements (later + 1)).graph.branches.size =
      draft.graph.branches.size := by
    rw [Draft.size_branches_of_step stepped, if_neg (by simp [spoken])]
    rfl
  have knownBranch : id < (draftAfter scope statements (later + 1)).graph.branches.size := by
    rw [size]
    exact nested.knownBranches _ lacks.mem
  have stays : graph.branch id = (draftAfter scope statements (later + 1)).graph.branch id := by
    apply branch_of_closed read within knownBranch
    rw [branchesThen]
    exact closed
  refine ⟨(draft.graph.branch id).arms, relay, ?_, ?_, next⟩
  · rw [stays, branchThen]
    rfl
  · have text := congrArg Line.text said
    rw [Line.isRelay]
    exact congrArg Option.isNone text

/-- The line that ends a branch takes up the last line of its last written arm exactly if no
choice is open around the branch. -/
theorem takesUp_iff_of_endsArm (read : Draft.empty.stepAll scope statements = .ok final)
    (adds : AddsArm scope statements header id) (ends : EndsArm statements header later)
    {place : Nat} (last : LastOfArm statements header place later) :
    TakesUp scope statements place later ↔
      (draftAfter scope statements (later + 1)).choices = [] := by
  obtain ⟨statement, found, spoken⟩ := Option.map_eq_some_iff.mp ends.spoken
  have within : later ≤ statements.length := Nat.le_of_lt (List.getElem?_eq_some_iff.mp found).1
  have level : statement.indent = indentAt statements header := by
    rw [← ends.level, indentAt_eq found]
  have lacks := adds.lacks_until read ends
  rw [← level] at lacks
  have dialogue : SameDialogue statements place later :=
    fun between after before => ends.dialogue between (Nat.lt_trans last.inside after) before
  obtain ⟨outer, innermost⟩ :=
    innermost_of_isPlain read last.plain last.before within dialogue last.quiet
  have deeper : statement.indent < indentAt statements place := by
    rw [level]
    exact ends.deeper place last.inside last.before
  have stepped := step_draftAfter read found
  unfold Draft.step at stepped
  simp only [spoken] at stepped
  obtain ⟨-, choices, -⟩ := Draft.stacks_of_stepSpeech stepped
  have taken_iff := Draft.mem_predecessors_iff_of_lacks lacks (nested_draftAfter later)
    (orderly_draftAfter later) innermost deeper
  have takesUp_iff : TakesUp scope statements place later ↔ lineAt scope statements place ∈
      ((draftAfter scope statements later).roomFor statement).predecessors statement.indent := by
    rw [TakesUp, ← Follows, follows_iff_mem_taken found, Draft.taken, if_pos spoken]
  rw [choices]
  exact takesUp_iff.trans taken_iff

end Reading

variable {σ : Type} {registry : Registry σ} {store : Store} {script : List String} {graph : Graph}

/-- A branch whose last written arm has conditions gets an arm without conditions, and its relay
leads to the spoken line that ends the branch.  The last line of the written arm leads there
exactly if no choice is open around the branch; where one is, the branch lies in the body of
an option. -/
theorem rejoins_of_addsArm_of_compile
    (compiled : (compile registry store script).graph = .ok graph) {header later : Nat}
    {id : BranchIndex}
    (adds : AddsArm (scopeOf registry store script) (statementsOf script) header id)
    (ends : EndsArm (statementsOf script) header later) :
    let scope := scopeOf registry store script
    let statements := statementsOf script
    (∃ earlier relay, (graph.branch id).arms = earlier ++ [⟨[], some relay⟩] ∧
      (graph.line relay).isRelay = true ∧
      (graph.line relay).next = some (lineAt scope statements later)) ∧
    (∀ place, LastOfArm statements header place later →
      ((graph.line (lineAt scope statements place)).next =
          some (lineAt scope statements later) ↔
        (draftAfter scope statements (later + 1)).choices = [])) ∧
    ((draftAfter scope statements (later + 1)).choices ≠ [] →
      ∃ option, InBodyOf statements option later) := by
  intro scope statements
  obtain ⟨final, read, rfl⟩ := exists_draft_of_compile compiled
  obtain ⟨statement, found, spoken⟩ := Option.map_eq_some_iff.mp ends.spoken
  have within : later + 1 ≤ statements.length := (List.getElem?_eq_some_iff.mp found).1
  refine ⟨exists_default_of_endsArm read adds ends, ?_, ?_⟩
  · intro place last
    rw [← takesUp_iff_of_endsArm read adds ends last, next_lineAt_eq_some_iff read last.plain]
    constructor
    · rintro ⟨other, takes, same⟩
      have spokenOther := (takes.spoken_later read last.plain.constructAt_eq).1
      exact lineAt_injective read spokenOther ends.spoken same ▸ takes
    · exact fun takes => ⟨later, takes, rfl⟩
  · intro someOpen
    obtain ⟨choice, member⟩ := List.exists_mem_of_ne_nil _ someOpen
    obtain ⟨option, before, isOption, -, inside⟩ := exists_option_of_open read within choice member
    have apart : option ≠ later := by
      rintro rfl
      have construct := isOption.constructAt_eq
      rw [ends.spoken] at construct
      cases construct
    have after : option < later := Nat.lt_of_le_of_ne (Nat.le_of_lt_succ before) apart
    exact ⟨option, isOption, after, fun between beyond upTo =>
      inside between beyond (Nat.lt_succ_of_le upTo)⟩

/-- A branch without an `(else)`. -/
def withoutElse : List String :=
  ["- D", "A: root", "(if 1 == 1)", "\tA: x", "A: end"]

/-- Outside of options, the default arm and the last line of the written arm both lead to the line
that ends the branch. -/
theorem rejoins_of_branch_without_else :
    let scope := scopeOf hostless .empty withoutElse
    let statements := statementsOf withoutElse
    let graph := compiledGraph hostless .empty withoutElse
    (∃ earlier relay, (graph.branch 0).arms = earlier ++ [⟨[], some relay⟩] ∧
      (graph.line relay).isRelay = true ∧
      (graph.line relay).next = some (lineAt scope statements 4)) ∧
    (graph.line (lineAt scope statements 3)).next = some (lineAt scope statements 4) := by
  intro scope statements graph
  have compiled : (compile hostless .empty withoutElse).graph = .ok graph := by
    apply compile_eq_ok_compiledGraph
    decide +kernel
  have adds : AddsArm scope statements 2 0 :=
    ⟨⟨3, 0, "(if 1 == 1)".toList, .ifArm⟩, "1 == 1".toList, by decide +kernel, by decide +kernel,
      Or.inl ⟨rfl, by decide +kernel⟩⟩
  have between : ∀ place, 2 < place → place < 4 → place = 3 := by omega
  have ends : EndsArm statements 2 4 := by
    constructor
    · decide +kernel
    · decide
    · intro place after before
      rw [between place after before]
      decide +kernel
    · decide +kernel
    · intro place after before
      rw [between place after before]
      decide +kernel
  have last : LastOfArm statements 2 3 4 := by
    constructor
    · exact ⟨⟨4, 1, "A: x".toList, .speech⟩, ⟨"A", "x", "neutral", none, 0⟩, by decide +kernel,
        rfl, by decide +kernel, rfl⟩
    · decide
    · decide
    · intro place after before
      exact absurd before (Nat.not_lt_of_le after)
  obtain ⟨default, leads_iff, _⟩ := rejoins_of_addsArm_of_compile compiled adds ends
  exact ⟨default, (leads_iff 3 last).mpr (by decide +kernel)⟩

/-- A branch without an `(else)` in the body of an option. -/
def withoutElseInBody : List String :=
  ["- D", "A: root", "> opt", "\tA: x", "\t(if 1 == 1)", "\t\tA: y", "\tA: z", "A: end"]

/-- In the body of an option, the last line of the written arm leads past the line that ends the
branch. -/
theorem not_rejoins_of_branch_in_body :
    let scope := scopeOf hostless .empty withoutElseInBody
    let statements := statementsOf withoutElseInBody
    let graph := compiledGraph hostless .empty withoutElseInBody
    (compile hostless .empty withoutElseInBody).graph = .ok graph ∧
      AddsArm scope statements 4 0 ∧ EndsArm statements 4 6 ∧ LastOfArm statements 4 5 6 ∧
      (graph.line (lineAt scope statements 5)).next = some (lineAt scope statements 7) ∧
      (graph.line (lineAt scope statements 5)).next ≠ some (lineAt scope statements 6) := by
  intro scope statements graph
  have compiled : (compile hostless .empty withoutElseInBody).graph = .ok graph := by
    apply compile_eq_ok_compiledGraph
    decide +kernel
  have adds : AddsArm scope statements 4 0 :=
    ⟨⟨5, 1, "(if 1 == 1)".toList, .ifArm⟩, "1 == 1".toList, by decide +kernel, by decide +kernel,
      Or.inl ⟨rfl, by decide +kernel⟩⟩
  have between : ∀ place, 4 < place → place < 6 → place = 5 := by omega
  have ends : EndsArm statements 4 6 := by
    constructor
    · decide +kernel
    · decide
    · intro place after before
      rw [between place after before]
      decide +kernel
    · decide +kernel
    · intro place after before
      rw [between place after before]
      decide +kernel
  have last : LastOfArm statements 4 5 6 := by
    constructor
    · exact ⟨⟨6, 2, "A: y".toList, .speech⟩, ⟨"A", "y", "neutral", none, 0⟩, by decide +kernel,
        rfl, by decide +kernel, rfl⟩
    · decide
    · decide
    · intro place after before
      exact absurd before (Nat.not_lt_of_le after)
  exact ⟨compiled, adds, ends, last, by decide +kernel, by decide +kernel⟩

end Parley
