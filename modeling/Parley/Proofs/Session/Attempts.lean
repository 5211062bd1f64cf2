import Parley.Proofs.Compilation.Sound
import Parley.Proofs.Session.Effects

/-!
# How often the commands of a line run

A session comes to a line and runs its commands when it is asked for more.  Once all of them
have completed they do not run again before the session comes to a line again, even if showing
the line fails and is tried again.  But where one of them fails, the next attempt begins with
the first, so those before it complete a second time.
-/

namespace Parley

/-- What a session does with the commands of lines. -/
inductive Event where
  /-- It comes to a line. -/
  | arrives (line : LineIndex)
  /-- It runs the commands of a line, of which the first so many complete. -/
  | attempts (line : LineIndex) (completed : Nat)
  deriving DecidableEq

namespace Event

/-- Whether a session comes to a line. -/
def isArrival : Event → Bool
  | arrives _ => true
  | attempts _ _ => false

/-- How many commands complete. -/
def completed : Event → Nat
  | arrives _ => 0
  | attempts _ count => count

end Event

/-- How often the command at a place of a line's commands completes. -/
def completions (place : Nat) (events : List Event) : Nat :=
  events.countP fun event => place < event.completed

/-- The line whose commands are still to run. -/
def Position.due? : Position → Option LineIndex
  | .reached line => some line
  | _ => none

namespace Session

variable {σ : Type}

/-- The line to which a start or a choice leads, if it succeeds. -/
def arrivedAt : Except Fault Unit × Session σ → Option LineIndex
  | (.ok (), after) => after.position.line?
  | (.error _, _) => none

/-- The line to which a move comes, if it comes to one. -/
def arrival? (session : Session σ) : Move σ → Option LineIndex
  | .operate (.start title) => arrivedAt (session.start title)
  | .operate .restart => arrivedAt session.restart
  | .operate (.choose index) => arrivedAt (session.choose index)
  | .operate .next =>
      match session.position with
      | .shown _ => session.running?.map Prod.fst
      | _ => none
  | _ => none

/-- How far a move gets with the commands of a line, if it runs any. -/
def attempt? (session : Session σ) : Move σ → Option Event
  | .operate .next => session.running?.map fun (id, world) =>
      .attempts id (session.registry.completed (session.graph.line id).commands world).length
  | _ => none

/-- What happens in a move. -/
def events (session : Session σ) (move : Move σ) : List Event :=
  ((session.arrival? move).map .arrives).toList ++ (session.attempt? move).toList

/-- What happens in some moves, in order. -/
def history (session : Session σ) : List (Move σ) → List Event
  | [] => []
  | move :: rest => session.events move ++ (session.move move).history rest

/-- What happens in some moves from an arrival at a line on, up to the next arrival at most. -/
def StaysAt (session : Session σ) (moves : List (Move σ)) (line : LineIndex)
    (stay : List Event) : Prop :=
  (∃ before after, session.history moves = before ++ .arrives line :: (stay ++ after)) ∧
    ∀ event ∈ stay, event.isArrival = false

/-- Until a session leaves a line, none of the line's commands completes twice. -/
def RunsOnce (session : Session σ) (moves : List (Move σ)) : Prop :=
  ∀ line stay, session.StaysAt moves line stay → ∀ place, completions place stay ≤ 1

end Session

/-! ## The course of a history -/

/-- In a history that begins while the commands of `due` are still to run, commands run only at
the line that was reached last, and only until they have all completed. -/
def IsHistory (length : LineIndex → Nat) : Option LineIndex → List Event → Prop
  | _, [] => True
  | _, .arrives line :: rest => IsHistory length (some line) rest
  | due, .attempts line count :: rest =>
      due = some line ∧ ((count < length line ∧ IsHistory length (some line) rest) ∨
        (count = length line ∧ IsHistory length none rest))

/-- The attempts during a stay at a line that has `length` commands: they are all for its
commands, and when these have completed no more is made. -/
structure IsStay (line : LineIndex) (length : Nat) (stay : List Event) : Prop where
  attempts : ∀ event ∈ stay, ∃ count ≤ length, event = .attempts line count
  last : ∀ earlier later, stay = earlier ++ .attempts line length :: later → later = []

variable {length : LineIndex → Nat} {due : Option LineIndex} {line : LineIndex}

/-- If no commands are to run, none need to be. -/
theorem IsHistory.of_none {rest : List Event} (history : IsHistory length none rest) :
    IsHistory length due rest := by
  rcases rest with _ | ⟨_ | _, rest⟩
  · exact True.intro
  · exact history
  · cases history.1

/-- What follows in a history is a history. -/
theorem IsHistory.exists_due_of_append {before rest : List Event}
    (history : IsHistory length due (before ++ rest)) : ∃ due, IsHistory length due rest := by
  induction before generalizing due with
  | nil => exact ⟨due, history⟩
  | cons event before ih =>
      cases event with
      | arrives line => exact ih history
      | attempts line count =>
          rcases history.2 with ⟨-, others⟩ | ⟨-, others⟩
          · exact ih others
          · exact ih others

/-- From the arrival at a line to the next arrival, a history is a stay. -/
theorem IsHistory.isStay {stay after : List Event}
    (history : IsHistory length (some line) (stay ++ after))
    (stays : ∀ event ∈ stay, event.isArrival = false) : IsStay line (length line) stay := by
  induction stay with
  | nil => exact ⟨by simp, by simp⟩
  | cons event stay ih =>
      cases event with
      | arrives other => cases stays _ List.mem_cons_self
      | attempts other count =>
          obtain ⟨same, course⟩ := history
          cases same
          rcases course with ⟨some, others⟩ | ⟨all, others⟩
          · -- An attempt that was cut short may be followed by others.
            have rest := ih others fun event member => stays event (List.mem_cons_of_mem _ member)
            constructor
            · intro event member
              rcases List.mem_cons.mp member with rfl | member
              · exact ⟨count, Nat.le_of_lt some, rfl⟩
              · exact rest.attempts event member
            · intro earlier later split
              rcases earlier with _ | ⟨first, earlier⟩
              · cases split
                exact absurd some (Nat.lt_irrefl _)
              · exact rest.last earlier later (List.cons.inj split).2
          · -- Nothing is due any more, so the stay is over.
            have done : stay = [] := by
              rcases stay with _ | ⟨_ | _, stay⟩
              · rfl
              · cases stays _ (List.mem_cons_of_mem _ List.mem_cons_self)
              · cases others.1
            subst done
            constructor
            · intro event member
              rw [List.mem_singleton.mp member]
              exact ⟨count, Nat.le_of_eq all, rfl⟩
            · intro earlier later split
              rcases earlier with _ | ⟨first, earlier⟩
              · exact (List.cons.inj split).2.symm
              · simp at split

@[simp]
theorem completions_append (place : Nat) (first second : List Event) :
    completions place (first ++ second) = completions place first + completions place second :=
  List.countP_append

@[simp]
theorem completions_attempts (place : Nat) (line : LineIndex) (count : Nat) (rest : List Event) :
    completions place (.attempts line count :: rest) =
      completions place rest + if place < count then 1 else 0 := by
  by_cases more : place < count
  · rw [if_pos more]
    exact List.countP_cons_of_pos (decide_eq_true more)
  · rw [if_neg more]
    exact List.countP_cons_of_neg fun completes => more (of_decide_eq_true completes)

/-- A later command completes no more often than the first. -/
theorem completions_le_completions_zero (place : Nat) (events : List Event) :
    completions place events ≤ completions 0 events := by
  apply List.countP_mono_left
  intro event _ completes
  simp only [decide_eq_true_eq] at completes ⊢
  omega

theorem completions_eq_zero {place : Nat} {events : List Event}
    (none : ∀ event ∈ events, event.completed = 0) : completions place events = 0 := by
  apply List.countP_eq_zero.mpr
  intro event member
  simp [none event member]

/-- In a stay the first command completes once at most if, after an attempt that was cut short
once it had completed, it does not complete again. -/
theorem IsStay.completions_zero_le_one {size : Nat} {stay : List Event}
    (isStay : IsStay line size stay)
    (cut : ∀ earlier count later, stay = earlier ++ .attempts line count :: later → 0 < count →
      count < size → ∀ event ∈ later, event.completed = 0) : completions 0 stay ≤ 1 := by
  induction stay with
  | nil => exact Nat.zero_le 1
  | cons event stay ih =>
      obtain ⟨count, within, rfl⟩ := isStay.attempts event List.mem_cons_self
      rcases Nat.eq_zero_or_pos count with rfl | some
      · have rest : IsStay line size stay :=
          ⟨fun other member => isStay.attempts other (List.mem_cons_of_mem _ member),
            fun earlier later split =>
              isStay.last (.attempts line 0 :: earlier) later (congrArg _ split)⟩
        have others := ih rest fun earlier other later split =>
          cut (.attempts line 0 :: earlier) other later (congrArg _ split)
        rw [completions_attempts]
        exact others
      · -- Whether or not the attempt was cut short, nothing completes after it.
        have silent : ∀ other ∈ stay, other.completed = 0 := by
          rcases Nat.lt_or_eq_of_le within with short | rfl
          · exact cut [] count stay rfl some short
          · rw [isStay.last [] stay rfl]
            exact fun _ member => by cases member
        have once : completions 0 (.attempts line count :: stay) = 1 := by
          rw [completions_attempts, if_pos some, completions_eq_zero silent]
        exact Nat.le_of_eq once

/-- In a stay no command completes twice exactly if, after an attempt that was cut short once a
command had completed, none completes again. -/
theorem IsStay.completions_le_one_iff {size : Nat} {stay : List Event}
    (isStay : IsStay line size stay) :
    (∀ place, completions place stay ≤ 1) ↔
      ∀ earlier count later, stay = earlier ++ .attempts line count :: later → 0 < count →
        count < size → ∀ event ∈ later, event.completed = 0 := by
  constructor
  · rintro once earlier count later rfl some - event member
    by_cases none : event.completed = 0
    · exact none
    · -- The first command completes in both attempts.
      have again : 0 < completions 0 later :=
        List.countP_pos_iff.mpr ⟨event, member, by simpa using Nat.pos_of_ne_zero none⟩
      have both := once 0
      rw [completions_append, completions_attempts, if_pos some] at both
      omega
  · exact fun cut place =>
      Nat.le_trans (completions_le_completions_zero place stay) (isStay.completions_zero_le_one cut)

/-! ## Histories of sessions -/

namespace Session

variable {σ : Type} {session : Session σ} {id : LineIndex}

theorem due?_present (session : Session σ) (none : session.position.due? = none) :
    (session.present id).2.position.due? = .none := by
  unfold present
  dsimp only
  split
  · exact none
  · split
    · exact none
    · split
      · rfl
      · split
        · exact none
        · rfl

/-- Running the commands of a line either gets through all of them, and then they are not due
any more, or it does not, and then they still are. -/
theorem due?_arrive (session : Session σ) (placed : session.position = .reached id) :
    ((session.registry.completed (session.graph.line id).commands session.world).length <
        (session.graph.line id).commands.length ∧
      (session.arrive id).2.position.due? = some id) ∨
    ((session.registry.completed (session.graph.line id).commands session.world).length =
        (session.graph.line id).commands.length ∧
      (session.arrive id).2.position.due? = none) := by
  unfold arrive
  split
  · rename_i ran
    exact Or.inl ⟨Registry.length_completed_lt_of_runAll ran, congrArg Position.due? placed⟩
  · rename_i world ran
    refine Or.inr ⟨congrArg List.length (Registry.completed_eq_of_runAll ran), ?_⟩
    exact due?_present { session with world := world, position := .ready id } rfl

/-- What is started or chosen leads to a line, or to the end, or it fails and the position stays. -/
structure Leads (session : Session σ) (result : Except Fault Unit × Session σ) : Prop where
  failed : ∀ fault, result.1 = .error fault → result.2.position = session.position
  walked : result.1 = .ok () → ∃ place, result.2.position = Position.ofWalk place

theorem Leads.of_error {fault : Fault} {after : Session σ}
    (stays : after.position = session.position) : session.Leads (.error fault, after) where
  failed _ _ := stays
  walked done := by cases done

theorem Leads.of_walk {after : Session σ} {place : Option LineIndex}
    (walked : after.position = .ofWalk place) : session.Leads (.ok (), after) where
  failed _ failed := by cases failed
  walked _ := ⟨place, walked⟩

theorem leads_start (session : Session σ) (title : String) :
    session.Leads (session.start title) := by
  simp only [start]
  split
  · exact .of_error rfl
  · split
    · exact .of_error rfl
    · exact .of_walk rfl

theorem leads_restart (session : Session σ) : session.Leads session.restart := by
  unfold restart
  split
  · exact session.leads_start _
  · exact .of_error rfl

theorem leads_choose (session : Session σ) (index : Nat) :
    session.Leads (session.choose index) := by
  simp only [choose]
  split
  · exact .of_error rfl
  · split
    · exact .of_error rfl
    · split
      · exact .of_error rfl
      · exact .of_walk rfl

theorem Leads.isHistory {result : Except Fault Unit × Session σ} (leads : session.Leads result)
    {rest : List Event} (others : IsHistory length result.2.position.due? rest) :
    IsHistory length session.position.due? (((arrivedAt result).map .arrives).toList ++ rest) := by
  rcases result with ⟨fault | _, after⟩
  · rw [← leads.failed fault rfl]
    exact others
  · obtain ⟨place, placed⟩ := leads.walked rfl
    dsimp only at placed others
    rw [arrivedAt, placed]
    rw [placed] at others
    cases place with
    | none => exact others.of_none
    | some line => exact others

/-- The history goes on from a line whose commands are run. -/
theorem isHistory_arrive (session : Session σ) (placed : session.position = .reached id)
    {rest : List Event}
    (others : IsHistory (fun id => (session.graph.line id).commands.length)
      (session.arrive id).2.position.due? rest) :
    IsHistory (fun id => (session.graph.line id).commands.length) (some id)
      (.attempts id (session.registry.completed (session.graph.line id).commands
        session.world).length :: rest) := by
  refine ⟨rfl, ?_⟩
  rcases session.due?_arrive placed with ⟨some, due⟩ | ⟨all, due⟩ <;> rw [due] at others
  · exact Or.inl ⟨some, others⟩
  · exact Or.inr ⟨all, others⟩

/-- The history goes on when the session is asked for more. -/
theorem isHistory_next (session : Session σ) {rest : List Event}
    (others : IsHistory (fun id => (session.graph.line id).commands.length)
      session.next.2.position.due? rest) :
    IsHistory (fun id => (session.graph.line id).commands.length) session.position.due?
      (session.events (.operate .next) ++ rest) := by
  unfold events arrival? attempt? running?
  unfold next at others
  split at others <;> rename_i placed <;> simp only [placed] at others ⊢
  · exact others
  · exact others
  · exact others
  · rename_i id
    unfold leave at others
    split at others <;> rename_i ran <;> simp only [ran]
    · rw [placed] at others
      exact others
    · exact others
    · rename_i next world
      exact isHistory_arrive { session with world := world, position := .reached next } rfl others
  · exact session.isHistory_arrive placed others
  · rw [due?_present session (congrArg Position.due? placed)] at others
    exact others

/-- A move continues the history of the session that it leaves. -/
theorem isHistory_events (session : Session σ) (move : Move σ) {rest : List Event}
    (others : IsHistory (fun id => (session.graph.line id).commands.length)
      (session.move move).position.due? rest) :
    IsHistory (fun id => (session.graph.line id).commands.length) session.position.due?
      (session.events move ++ rest) := by
  rcases move with (title | _ | index | _ | _ | ⟨name, value⟩) | ⟨registry, world⟩
  · show IsHistory _ _ (((arrivedAt (session.start title)).map .arrives).toList ++ [] ++ rest)
    rw [List.append_nil]
    exact (session.leads_start title).isHistory others
  · exact session.isHistory_next others
  · show IsHistory _ _ (((arrivedAt (session.choose index)).map .arrives).toList ++ [] ++ rest)
    rw [List.append_nil]
    exact (session.leads_choose index).isHistory others
  · show IsHistory _ _ (((arrivedAt session.restart).map .arrives).toList ++ [] ++ rest)
    rw [List.append_nil]
    exact session.leads_restart.isHistory others
  · exact others.of_none
  · exact others
  · exact others

/-- Every run of a session has such a history. -/
theorem isHistory_history (session : Session σ) (moves : List (Move σ)) :
    IsHistory (fun id => (session.graph.line id).commands.length) session.position.due?
      (session.history moves) := by
  induction moves generalizing session with
  | nil => exact True.intro
  | cons move rest ih =>
      have others := ih (session.move move)
      have same : ∀ id, (session.move move).graph.line id = session.graph.line id :=
        (session.remembers_move move).line
      simp only [same] at others
      exact session.isHistory_events move others

theorem StaysAt.isStay {moves : List (Move σ)} {line : LineIndex} {stay : List Event}
    (stays : session.StaysAt moves line stay) :
    IsStay line (session.graph.line line).commands.length stay := by
  obtain ⟨⟨before, after, split⟩, quiet⟩ := stays
  have history := session.isHistory_history moves
  rw [split] at history
  obtain ⟨due, arrived⟩ := history.exists_due_of_append
  have later : IsHistory (fun id => (session.graph.line id).commands.length) (some line)
      (stay ++ after) := arrived
  exact later.isStay quiet

/-- While a session stays at a line, it runs commands of that line only, and once all of them
have completed it runs them no more.  None of them completes twice exactly if, after an attempt
that was cut short once a command had completed, none completes again. -/
theorem runsOnce_iff (session : Session σ) (moves : List (Move σ)) :
    (∀ line stay, session.StaysAt moves line stay →
      IsStay line (session.graph.line line).commands.length stay) ∧
    (session.RunsOnce moves ↔
      ∀ line stay, session.StaysAt moves line stay →
        ∀ earlier count later, stay = earlier ++ .attempts line count :: later → 0 < count →
          count < (session.graph.line line).commands.length →
            ∀ event ∈ later, event.completed = 0) := by
  refine ⟨fun line stay stays => stays.isStay, ?_⟩
  constructor
  · exact fun once line stay stays =>
      stays.isStay.completions_le_one_iff.mp (once line stay stays)
  · exact fun cut line stay stays =>
      stays.isStay.completions_le_one_iff.mpr (cut line stay stays)

end Session

/-! ## Two lines with commands -/

/-- Commands of a host that counts how often it ticks, and one that fails. -/
def tickingRegistry : Registry Nat :=
  (Registry.builtin.register "Tick" [] none fun _ ticks => (.ok none, ticks + 1)).register
    "Break" [] none fun _ ticks => (.error "no", ticks)

/-- The same commands, of which none fails. -/
def repairedRegistry : Registry Nat :=
  tickingRegistry.register "Break" [] none fun _ ticks => (.ok none, ticks)

/-- Where a text cannot be shown at first, the commands before it run once. -/
theorem runsOnce_of_missing_name :
    let graph := compiledGraph tickingRegistry .empty ["- D", "A: hi \x7b$name\x7d (Tick(); Tick())"]
    let session := Session.ofGraph graph tickingRegistry ⟨.empty, 0⟩
    let moves : List (Move Nat) := [.operate (.start "D"), .operate .next, .operate .next,
      .operate (.set "name" (.text "B")), .operate .next]
    session.RunsOnce moves ∧ session.history moves = [.arrives 0, .attempts 0 2] ∧
      (session.afterMoves moves).world.host = 2 := by
  intro graph session moves
  have played : session.history moves = [.arrives 0, .attempts 0 2] := by
    decide +kernel
  refine ⟨?_, played, by decide +kernel⟩
  apply (session.runsOnce_iff moves).2.mpr
  -- There is one attempt only, so none comes after it.
  rintro line stay ⟨⟨before, after, split⟩, -⟩ earlier count later rfl - - event member
  have lengths := congrArg List.length (played.symm.trans split)
  simp only [List.length_append, List.length_cons, List.length_nil] at lengths
  have some := List.length_pos_of_mem member
  omega

/-- Where the second of two commands fails, the first runs again. -/
theorem not_runsOnce_of_failing_command :
    let graph := compiledGraph tickingRegistry .empty ["- D", "A: hi (Tick(); Break())"]
    let session := Session.ofGraph graph tickingRegistry ⟨.empty, 0⟩
    let moves : List (Move Nat) := [.operate (.start "D"), .operate .next,
      .update repairedRegistry ⟨.empty, 1⟩, .operate .next]
    session.history moves = [.arrives 0, .attempts 0 1, .attempts 0 2] ∧
      (session.afterMoves moves).world.host = 2 ∧ ¬ session.RunsOnce moves := by
  intro graph session moves
  have played : session.history moves = [.arrives 0, .attempts 0 1, .attempts 0 2] := by
    decide +kernel
  refine ⟨played, by decide +kernel, fun once => ?_⟩
  have stays : session.StaysAt moves 0 [.attempts 0 1, .attempts 0 2] :=
    ⟨⟨[], [], played⟩, by decide⟩
  exact absurd (once 0 _ stays 0) (by decide)

end Parley
