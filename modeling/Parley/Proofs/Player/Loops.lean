import Parley.CommandLine.Player
import Parley.Proofs.Session.Started

/-!
# The loops of the player

The player goes round an outer loop, which presents what the session shows next, and inside it
round one of two inner loops, which ask for input until there is one that leads on.  Here the
loops are carried out one step at a time, and what can be watched of them is recorded.  A step
looks up nodes of the graph and the last of the choices that it offers; where one of them is
missing there is no step.

While the session is in a dialogue and the prompt suits it, there is a step until the loops have
ended, and it does what the stages of the player do.
-/

namespace Parley.CommandLine

open Parley.Text

/-! ## Steps -/

/-- What can be watched of the player. -/
inductive Action where
  /-- An output is presented. -/
  | present (output : Output)
  /-- A line of input is read. -/
  | read (line : Chars)
  /-- The choice at a place is made. -/
  | choose (index : Nat)
  /-- The dialogue is started again. -/
  | restart
  deriving DecidableEq

namespace Action

/-- The output that is presented. -/
def output? : Action → Option Output
  | present output => some output
  | read _ | choose _ | restart => none

/-- The line of input that is read. -/
def line? : Action → Option Chars
  | read line => some line
  | present _ | choose _ | restart => none

end Action

/-- Where the player is in its loops. -/
inductive Point where
  /-- At the start of the outer loop. -/
  | presenting (session : Session Transcript)
  /-- At the start of an inner loop. -/
  | asking (session : Session Transcript) (prompt : Prompt)
  /-- Behind all loops. -/
  | ended (stage : Stage)

/-- A point of the loops and the input that has not been read. -/
structure Config where
  point : Point
  input : List Chars

namespace Player

/-- The place of the last of some choices, if there is any. -/
def lastPlace? : Nat → Option Nat
  | 0 => none
  | count + 1 => some count

/-- Where the player goes with an output that it has presented. -/
def shown (session : Session Transcript) : Output → Point
  | .line view => .asking (printLine (printLine session "") (lineText view)) .advance
  | .choices view offers =>
      .asking
        (offers.foldl (fun session offer => printLine session (offerText offer))
          (printLine (printLine session "") (lineText view)))
        (.choose offers.length)
  | .finished => .ended (.stopped (printLine (printLine session "") "[END]") none)

/-- Present what comes next. -/
def present? (session : Session Transcript) : Option (List Action × Point) := do
  match ← session.next? with
  | (.error fault, after) => return ([], .ended (.stopped after (some fault)))
  | (.ok output, after) => return ([.present output], shown after output)

/-- Start the dialogue again. -/
def restart? (session : Session Transcript) : Option (List Action × Point) := do
  match ← session.restart? with
  | (.error fault, after) => return ([.restart], .ended (.stopped after (some fault)))
  | (.ok (), after) => return ([.restart], .presenting (printLine after "restarted"))

/-- Make the choice at a place. -/
def choose? (session : Session Transcript) (index : Nat) : Option (List Action × Point) := do
  match ← session.choose? index with
  | (.error fault, after) => return ([.choose index], .ended (.stopped after (some fault)))
  | (.ok (), after) => return ([.choose index], .presenting after)

/-- Go on with an input that is not meant for the player itself. -/
def proceed? (session : Session Transcript) (prompt : Prompt) (input : Chars) :
    Option (List Action × Point) :=
  match prompt with
  | .advance => some ([], .presenting session)
  | .choose count =>
      match (Number.readIndex? input).filter (· < count) with
      | some index => choose? session index
      | none => do
          let last ← lastPlace? count
          return ([], .asking (printLine session s!"choose 0-{last}") prompt)

/-- React to an input from which surrounding blanks have been removed. -/
def react? (session : Session Transcript) (prompt : Prompt) (input : Chars) :
    Option (List Action × Point) :=
  if input = ":help".toList then some ([], .asking (printLine session helpLine) prompt)
  else if input = ":vars".toList then
    some ([], .asking ((variableLines session.world.store).foldl printLine session) prompt)
  else if input = ":restart".toList then restart? session
  else if input = ":quit".toList then some ([], .ended (.stopped (printLine session "bye") none))
  else proceed? session prompt input

end Player

namespace Config

/-- Where the player begins with its input. -/
def opening (session : Session Transcript) (inputs : List Chars) : Config where
  point := .presenting
    (Player.printLine (Player.printLine session "Dialogue player") Player.helpLine)
  input := inputs

/-- One step of the loops, with what can be watched of it. -/
def step? : Config → Option (List Action × Config)
  | ⟨.presenting session, input⟩ => do
      let (actions, point) ← Player.present? session
      return (actions, ⟨point, input⟩)
  | ⟨.asking session prompt, []⟩ =>
      some ([], ⟨.ended (Player.await session prompt), []⟩)
  | ⟨.asking session prompt, line :: rest⟩ => do
      let (actions, point) ← Player.react? (Player.print session prompt.text) prompt (trim line)
      return (.read line :: actions, ⟨point, rest⟩)
  | ⟨.ended _, _⟩ => none

end Config

/-- Some steps of the loops, with all that can be watched of them in order. -/
inductive Run (first : Config) : Nat → List Action → Config → Prop
  | begin : Run first 0 [] first
  | step {steps : Nat} {actions more : List Action} {config next : Config}
      (run : Run first steps actions config) (stepped : config.step? = some (more, next)) :
      Run first (steps + 1) (actions ++ more) next

/-! ## Printing -/

/-- Something has been printed, and nothing else has happened to the session. -/
def Prints (before after : Session Transcript) : Prop :=
  ∃ text, after = Player.print before text

namespace Prints

variable {before middle after : Session Transcript}

theorem print (session : Session Transcript) (text : String) :
    Prints session (Player.print session text) :=
  ⟨text, rfl⟩

theorem printLine (session : Session Transcript) (text : String) :
    Prints session (Player.printLine session text) :=
  print session _

theorem trans (first : Prints before middle) (second : Prints middle after) :
    Prints before after := by
  obtain ⟨text, rfl⟩ := first
  obtain ⟨other, rfl⟩ := second
  exact ⟨text ++ other, by simp [Player.print, String.append_assoc]⟩

/-- Printing line after line is printing. -/
theorem foldl {α : Type} (wording : α → String) (items : List α) (session : Session Transcript) :
    Prints session
      (items.foldl (fun session item => Player.printLine session (wording item)) session) := by
  induction items generalizing session with
  | nil => exact ⟨"", by simp [Player.print]⟩
  | cons item rest ih => exact (printLine session (wording item)).trans (ih _)

variable (prints : Prints before after)

include prints

theorem pending? : after.pending? = before.pending? := by
  obtain ⟨text, rfl⟩ := prints
  rfl

theorem started (started : before.Started) : after.Started := by
  obtain ⟨text, rfl⟩ := prints
  exact started.withWorld _

end Prints

/-! ## What a step can do -/

/-- The session waits for what the player asks for. -/
def Prompt.Suits (session : Session Transcript) : Prompt → Prop
  | .advance => True
  | .choose count => ∃ offers, session.pending? = some offers ∧ offers.length = count

theorem Prompt.Suits.prints {before after : Session Transcript} {prompt : Prompt}
    (suits : prompt.Suits before) (prints : Prints before after) : prompt.Suits after := by
  cases prompt with
  | advance => trivial
  | choose count =>
      obtain ⟨offers, pending, same⟩ := suits
      exact ⟨offers, prints.pending?.trans pending, same⟩

/-- Where there is a choice to ask for, there is one at least. -/
theorem Prompt.Suits.ne_zero {session : Session Transcript} {count : Nat}
    (suits : (Prompt.choose count).Suits session) (started : session.Started) : count ≠ 0 := by
  obtain ⟨offers, pending, rfl⟩ := suits
  exact mt List.length_eq_zero_iff.mp (started.isMenu_of_pending pending).1

/-- An input that does not move the session: a question to the player, or where a choice is asked
for whatever is neither the place of one nor a restart. -/
def Prompt.Ignores (prompt : Prompt) (input : Chars) : Prop :=
  input = ":help".toList ∨ input = ":vars".toList ∨
    ∃ count, prompt = .choose count ∧ input ≠ ":restart".toList ∧
      ∀ index, Number.readIndex? input = some index → count ≤ index

/-- The ways in which the player reacts to an input. -/
inductive Reaction (session : Session Transcript) (prompt : Prompt) :
    List Action → Point → Prop
  | reply {after : Session Transcript} (prints : Prints session after) :
      Reaction session prompt [] (.asking after prompt)
  | quit {after : Session Transcript} (prints : Prints session after) :
      Reaction session prompt [] (.ended (.stopped after none))
  | advance (any : prompt = .advance) : Reaction session prompt [] (.presenting session)
  | choose {offers : List Offer} {index : Nat} {after : Session Transcript}
      (pending : session.pending? = some offers) (count : prompt = .choose offers.length)
      (within : index < offers.length) (made : session.choose index = (.ok (), after)) :
      Reaction session prompt [.choose index] (.presenting after)
  | failToChoose {offers : List Offer} {index : Nat} {fault : Fault} {after : Session Transcript}
      (pending : session.pending? = some offers) (count : prompt = .choose offers.length)
      (within : index < offers.length) (failed : session.choose index = (.error fault, after)) :
      Reaction session prompt [.choose index] (.ended (.stopped after (some fault)))
  | restart {before after : Session Transcript} (started : session.restart = (.ok (), before))
      (prints : Prints before after) : Reaction session prompt [.restart] (.presenting after)
  | failToRestart {fault : Fault} {after : Session Transcript}
      (failed : session.restart = (.error fault, after)) :
      Reaction session prompt [.restart] (.ended (.stopped after (some fault)))

/-- What a step of the loops can do. -/
inductive Goes : Config → List Action → Config → Prop
  | present {session after : Session Transcript} {output : Output} {input : List Chars}
      (shows : session.next = (.ok output, after)) :
      Goes ⟨.presenting session, input⟩ [.present output] ⟨Player.shown after output, input⟩
  | failToPresent {session after : Session Transcript} {fault : Fault} {input : List Chars}
      (failed : session.next = (.error fault, after)) :
      Goes ⟨.presenting session, input⟩ [] ⟨.ended (.stopped after (some fault)), input⟩
  | exhausted {session : Session Transcript} {prompt : Prompt} :
      Goes ⟨.asking session prompt, []⟩ [] ⟨.ended (Player.await session prompt), []⟩
  | react {session : Session Transcript} {prompt : Prompt} {line : Chars} {rest : List Chars}
      {actions : List Action} {point : Point}
      (reaction : Reaction (Player.print session prompt.text) prompt actions point) :
      Goes ⟨.asking session prompt, line :: rest⟩ (.read line :: actions) ⟨point, rest⟩

/-! ## What each step does -/

/-- The stage of the player that a point leads to without any further input. -/
def Point.stage : Point → Stage
  | presenting session => Player.showNext session
  | asking session prompt => Player.await session prompt
  | ended stage => stage

/-- An attempt to react to an input comes out in one of the ways in which the player reacts, and it
leads to this stage. -/
def Reacts (session : Session Transcript) (prompt : Prompt)
    (attempt : Option (List Action × Point)) (stage : Stage) : Prop :=
  ∃ actions point, attempt = some (actions, point) ∧ Reaction session prompt actions point ∧
    point.stage = stage

namespace Player

variable {session : Session Transcript} {prompt : Prompt}

section Shown

variable {after : Session Transcript} {output : Output} (shows : session.next = (.ok output, after))

include shows

theorem stage_shown : (shown after output).stage = showNext session := by
  cases output <;> simp only [showNext, shows] <;> rfl

/-- What is shown has been printed, and then the player asks for what the session waits for. -/
theorem exists_shown :
    (∃ later, Prints after later ∧ shown after output = .ended (.stopped later none)) ∨
      ∃ later prompt, Prints after later ∧ shown after output = .asking later prompt ∧
        ∀ count, prompt = .choose count → ∃ view offers, output = .choices view offers ∧
          count = offers.length ∧ later.pending? = some offers := by
  have lines : ∀ view, Prints after (printLine (printLine after "") (lineText view)) :=
    fun view => (Prints.printLine after "").trans (.printLine _ _)
  cases output with
  | line view =>
      refine Or.inr ⟨_, _, lines view, rfl, ?_⟩
      intro count same
      cases same
  | choices view offers =>
      have prints := (lines view).trans (.foldl offerText offers _)
      refine Or.inr ⟨_, _, prints, rfl, ?_⟩
      rintro count ⟨⟩
      exact ⟨view, offers, rfl, rfl, prints.pending?.trans (Session.pending?_of_next shows)⟩
  | finished => exact Or.inl ⟨_, (Prints.printLine after "").trans (.printLine _ _), rfl⟩

end Shown

theorem reacts_restart (started : session.Started) :
    Reacts session prompt (restart? session)
      (match session.restart with
        | (.error fault, after) => .stopped after (some fault)
        | (.ok (), after) => showNext (printLine after "restarted")) := by
  unfold restart?
  rw [started.restart.found]
  rcases outcome : session.restart with ⟨fault | _, after⟩
  · exact ⟨_, _, rfl, .failToRestart outcome, rfl⟩
  · exact ⟨_, _, rfl, .restart outcome (.printLine after _), rfl⟩

theorem reacts_choose (started : session.Started) {offers : List Offer} {index : Nat}
    (pending : session.pending? = some offers) (within : index < offers.length) :
    Reacts session (.choose offers.length) (choose? session index)
      (match session.choose index with
        | (.error fault, after) => .stopped after (some fault)
        | (.ok (), after) => showNext after) := by
  unfold choose?
  rw [(started.choose pending within).found]
  rcases outcome : session.choose index with ⟨fault | _, after⟩
  · exact ⟨_, _, rfl, .failToChoose pending rfl within outcome, rfl⟩
  · exact ⟨_, _, rfl, .choose pending rfl within outcome, rfl⟩

theorem reacts_proceed (started : session.Started) (suits : prompt.Suits session)
    (input : Chars) :
    Reacts session prompt (proceed? session prompt input) (proceed session prompt input) := by
  cases prompt with
  | advance => exact ⟨_, _, rfl, .advance rfl, rfl⟩
  | choose count =>
      obtain ⟨offers, pending, rfl⟩ := suits
      simp only [proceed?, proceed]
      rcases read : (Number.readIndex? input).filter (· < offers.length) with _ | index
      · obtain ⟨last, same⟩ := Nat.exists_eq_succ_of_ne_zero
          (Prompt.Suits.ne_zero ⟨offers, pending, rfl⟩ started)
        simp only [same, lastPlace?]
        exact ⟨_, _, rfl, .reply (.printLine session _), rfl⟩
      · have within : index < offers.length := by
          simpa using (Option.filter_eq_some_iff.mp read).2
        exact reacts_choose started pending within

/-- Where the session is in a dialogue and waits for what the player asks for, the player reacts to
every input. -/
theorem reacts_react (started : session.Started) (suits : prompt.Suits session) (input : Chars) :
    Reacts session prompt (react? session prompt input) (react session prompt input) := by
  unfold react? react
  split
  · exact ⟨_, _, rfl, .reply (.printLine session _), rfl⟩
  · split
    · exact ⟨_, _, rfl, .reply (.foldl id _ session), rfl⟩
    · split
      · exact reacts_restart started
      · split
        · exact ⟨_, _, rfl, .quit (.printLine session _), rfl⟩
        · exact reacts_proceed started suits input

/-- To an input that does not move the session, the player only prints something, and it asks
again unless it is told to quit. -/
theorem react?_of_ignores (started : session.Started) (suits : prompt.Suits session)
    {input : Chars} (ignores : prompt.Ignores input) :
    ∃ later point, react? session prompt input = some ([], point) ∧ Prints session later ∧
      (point = .asking later prompt ∨
        (input = ":quit".toList ∧ point = .ended (.stopped later none))) := by
  unfold react?
  split
  · exact ⟨_, _, rfl, .printLine session _, Or.inl rfl⟩
  · rename_i noHelp
    split
    · exact ⟨_, _, rfl, .foldl id _ session, Or.inl rfl⟩
    · rename_i noVars
      obtain ⟨count, rfl, noRestart, outside⟩ : ∃ count, prompt = .choose count ∧
          input ≠ ":restart".toList ∧ ∀ index, Number.readIndex? input = some index →
            count ≤ index :=
        (ignores.resolve_left noHelp).resolve_left noVars
      rw [if_neg noRestart]
      split
      · rename_i quit
        exact ⟨_, _, rfl, .printLine session _, Or.inr ⟨quit, rfl⟩⟩
      · have unread : (Number.readIndex? input).filter (· < count) = none := by
          rw [Option.filter_eq_none_iff]
          intro index read
          simpa using outside index read
        obtain ⟨last, rfl⟩ := Nat.exists_eq_succ_of_ne_zero (suits.ne_zero started)
        simp only [proceed?, unread, lastPlace?]
        exact ⟨_, _, rfl, .printLine session _, Or.inl rfl⟩

end Player

/-! ## Where the loops can be -/

/-- A point at which the player can be: the session is in a dialogue and waits for what the player
asks for, and what has ended the loops is no misuse of it. -/
def Point.IsSound : Point → Prop
  | presenting session => session.Started
  | asking session prompt => session.Started ∧ prompt.Suits session
  | ended stage => ∀ fault, stage.fault? = some fault → fault.IsOfWalk

theorem Reaction.isSound {session : Session Transcript} {prompt : Prompt} {actions : List Action}
    {point : Point} (reaction : Reaction session prompt actions point)
    (started : session.Started) (suits : prompt.Suits session) : point.IsSound := by
  cases reaction with
  | reply prints => exact ⟨prints.started started, suits.prints prints⟩
  | quit prints => exact fun fault same => nomatch same
  | advance any => exact started
  | choose pending count within made =>
      have continues := started.choose pending within
      rw [made] at continues
      exact continues.started
  | failToChoose pending count within failed =>
      have continues := started.choose pending within
      rw [failed] at continues
      rintro fault ⟨⟩
      exact continues.fails _ rfl
  | restart again prints =>
      have continues := started.restart
      rw [again] at continues
      exact prints.started continues.started
  | failToRestart failed =>
      have continues := started.restart
      rw [failed] at continues
      rintro fault ⟨⟩
      exact continues.fails _ rfl

namespace Config

/-- The stage in which the player is with all of its input. -/
def outcome : Config → Stage
  | ⟨.ended stage, _⟩ => stage
  | ⟨.presenting session, input⟩ => input.foldl Stage.receive (Player.showNext session)
  | ⟨.asking session prompt, input⟩ => input.foldl Stage.receive (Player.await session prompt)

variable {config next : Config} {actions : List Action}

theorem foldl_receive_stopped (session : Session Transcript) (fault : Option Fault)
    (input : List Chars) :
    input.foldl Stage.receive (.stopped session fault) = .stopped session fault := by
  induction input with
  | nil => rfl
  | cons line rest ih => exact ih

/-- A player that has stopped has done so with any input. -/
theorem outcome_eq_foldl (point : Point) (input : List Chars)
    (stopped : ∀ stage, point = .ended stage → stage.isWaiting = false) :
    outcome ⟨point, input⟩ = input.foldl Stage.receive point.stage := by
  cases point with
  | presenting session => rfl
  | asking session prompt => rfl
  | ended stage =>
      cases stage with
      | waiting session prompt => cases stopped _ rfl
      | stopped session fault => exact (foldl_receive_stopped session fault input).symm

/-- Until the loops have ended there is a step, and it does what the stages of the player do. -/
theorem exists_goes (sound : config.point.IsSound) :
    (∃ stage, config.point = .ended stage) ∨
      ∃ actions next, config.step? = some (actions, next) ∧ Goes config actions next ∧
        next.outcome = config.outcome := by
  obtain ⟨session | ⟨session, prompt⟩ | stage, input⟩ := config
  · right
    have found := Session.Started.next sound |>.found
    rcases shows : session.next with ⟨fault | output, after⟩ <;> rw [shows] at found
    · refine ⟨_, _, ?_, .failToPresent shows, ?_⟩
      · simp only [step?, Player.present?, found]
        rfl
      · simp only [outcome, Player.showNext, shows, foldl_receive_stopped]
    · refine ⟨_, _, ?_, .present shows, ?_⟩
      · simp only [step?, Player.present?, found]
        rfl
      · rw [outcome_eq_foldl, Player.stage_shown shows]
        · rfl
        · intro stage ended
          cases output <;> cases ended
          rfl
  · right
    obtain ⟨started, suits⟩ := sound
    rcases input with _ | ⟨line, rest⟩
    · exact ⟨_, _, rfl, .exhausted, rfl⟩
    · have asked := Prints.print session prompt.text
      obtain ⟨actions, point, found, reaction, stage⟩ :=
        Player.reacts_react (asked.started started) (suits.prints asked) (trim line)
      refine ⟨_, _, ?_, .react reaction, ?_⟩
      · simp only [step?, found]
        rfl
      · rw [outcome_eq_foldl, stage]
        · rfl
        · intro stage ended
          cases reaction <;> cases ended <;> rfl
  · exact Or.inl ⟨stage, rfl⟩

/-- There is at most one step. -/
theorem goes_of_step? (sound : config.point.IsSound)
    (stepped : config.step? = some (actions, next)) :
    Goes config actions next ∧ next.outcome = config.outcome := by
  rcases exists_goes sound with ⟨stage, ended⟩ | ⟨others, other, found, goes, same⟩
  · obtain ⟨point, input⟩ := config
    cases ended
    cases stepped
  · cases found.symm.trans stepped
    exact ⟨goes, same⟩

end Config

/-- Wherever a step leads, the player can be there. -/
theorem Goes.isSound {config next : Config} {actions : List Action}
    (goes : Goes config actions next) (sound : config.point.IsSound) : next.point.IsSound := by
  cases goes with
  | present shows =>
      have continues := Session.Started.next sound
      rw [shows] at continues
      rcases Player.exists_shown shows with
        ⟨later, -, same⟩ | ⟨later, prompt, prints, same, waits⟩ <;> rw [same]
      · exact fun fault stops => nomatch stops
      · refine ⟨prints.started continues.started, ?_⟩
        cases prompt with
        | advance => trivial
        | choose count =>
            obtain ⟨view, offers, -, rfl, pending⟩ := waits count rfl
            exact ⟨offers, pending, rfl⟩
  | failToPresent failed =>
      have continues := Session.Started.next sound
      rw [failed] at continues
      rintro fault ⟨⟩
      exact continues.fails _ rfl
  | exhausted => exact fun fault stops => nomatch stops
  | @react session prompt _ _ _ _ reaction =>
      have asked := Prints.print session prompt.text
      exact reaction.isSound (asked.started sound.1) (sound.2.prints asked)

end Parley.CommandLine
