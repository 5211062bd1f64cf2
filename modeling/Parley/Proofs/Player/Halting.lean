import Parley.Proofs.Compilation.Integrity
import Parley.Proofs.Player.Loops

/-!
# The player halts

Every second step of the loops reads a line of input, or it is the last, so the loops end however
often a dialogue comes back to its lines and however often it is started again.  What is presented
is at most one output more than lines are read.  Between the presentation of some choices and the
choice of one, nothing happens but input that is read, so the place that is chosen is one of those
that have just been shown, and the session never objects.
-/

namespace Parley.CommandLine

open Parley.Text

/-! ## What runs keep -/

variable {first config : Config} {steps : Nat} {actions more : List Action}

/-- Wherever the player begins, it stays where it can be. -/
theorem Run.isSound (run : Run first steps actions config) (sound : first.point.IsSound) :
    config.point.IsSound := by
  induction run with
  | begin => exact sound
  | step run stepped ih => exact (Config.goes_of_step? ih stepped).1.isSound ih

/-- The loops do what the stages of the player do. -/
theorem Run.outcome (run : Run first steps actions config) (sound : first.point.IsSound) :
    config.outcome = first.outcome := by
  induction run with
  | begin => rfl
  | step run stepped ih => exact (Config.goes_of_step? (run.isSound sound) stepped).2.trans ih

/-- What every step keeps, every run keeps. -/
theorem Run.preserves (property : Nat → List Action → Config → Prop)
    (run : Run first steps actions config) (sound : first.point.IsSound)
    (begins : property 0 [] first)
    (goes : ∀ {steps actions more config next}, config.point.IsSound → Goes config more next →
      property steps actions config → property (steps + 1) (actions ++ more) next) :
    property steps actions config := by
  induction run with
  | begin => exact begins
  | step run stepped ih =>
      have sound := run.isSound sound
      exact goes sound (Config.goes_of_step? sound stepped).1 ih

/-! ## Counting -/

/-- The lines of input that are read, in order. -/
def linesOf (actions : List Action) : List Chars :=
  actions.filterMap Action.line?

/-- The outputs that are presented, in order. -/
def outputsOf (actions : List Action) : List Output :=
  actions.filterMap Action.output?

/-- How many outputs more than lines may have been dealt with at a point. -/
def Point.outputsAhead : Point → Nat
  | presenting _ => 0
  | asking _ _ | ended _ => 1

/-- How many steps more than two for each line may have been made at a point. -/
def Point.stepsAhead : Point → Nat
  | presenting _ => 0
  | asking _ _ => 1
  | ended _ => 2

theorem Point.ahead_le (point : Point) : point.outputsAhead ≤ 1 ∧ point.stepsAhead ≤ 2 := by
  cases point <;> simp [outputsAhead, stepsAhead]

/-- The lines that have been read, the outputs and the steps are in proportion. -/
structure Config.IsPaced (inputs : List Chars) (steps : Nat) (actions : List Action)
    (config : Config) : Prop where
  reads : linesOf actions ++ config.input = inputs
  outputs : (outputsOf actions).length ≤ (linesOf actions).length + config.point.outputsAhead
  steps : steps ≤ 2 * (linesOf actions).length + config.point.stepsAhead

theorem Player.ahead_shown (session : Session Transcript) (output : Output) :
    (shown session output).outputsAhead = 1 ∧ 1 ≤ (shown session output).stepsAhead := by
  cases output with
  | line view => exact ⟨rfl, Nat.le_refl 1⟩
  | choices view offers => exact ⟨rfl, Nat.le_refl 1⟩
  | finished => exact ⟨rfl, Nat.le_succ 1⟩

/-- Reacting to a line neither reads another nor presents anything. -/
theorem Reaction.silent {session : Session Transcript} {prompt : Prompt} {point : Point}
    (reaction : Reaction session prompt actions point) :
    linesOf actions = [] ∧ outputsOf actions = [] := by
  cases reaction <;> exact ⟨rfl, rfl⟩

/-- What a step reads is taken from the input.  What else it does is made up for by the lines that
it reads and by where it leads. -/
theorem Goes.balance {next : Config} (goes : Goes config more next) :
    config.input = linesOf more ++ next.input ∧
      (outputsOf more).length + config.point.outputsAhead ≤
        (linesOf more).length + next.point.outputsAhead ∧
      1 + config.point.stepsAhead ≤ 2 * (linesOf more).length + next.point.stepsAhead := by
  cases goes with
  | @present session after output input shows =>
      obtain ⟨one, some⟩ := Player.ahead_shown after output
      refine ⟨rfl, ?_, ?_⟩
      · show 1 + 0 ≤ 0 + (Player.shown after output).outputsAhead
        omega
      · show 1 + 0 ≤ 2 * 0 + (Player.shown after output).stepsAhead
        omega
  | failToPresent failed => exact ⟨rfl, Nat.zero_le _, Nat.le_succ 1⟩
  | exhausted => exact ⟨rfl, Nat.le_refl 1, Nat.le_refl 2⟩
  | @react session prompt line rest reacted point reaction =>
      obtain ⟨unread, unshown⟩ := reaction.silent
      have single : linesOf (.read line :: reacted) = [line] := congrArg (line :: ·) unread
      have none : outputsOf (.read line :: reacted) = [] := unshown
      rw [single, none]
      refine ⟨rfl, ?_, ?_⟩
      · show 0 + 1 ≤ 1 + point.outputsAhead
        omega
      · show 1 + 1 ≤ 2 * 1 + point.stepsAhead
        omega

theorem Goes.isPaced {inputs : List Chars} {next : Config} (goes : Goes config more next)
    (paced : config.IsPaced inputs steps actions) :
    next.IsPaced inputs (steps + 1) (actions ++ more) := by
  obtain ⟨input, presents, moves⟩ := goes.balance
  have lines : linesOf (actions ++ more) = linesOf actions ++ linesOf more :=
    List.filterMap_append
  have shown : outputsOf (actions ++ more) = outputsOf actions ++ outputsOf more :=
    List.filterMap_append
  have outputs := paced.outputs
  have paces := paced.steps
  constructor
  · rw [lines, List.append_assoc, ← input]
    exact paced.reads
  · rw [lines, shown, List.length_append, List.length_append]
    omega
  · rw [lines, List.length_append]
    omega

/-! ## Choosing what is shown -/

/-- These choices have been presented, and since then nothing has happened but input. -/
def ShowsLast (actions : List Action) (offers : List Offer) : Prop :=
  ∃ earlier view between, actions = earlier ++ .present (.choices view offers) :: between ∧
    ∀ action ∈ between, ∃ line, action = .read line

theorem ShowsLast.present (actions : List Action) (view : View) (offers : List Offer) :
    ShowsLast (actions ++ [.present (.choices view offers)]) offers :=
  ⟨actions, view, [], rfl, nofun⟩

theorem ShowsLast.read {offers : List Offer} (shows : ShowsLast actions offers) (line : Chars) :
    ShowsLast (actions ++ [.read line]) offers := by
  obtain ⟨earlier, view, between, rfl, reads⟩ := shows
  refine ⟨earlier, view, between ++ [.read line], by simp, ?_⟩
  intro action member
  rcases List.mem_append.mp member with member | member
  · exact reads action member
  · exact ⟨line, List.mem_singleton.mp member⟩

/-- Whenever a choice is made, it has one of the places that have just been shown. -/
def ChoosesShown (actions : List Action) : Prop :=
  ∀ before index after, actions = before ++ .choose index :: after →
    ∃ offers, ShowsLast before offers ∧ index ∈ offers.map Offer.index

theorem ChoosesShown.append (first : ChoosesShown actions)
    (others : ∀ before index after, more = before ++ .choose index :: after →
      ∃ offers, ShowsLast (actions ++ before) offers ∧ index ∈ offers.map Offer.index) :
    ChoosesShown (actions ++ more) := by
  intro before index after split
  rcases List.append_eq_append_iff.mp split with
    ⟨middle, rfl, same⟩ | ⟨middle, same, rest⟩
  · exact others middle index after same
  · rcases middle with _ | ⟨action, middle⟩
    · rw [List.append_nil] at same
      subst same
      simpa using others [] index after rest.symm
    · cases rest
      exact first before index middle same

/-- What makes no choice adds none. -/
theorem ChoosesShown.append_of_not_mem (first : ChoosesShown actions)
    (none : ∀ index, .choose index ∉ more) : ChoosesShown (actions ++ more) := by
  refine first.append fun before index after split => absurd ?_ (none index)
  rw [split]
  exact List.mem_append_right _ List.mem_cons_self

/-- Choices have been made among those that were shown, and while a choice is asked for, those that
are pending have just been shown. -/
structure Config.IsOffered (actions : List Action) (config : Config) : Prop where
  chooses : ChoosesShown actions
  shows : ∀ session count, config.point = .asking session (.choose count) →
    ∃ offers, ShowsLast actions offers ∧ session.pending? = some offers

/-- A place within the choices that are pending is one of those that have just been shown. -/
theorem exists_shown_of_choose {session : Session Transcript} {prompt : Prompt}
    {offers : List Offer} {place : Nat} {line : Chars} (started : session.Started)
    (shows : ∀ count, prompt = .choose count →
      ∃ offers, ShowsLast actions offers ∧ session.pending? = some offers)
    (pending : session.pending? = some offers) (count : prompt = .choose offers.length)
    (within : place < offers.length) (before : List Action) (index : Nat) (after : List Action)
    (split : [.read line, .choose place] = before ++ .choose index :: after) :
    ∃ offers, ShowsLast (actions ++ before) offers ∧ index ∈ offers.map Offer.index := by
  obtain ⟨others, shown, same⟩ := shows _ count
  cases same.symm.trans pending
  obtain ⟨rfl, rfl⟩ : before = [.read line] ∧ index = place := by
    rcases before with _ | ⟨action, _ | ⟨other, before⟩⟩
    · cases split
    · cases split
      exact ⟨rfl, rfl⟩
    · simp at split
  refine ⟨offers, shown.read line, ?_⟩
  rw [(started.isMenu_of_pending pending).2]
  exact List.mem_range.mpr within

theorem Reaction.isOffered {session : Session Transcript} {prompt : Prompt} {reacted : List Action}
    {point : Point} {line : Chars} {input : List Chars}
    (reaction : Reaction session prompt reacted point) (started : session.Started)
    (chooses : ChoosesShown actions)
    (shows : ∀ count, prompt = .choose count →
      ∃ offers, ShowsLast actions offers ∧ session.pending? = some offers) :
    Config.IsOffered (actions ++ .read line :: reacted) ⟨point, input⟩ := by
  cases reaction with
  | reply prints =>
      refine ⟨chooses.append_of_not_mem (by simp), ?_⟩
      rintro after count ⟨⟩
      obtain ⟨offers, shown, pending⟩ := shows count rfl
      exact ⟨offers, shown.read line, prints.pending?.trans pending⟩
  | quit prints => exact ⟨chooses.append_of_not_mem (by simp), nofun⟩
  | advance any => exact ⟨chooses.append_of_not_mem (by simp), nofun⟩
  | restart again prints => exact ⟨chooses.append_of_not_mem (by simp), nofun⟩
  | failToRestart failed => exact ⟨chooses.append_of_not_mem (by simp), nofun⟩
  | choose pending count within =>
      exact ⟨chooses.append (exists_shown_of_choose started shows pending count within), nofun⟩
  | failToChoose pending count within =>
      exact ⟨chooses.append (exists_shown_of_choose started shows pending count within), nofun⟩

theorem Goes.isOffered {next : Config} (goes : Goes config more next)
    (sound : config.point.IsSound) (offered : config.IsOffered actions) :
    next.IsOffered (actions ++ more) := by
  obtain ⟨chooses, shows⟩ := offered
  cases goes with
  | @present session after output input presents =>
      refine ⟨chooses.append_of_not_mem (by simp), fun here count asks => ?_⟩
      rcases Player.exists_shown presents with
        ⟨later, -, same⟩ | ⟨later, prompt, -, same, waits⟩ <;> rw [same] at asks <;> cases asks
      obtain ⟨view, offers, rfl, -, pending⟩ := waits count rfl
      exact ⟨offers, .present actions view offers, pending⟩
  | failToPresent failed => exact ⟨chooses.append_of_not_mem (by simp), nofun⟩
  | exhausted => exact ⟨chooses.append_of_not_mem (by simp), nofun⟩
  | @react session prompt line rest reacted point reaction =>
      have asked := Prints.print session prompt.text
      refine reaction.isOffered (asked.started sound.1) chooses fun count same => ?_
      obtain ⟨offers, shown, pending⟩ := shows session count (congrArg _ same)
      exact ⟨offers, shown, asked.pending?.trans pending⟩

/-! ## The loops end -/

/-- What is true of the player at any time. -/
structure Config.IsOrderly (session : Session Transcript) (inputs : List Chars) (steps : Nat)
    (actions : List Action) (config : Config) : Prop where
  /-- No more steps are made than two for each line of input and two more. -/
  bounded : steps ≤ 2 * inputs.length + 2
  /-- The input is read line by line. -/
  reads : linesOf actions ++ config.input = inputs
  /-- One output at most is presented more than lines are read. -/
  presents : (outputsOf actions).length ≤ (linesOf actions).length + 1
  chooses : ChoosesShown actions
  /-- Where a choice is asked for, there is a last one. -/
  last : ∀ now count, config.point = .asking now (.choose count) → 0 < count
  /-- The player has ended as its stages do, or it can go on. -/
  continues : config.point = .ended (Player.play session inputs) ∨
    ∃ more next, config.step? = some (more, next)
  /-- Where the next input does not move the session, it is read and something is printed.  Then
  the player asks again, unless it was told to quit. -/
  ignores : ∀ now prompt line rest, config = ⟨.asking now prompt, line :: rest⟩ →
    prompt.Ignores (trim line) → ∃ later point, Prints now later ∧
      config.step? = some ([.read line], ⟨point, rest⟩) ∧
      (point = .asking later prompt ∨
        (trim line = ":quit".toList ∧ point = .ended (.stopped later none)))

variable {session : Session Transcript} {inputs : List Chars}

theorem isSound_opening (started : session.Started) :
    (Config.opening session inputs).point.IsSound :=
  ((Prints.printLine session _).trans (.printLine _ _)).started started

theorem Run.isPaced (run : Run (.opening session inputs) steps actions config)
    (started : session.Started) : config.IsPaced inputs steps actions :=
  run.preserves (fun steps actions config => config.IsPaced inputs steps actions)
    (isSound_opening started) ⟨rfl, Nat.le_refl _, Nat.le_refl _⟩
    fun _ goes paced => goes.isPaced paced

theorem Run.isOffered (run : Run (.opening session inputs) steps actions config)
    (started : session.Started) : config.IsOffered actions :=
  run.preserves (fun _ actions config => config.IsOffered actions)
    (isSound_opening started) ⟨by simp [ChoosesShown], nofun⟩
    fun sound goes offered => goes.isOffered sound offered

theorem Run.isOrderly (run : Run (.opening session inputs) steps actions config)
    (started : session.Started) : config.IsOrderly session inputs steps actions := by
  have sound := run.isSound (isSound_opening started)
  have paced := run.isPaced started
  have outcome := run.outcome (isSound_opening started)
  constructor
  case bounded =>
    have lines : (linesOf actions).length ≤ inputs.length := by
      rw [← paced.reads, List.length_append]
      exact Nat.le_add_right _ _
    have ahead := config.point.ahead_le.2
    have paces := paced.steps
    omega
  case reads => exact paced.reads
  case presents =>
    have ahead := config.point.ahead_le.1
    have outputs := paced.outputs
    omega
  case chooses => exact (run.isOffered started).chooses
  case last =>
    intro now count asks
    rw [asks] at sound
    exact Nat.pos_of_ne_zero (sound.2.ne_zero sound.1)
  case continues =>
    rcases Config.exists_goes sound with ⟨stage, ended⟩ | ⟨more, next, stepped, -⟩
    · left
      rw [ended]
      obtain ⟨point, input⟩ := config
      cases ended
      exact congrArg Point.ended outcome
    · exact Or.inr ⟨more, next, stepped⟩
  case ignores =>
    rintro now prompt line rest rfl ignores
    have asked := Prints.print now prompt.text
    obtain ⟨later, point, reacts, prints, leads⟩ :=
      Player.react?_of_ignores (asked.started sound.1) (sound.2.prints asked) ignores
    refine ⟨later, point, asked.trans prints, ?_, leads⟩
    simp only [Config.step?, reacts]
    rfl

/-- A run that has not ended goes on until it has. -/
theorem Run.exists_ended {steps : Nat} {actions : List Action} {config : Config}
    (run : Run (.opening session inputs) steps actions config) (started : session.Started) :
    ∃ steps actions rest, steps ≤ 2 * inputs.length + 2 ∧
      Run (.opening session inputs) steps actions ⟨.ended (Player.play session inputs), rest⟩ := by
  have orderly := run.isOrderly started
  rcases orderly.continues with ended | ⟨more, next, stepped⟩
  · obtain ⟨point, input⟩ := config
    cases ended
    exact ⟨steps, actions, input, orderly.bounded, run⟩
  · have further := run.step stepped
    have bounded := (further.isOrderly started).bounded
    exact further.exists_ended started
termination_by 2 * inputs.length + 2 - steps

/-- The faults of walks are none of the session's. -/
theorem code_ne_of_isOfWalk {fault : Fault} (ofWalk : fault.IsOfWalk) :
    fault.code ≠ "SESSION_STATE" := by
  cases ofWalk with
  | call ofCall => cases ofCall <;> simp [Fault.code]
  | noArm => simp [Fault.code]
  | tooLong count => simp [Fault.code]

/-- The player plays a dialogue that has been started on a compiled graph, wherever the session is
in it.  With any input the loops end, after two steps for each line and two more at most, and what
ends them is no misuse of the session.  All the while, one output at most is presented more than
lines are read, a choice is made only at a place that has just been shown, there is a last choice
wherever one is asked for, and questions to the player and inputs that choose nothing leave the
session as it is. -/
theorem player_halts_without_misuse {σ : Type} {registry : Registry σ} {store : Store}
    {script : List String} {graph : Graph}
    (compiled : (compile registry store script).graph = .ok graph)
    (commands : Registry Transcript) (world : World Transcript)
    (earlier later : List (Move Transcript)) {title : String} {started : Session Transcript}
    (starts : ((Session.ofGraph graph commands world).afterMoves earlier).start title =
      (.ok (), started))
    (stay : ∀ move ∈ later, move ≠ .operate .finish) (inputs : List Chars) :
    let session := started.afterMoves later
    (∃ steps actions rest, steps ≤ 2 * inputs.length + 2 ∧
        Run (.opening session inputs) steps actions
          ⟨.ended (Player.play session inputs), rest⟩) ∧
      (∀ fault, (Player.play session inputs).fault? = some fault →
        fault.IsOfWalk ∧ fault.code ≠ "SESSION_STATE") ∧
      ∀ steps actions config, Run (.opening session inputs) steps actions config →
        config.IsOrderly session inputs steps actions := by
  intro session
  have intact := Session.Intact.ofGraph (intact_of_compile compiled) commands world
  have placed := Session.WellPlaced.ofGraph graph commands world
  have inDialogue : session.Started :=
    (Session.started_of_start (intact.afterMoves earlier) (placed.afterMoves earlier)
      starts).afterMoves stay
  have begins : Run (.opening session inputs) 0 [] (.opening session inputs) := .begin
  obtain ⟨steps, actions, rest, bounded, run⟩ := begins.exists_ended inDialogue
  refine ⟨⟨steps, actions, rest, bounded, run⟩, fun fault fails => ?_,
    fun steps actions config other => other.isOrderly inDialogue⟩
  have ofWalk := run.isSound (isSound_opening inDialogue) fault fails
  exact ⟨ofWalk, code_ne_of_isOfWalk ofWalk⟩

/-- The player asks for help, tries what is not offered, goes round the dialogue and starts it
again.  When the input is exhausted, a choice is asked for once more. -/
theorem halts_with_way_back :
    let world : World Transcript := ⟨NameMap.ofList [("met", .boolean true)], ""⟩
    let graph := compiledGraph hostless world.store wayBack
    let session := ((Session.ofGraph graph Player.commands world).start "Hub").2
    let inputs := ["9", "abc", ":help", "0", "", "", ":vars", ":restart"].map String.toList
    (∃ steps actions rest, steps ≤ 18 ∧
        Run (.opening session inputs) steps actions
          ⟨.ended (Player.play session inputs), rest⟩) ∧
      (Player.play session inputs).fault? = none ∧
      (Player.play session inputs).isWaiting = true ∧
      (Player.play session inputs).session.pending?.map List.length = some 2 := by
  intro world graph session inputs
  have compiled : (compile hostless world.store wayBack).graph = .ok graph := by
    apply compile_eq_ok_compiledGraph
    decide +kernel
  have starts : ((Session.ofGraph graph Player.commands world).start "Hub").1 = .ok () := by
    decide +kernel
  obtain ⟨halts, -, -⟩ := player_halts_without_misuse compiled Player.commands world [] []
    (Prod.ext starts rfl) (by simp) inputs
  exact ⟨halts, by decide +kernel⟩

end Parley.CommandLine
