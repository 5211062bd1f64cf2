import Parley.Proofs.Compilation.Sound
import Parley.Proofs.Draft.Bodies
import Parley.Proofs.Session.Selections

/-!
# A terminal option ends the dialogue

A terminal option adds a choice without links and is not remembered as the last thing made.  So
no later statement finds its choice among the open ones, and the choice leads nowhere to the end,
whatever follows it in the script.  Making it runs its commands and ends the dialogue.
-/

namespace Parley

open Parley.Script

variable {σ τ : Type} {registry : Registry σ} {store : Store} {script : List String}
  {graph : Graph}

/-- A choice leads nowhere. -/
structure Graph.LeadsNowhere (graph : Graph) (id : ChoiceIndex) : Prop where
  next : (graph.choice id).next = none
  branch : (graph.choice id).branch = none

/-! ## Reading a terminal option -/

section Reading

variable {scope : Scope} {statements : List Statement} {final : Draft} {place later : Nat}

/-- The choice of a terminal option is never open. -/
theorem IsOption.not_open (read : Draft.empty.stepAll scope statements = .ok final)
    (option : IsOption statements true place) (within : later ≤ statements.length) :
    ∀ choice ∈ (draftAfter scope statements later).choices,
      choice.id ≠ choiceAt scope statements place := by
  intro choice member same
  obtain ⟨other, before, opens, rfl, -⟩ := exists_option_of_open read within choice member
  -- The options are two, since one is terminal and the other is not, and so are their choices.
  rcases Nat.lt_trichotomy other place with earlier | rfl | after
  · have less := opens.choiceAt_lt read earlier (Nat.le_of_lt option.lt_length)
    exact Nat.ne_of_lt less same
  · cases opens.terminal_eq option
  · have less := option.choiceAt_lt read after (Nat.le_of_lt opens.lt_length)
    exact Nat.ne_of_gt less same

/-- No statement links the choice of a terminal option. -/
theorem IsOption.not_linked (read : Draft.empty.stepAll scope statements = .ok final)
    (option : IsOption statements true place) (later : Nat) :
    ¬ (Ends scope statements place later ∨ Enters scope statements place later) := by
  have notLast : ∀ statement, statements[later]? = some statement → ∀ choice,
      (draftAfter scope statements later).latestChoice? = some choice →
        choice.id ≠ choiceAt scope statements place := by
    intro statement found choice last
    have within := Nat.le_of_lt (List.getElem?_eq_some_iff.mp found).1
    unfold Draft.latestChoice? at last
    split at last
    · exact option.not_open read within choice (List.mem_of_head? last)
    · cases last
  rintro (⟨statement, found, ended⟩ | ⟨statement, found, entered⟩)
  · obtain ⟨choice, ends, same⟩ := Option.map_eq_some_iff.mp ended
    exact notLast statement found choice (Draft.latestChoice?_of_endedBy ends) same
  · obtain ⟨choice, enters, same⟩ := Option.map_eq_some_iff.mp entered
    exact notLast statement found choice (Draft.latestChoice?_of_enteredBy enters) same

/-- To the end the choice of a terminal option is known and leads nowhere. -/
theorem IsOption.leadsNowhere_final (read : Draft.empty.stepAll scope statements = .ok final)
    (option : IsOption statements true place) :
    choiceAt scope statements place < final.closeDialogue.graph.choices.size ∧
      final.closeDialogue.graph.LeadsNowhere (choiceAt scope statements place) := by
  have within : place + 1 ≤ statements.length := option.lt_length
  have known : choiceAt scope statements place <
      (draftAfter scope statements (place + 1)).graph.choices.size := by
    rw [option.size_choices read]
    exact Nat.lt_succ_self _
  have fresh := option.fresh read
  have unlinked := fun later => givenAt_eq_none_iff.mpr (option.not_linked read later)
  refine ⟨?_, ?_, ?_⟩
  · have mono := size_choices_mono read within (Nat.le_refl statements.length)
    rw [draftAfter_length read, ← final.graphChoices_closeDialogue] at mono
    exact Nat.lt_of_lt_of_le known mono
  · rw [next_choice_eq_iff read known within (by simp)]
    exact ⟨fresh.1, fun later _ => (unlinked later).1⟩
  · rw [branch_choice_eq_iff read known within (by simp)]
    exact ⟨fresh.2, fun later _ => (unlinked later).2⟩

end Reading

/-! ## Making a choice that leads nowhere -/

theorem Graph.LeadsNowhere.remembers {before after : Graph} {id : ChoiceIndex}
    (nowhere : before.LeadsNowhere id) (same : before.Remembers after) :
    after.LeadsNowhere id := by
  obtain ⟨selected, unchanged⟩ := same.choice id
  exact ⟨by rw [unchanged]; exact nowhere.next, by rw [unchanged]; exact nowhere.branch⟩

/-- Making a choice that leads nowhere gives what its commands give, and no line. -/
theorem Graph.LeadsNowhere.outcome_select {id : ChoiceIndex} (nowhere : graph.LeadsNowhere id)
    (commands : Registry τ) (world : World τ) :
    (graph.select commands id world).outcome =
      (commands.runAll (graph.choice id).commands world).1.map fun _ => none := by
  simp only [select, nowhere.next, nowhere.branch, follow, firstSpoken_none]
  split <;> rename_i ran <;> rw [ran] <;> rfl

namespace Session

variable {session : Session τ} {index : Nat} {offer : Offer}

/-- Asking for a choice that is offered makes it. -/
theorem choose_of_offered (offered : session.offered? index = some offer) :
    session.choose index =
      let selection := session.graph.select session.registry offer.choice session.world
      let session := { session with graph := selection.graph, world := selection.world }
      match selection.outcome with
      | .error fault => (.error fault, session)
      | .ok next => (.ok (), { session with position := Position.ofWalk next }) := by
  unfold offered? at offered
  obtain ⟨offers, pending, found⟩ := Option.bind_eq_some_iff.mp offered
  dsimp only
  rcases outcome : (session.graph.select session.registry offer.choice session.world).outcome <;>
    simp only [choose, pending, found, outcome]

/-- Making a choice ends the dialogue, if only its commands run. -/
structure EndsAt (session : Session τ) (index : Nat) (id : ChoiceIndex) : Prop where
  outcome : (session.choose index).1 =
    (session.registry.runAll (session.graph.choice id).commands session.world).1
  finished : session.Picks index id →
    (session.choose index).1 = .ok () ∧ (session.choose index).2.position = .finished ∧
      (session.choose index).2.next = (.ok .finished, (session.choose index).2)

theorem endsAt_of_leadsNowhere (offered : session.offered? index = some offer)
    (nowhere : session.graph.LeadsNowhere offer.choice) :
    session.EndsAt index offer.choice := by
  have made := choose_of_offered offered
  have gives := nowhere.outcome_select session.registry session.world
  dsimp only at made
  rw [gives] at made
  rcases ran : (session.registry.runAll (session.graph.choice offer.choice).commands
      session.world).1 with fault | _
  · rw [ran] at made
    constructor
    · rw [made, ran]
      rfl
    · rintro ⟨-, runs⟩
      rw [ran] at runs
      cases runs
  · rw [ran] at made
    constructor
    · rw [made, ran]
      rfl
    · intro _
      rw [made]
      exact ⟨rfl, rfl, next_of_finished _ rfl⟩

end Session

/-- The choice of a terminal option leads nowhere, whatever follows the option.  However the
script is played, and with whatever commands and variables: asking for that choice where it is
offered fails only as its commands do, and else the dialogue is over. -/
theorem endsAt_of_compile (compiled : (compile registry store script).graph = .ok graph)
    {place : Nat} (option : IsOption (statementsOf script) true place) :
    let id := choiceAt (scopeOf registry store script) (statementsOf script) place
    (id < graph.choices.size ∧ graph.LeadsNowhere id) ∧
      ∀ (commands : Registry τ) (world : World τ) (moves : List (Move τ)) (index : Nat)
        (offer : Offer),
        let session := (Session.ofGraph graph commands world).afterMoves moves
        session.offered? index = some offer → offer.choice = id → session.EndsAt index id := by
  intro id
  obtain ⟨final, read, rfl⟩ := exists_draft_of_compile compiled
  have leads := option.leadsNowhere_final read
  refine ⟨leads, fun commands world moves index offer => ?_⟩
  intro session offered same
  have kept := (Session.ofGraph final.closeDialogue.graph commands world).remembers_afterMoves moves
  have nowhere : session.graph.LeadsNowhere id := leads.2.remembers kept
  rw [← same] at nowhere ⊢
  exact Session.endsAt_of_leadsNowhere offered nowhere

/-- A terminal option between an option with a body and one without. -/
def terminalAmong : List String :=
  ["- D", "A: root", "> one", "\tA: x", "> leave [[end]]", "> two", "A: end"]

/-- The terminal option ends the dialogue, although there is a line to go on with. -/
theorem endsAt_of_terminal_among :
    let graph := compiledGraph hostless .empty terminalAmong
    let session := (Session.ofGraph graph hostless ⟨.empty, ()⟩).afterMoves
      [.operate (.start "D"), .operate .next]
    graph.LeadsNowhere 1 ∧ (session.choose 1).2.next.1 = .ok .finished := by
  intro graph session
  have compiled : (compile hostless .empty terminalAmong).graph = .ok graph := by
    apply compile_eq_ok_compiledGraph
    decide +kernel
  have option : IsOption (statementsOf terminalAmong) true 4 :=
    ⟨⟨5, 0, "> leave [[end]]".toList, .option⟩, ⟨"leave", none, none, true⟩, by decide +kernel,
      rfl, by decide +kernel, rfl⟩
  have id : choiceAt (scopeOf hostless .empty terminalAmong) (statementsOf terminalAmong) 4 = 1 := by
    decide +kernel
  have offered : session.offered? 1 = some ⟨1, 1, "leave", false⟩ := by decide +kernel
  obtain ⟨⟨-, nowhere⟩, ends⟩ := endsAt_of_compile (τ := Unit) compiled option
  rw [id] at nowhere ends
  have endsHere := ends hostless ⟨.empty, ()⟩ [.operate (.start "D"), .operate .next] 1 _ offered rfl
  have runs : (session.registry.runAll (session.graph.choice 1).commands session.world).1 =
      .ok () := by
    decide +kernel
  obtain ⟨-, -, shows⟩ := endsHere.finished ⟨⟨_, offered, rfl⟩, runs⟩
  exact ⟨nowhere, congrArg Prod.fst shows⟩

end Parley
