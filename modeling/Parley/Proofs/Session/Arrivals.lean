import Parley.Proofs.Graph.Walks
import Parley.Proofs.Session.Safe

/-!
# No request is given up

What an operation of a session does is walk, run calls and fill in texts.  Calls and texts
have faults of their own, so where no walk is given up, no operation is.
-/

namespace Parley

variable {σ : Type}

theorem arrives_fillPlaceholders (store : Store) (text : String) :
    Arrives (fillPlaceholders store text) := by
  intro limit failed
  obtain ⟨name, undefined, -, -⟩ := fillPlaceholders_eq_error failed
  cases undefined

/-- A request that is refused is not given up. -/
theorem Arrives.of_misuse {α : Type} (misuse : Misuse) :
    Arrives (.error (.session misuse) : Except Fault α) := by
  intro limit failed
  cases failed

/-- What an outcome gives does not matter to whether it arrives. -/
theorem Arrives.map {α β : Type} {outcome : Except Fault α} (arrives : Arrives outcome)
    (change : α → β) : Arrives (outcome.map change) := by
  intro limit failed
  cases outcome with
  | error fault =>
      cases failed
      exact arrives limit rfl
  | ok value => cases failed

namespace Session

theorem arrives_openChoices (graph : Graph) (registry : Registry σ) (choices : List ChoiceIndex)
    (world : World σ) : Arrives (openChoices graph registry choices world).1 := by
  induction choices generalizing world with
  | nil => exact .ok _
  | cons id rest ih =>
      simp only [openChoices]
      split
      · rename_i tested
        exact (Registry.isOfCall_of_allHold (congrArg Prod.fst tested)).arrives
      · rename_i between _
        have others := ih between
        split
        · rename_i opened
          rw [opened] at others
          exact others
        · exact .ok _

variable {session : Session σ}

theorem arrives_present (line : LineIndex) : Arrives (session.present line).1 := by
  have opens := arrives_openChoices session.graph session.registry
    (session.graph.line line).choices session.world
  simp only [present]
  split
  · rename_i opened
    rw [opened] at opens
    exact opens.of_error
  · rename_i world _
    split
    · rename_i viewed
      have text := arrives_fillPlaceholders world.store ((session.graph.line line).text.getD "")
      rw [viewOf_eq_error viewed] at text
      exact text.of_error
    · split
      · exact .ok _
      · split
        · rename_i offered
          obtain ⟨choice, -, failed⟩ := offersOf_eq_error offered
          have text := arrives_fillPlaceholders world.store (session.graph.choice choice).text
          rw [failed] at text
          exact text.of_error
        · exact .ok _

theorem arrives_arrive (line : LineIndex) : Arrives (session.arrive line).1 := by
  simp only [arrive]
  split
  · rename_i ran
    exact (Registry.isOfCall_of_runAll (congrArg Prod.fst ran)).arrives
  · exact arrives_present line

variable (short : session.graph.WalksShort session.registry session.world)

include short

theorem arrives_leave (line : LineIndex) : Arrives (session.leave line).1 := by
  have walked := (short.afterLine line).2
  simp only [leave]
  split
  · rename_i ran
    rw [ran] at walked
    exact walked.of_error
  · exact .ok _
  · exact arrives_arrive _

theorem arrives_next : Arrives session.next.1 := by
  unfold next
  split
  · exact .of_misuse _
  · exact .ok _
  · exact .ok _
  · exact arrives_leave short _
  · exact arrives_arrive _
  · exact arrives_present _

theorem arrives_start (title : String) : Arrives (session.start title).1 := by
  simp only [start, Graph.entry]
  rcases session.graph.entries.get? title with _ | entry
  · intro limit failed
    cases failed
  · obtain ⟨-, -, walked⟩ := short.firstSpoken (some entry)
    dsimp only
    split
    · rename_i ran
      rw [ran] at walked
      exact walked.of_error
    · exact .ok _

theorem arrives_choose (index : Nat) : Arrives (session.choose index).1 := by
  simp only [choose]
  split
  · exact .of_misuse _
  · split
    · exact .of_misuse _
    · rename_i offer _
      have selected := (short.select offer.choice).2
      split
      · rename_i made
        rw [made] at selected
        exact selected.of_error
      · exact .ok _

/-- No operation is given up. -/
theorem arrives_operate (operation : Operation) : Arrives (session.operate operation).1 := by
  cases operation with
  | start title => exact (arrives_start short title).map _
  | next => exact (arrives_next short).map _
  | choose index => exact (arrives_choose short index).map _
  | restart =>
      apply Arrives.map
      unfold restart
      split
      · exact arrives_start short _
      · exact .of_misuse _
  | finish => exact .ok _
  | set name value => exact .ok _

end Session

end Parley
