import Parley.Proofs.Compilation.Rejoining
import Parley.Proofs.Draft.Bodiless

/-!
# Where an option without a body continues

An option without a body should lead, over a relay, to where the dialogue rejoins.  The
compiled option does so exactly if the statement after it ends it and the line where the
dialogue rejoins is the one that follows the relay.  An arm that begins right after the
option does not end it, nor does a statement that closes a branch which lacks an arm
without conditions.
-/

namespace Parley

open Parley.Script

/-- An option leads over a relay to a spoken line, and making the choice goes on there. -/
structure RejoinsAt (scope : Scope) (statements : List Statement) (graph : Graph)
    (place later : Nat) : Prop where
  unbranched : (graph.choice (choiceAt scope statements place)).branch = none
  relayed : ∃ relay, (graph.choice (choiceAt scope statements place)).next = some relay ∧
    (graph.line relay).isRelay = true ∧
    (graph.line relay).next = some (lineAt scope statements later)
  continues : ∀ {τ : Type} (commands : Registry τ) (world after : World τ) operations index
    offers offer,
    let session := (Session.ofGraph graph commands world).after operations
    session.pending? = some offers → offers[index]? = some offer →
    offer.choice = choiceAt scope statements place →
    session.registry.runAll (session.graph.choice offer.choice).commands session.world =
      (.ok (), after) →
    session.choose index = (.ok (), { session with
      graph := session.graph.markSelected offer.choice
      world := after
      position := .reached (lineAt scope statements later) })

/-- A walk from a relay without a branch ends on the spoken line that follows it. -/
theorem Graph.firstSpoken_of_relay {τ : Type} (graph : Graph) (registry : Registry τ)
    (world : World τ) {relay target : LineIndex} (isRelay : (graph.line relay).isRelay = true)
    (unbranched : (graph.line relay).branch = none)
    (leads : (graph.line relay).next = some target)
    (spoken : (graph.line target).isRelay = false) :
    graph.firstSpoken registry (some relay) world = (.ok (some target), world) := by
  simp [firstSpoken, walkLimit, firstSpokenWithin, isRelay, afterRelay, unbranched, leads, spoken]

/-- Making a choice that leads over a relay to a spoken line goes on at that line. -/
theorem Session.choose_of_relayed {τ : Type} {session : Session τ} {after : World τ}
    {index : Nat} {offers : List Offer} {offer : Offer} {relay target : LineIndex}
    (pending : session.pending? = some offers) (offered : offers[index]? = some offer)
    (runs : session.registry.runAll (session.graph.choice offer.choice).commands session.world =
      (.ok (), after))
    (unbranched : (session.graph.choice offer.choice).branch = none)
    (next : (session.graph.choice offer.choice).next = some relay)
    (isRelay : (session.graph.line relay).isRelay = true)
    (aside : (session.graph.line relay).branch = none)
    (leads : (session.graph.line relay).next = some target)
    (spoken : (session.graph.line target).isRelay = false) :
    session.choose index = (.ok (), { session with
      graph := session.graph.markSelected offer.choice
      world := after
      position := .reached target }) := by
  have walk := (session.graph.markSelected offer.choice).firstSpoken_of_relay session.registry
    after isRelay aside leads spoken
  have selection : session.graph.select session.registry offer.choice session.world =
      ⟨.ok (some target), session.graph.markSelected offer.choice, after⟩ := by
    simp only [Graph.select, runs, Graph.follow, unbranched, next, walk]
  simp only [choose, pending, offered, selection, Position.ofWalk]

variable {σ : Type} {registry : Registry σ} {store : Store} {script : List String} {graph : Graph}

/-- An option that is not followed by its body leads over a relay to where the dialogue
rejoins exactly if the next statement ends it and the relay is followed there.  The next
statement ends it exactly if it is an option or a spoken line and closes no branch that lacks
an arm without conditions; and if the dialogue rejoins there at once, the relay is followed. -/
theorem rejoinsAt_iff_of_compile
    (compiled : (compile registry store script).graph = .ok graph) {place later : Nat}
    (option : IsOption (statementsOf script) false place)
    (bodiless : indentAt (statementsOf script) (place + 1) ≠
      indentAt (statementsOf script) place + 1)
    (first : FirstRejoins (statementsOf script) place later) :
    let scope := scopeOf registry store script
    let statements := statementsOf script
    let next := draftAfter scope statements (place + 1)
    (RejoinsAt scope statements graph place later ↔
      Ends scope statements place (place + 1) ∧
        Follows scope statements next.graph.lines.size later) ∧
    (Ends scope statements place (place + 1) ↔
      (constructAt statements (place + 1) = some .option ∨
        constructAt statements (place + 1) = some .speech) ∧
      next.CompleteBelow (indentAt statements (place + 1))) ∧
    (later = place + 1 → Ends scope statements place (place + 1) →
      Follows scope statements next.graph.lines.size later) := by
  intro scope statements next
  obtain ⟨final, read, rfl⟩ := exists_draft_of_compile compiled
  have behind : place + 1 ≤ later := first.1.after
  obtain ⟨target, foundTarget, spokenTarget⟩ := Option.map_eq_some_iff.mp first.1.spoken
  have within : place + 1 < statements.length :=
    Nat.lt_of_le_of_lt behind (List.getElem?_eq_some_iff.mp foundTarget).1
  obtain ⟨statement, found⟩ : ∃ statement, statements[place + 1]? = some statement :=
    ⟨statements[place + 1], List.getElem?_eq_getElem within⟩
  have notBody : ¬ BodyBegins statements place := fun begins => bodiless begins.2
  obtain ⟨unbranched, ended, unended⟩ := links_of_not_bodyBegins read option found notBody
  have rejoins_iff : RejoinsAt scope statements final.closeDialogue.graph place later ↔
      Ends scope statements place (place + 1) ∧
        Follows scope statements next.graph.lines.size later := by
    constructor
    · rintro ⟨_, ⟨relay, linked, _, leads⟩, _⟩
      by_cases ends : Ends scope statements place (place + 1)
      · rw [ended ends] at linked
        cases linked
        exact ⟨ends, (next_relay_eq_iff read ends behind first.1.spoken).mp leads⟩
      · rw [unended ends] at linked
        cases linked
    · rintro ⟨ends, follows⟩
      have aside := aside_closeDialogue_final read within (aside_of_ends read ends).1
      have leads := (next_relay_eq_iff read ends behind first.1.spoken).mpr follows
      refine ⟨unbranched, ⟨_, ended ends, aside.isRelay, leads⟩, ?_⟩
      intro τ commands world after operations index offers offer session pending offered same runs
      have remembers : final.closeDialogue.graph.Remembers session.graph :=
        (Session.ofGraph final.closeDialogue.graph commands world).remembers_after operations
      have lines := remembers.line
      obtain ⟨selected, record⟩ := remembers.choice offer.choice
      have links : (session.graph.choice offer.choice).branch = none ∧
          (session.graph.choice offer.choice).next = some next.graph.lines.size := by
        rw [record, same]
        exact ⟨unbranched, ended ends⟩
      apply Session.choose_of_relayed pending offered runs links.1 links.2
      · exact (congrArg Line.isRelay (lines _)).trans aside.isRelay
      · exact (congrArg Line.branch (lines _)).trans aside.unbranched
      · exact (congrArg Line.next (lines _)).trans leads
      · exact (congrArg Line.isRelay (lines _)).trans (isRelay_lineAt compiled first.1.spoken)
  refine ⟨rejoins_iff, ?_, ?_⟩
  · rw [indentAt_eq found, constructAt_of_found found, Option.some_inj, Option.some_inj]
    exact ends_iff read option found notBody
  · rintro rfl ends
    rcases (aside_of_ends read ends).2 with ⟨isOption, _⟩ | ⟨_, follows, _⟩
    · have spoken := first.1.spoken
      rw [isOption] at spoken
      cases spoken
    · exact follows

/-- Two options without bodies. -/
def bodilessOptions : List String :=
  ["- D", "A: root", "> one", "> two", "A: end"]

/-- An option continues past the option after it. -/
theorem rejoinsAt_of_bodiless_options :
    RejoinsAt (scopeOf hostless .empty bodilessOptions) (statementsOf bodilessOptions)
      (compiledGraph hostless .empty bodilessOptions) 2 4 := by
  have compiled : (compile hostless .empty bodilessOptions).graph =
      .ok (compiledGraph hostless .empty bodilessOptions) := by
    apply compile_eq_ok_compiledGraph
    decide +kernel
  have option : IsOption (statementsOf bodilessOptions) false 2 :=
    ⟨⟨3, 0, "> one".toList, .option⟩, ⟨"one", none, none, false⟩, by decide +kernel, rfl,
      by decide +kernel, rfl⟩
  have between : ∀ place, 2 < place → place < 4 → place = 3 := by omega
  have rejoins : Rejoins (statementsOf bodilessOptions) 2 4 := by
    constructor
    · decide +kernel
    · decide
    · intro place after before
      rw [between place after before]
      decide +kernel
    · decide +kernel
    · intro place after before
      rw [between place after before]
      decide +kernel
  have first : FirstRejoins (statementsOf bodilessOptions) 2 4 := by
    apply And.intro rejoins
    intro sooner before earlier
    have spoken := earlier.spoken
    rw [between sooner earlier.after before] at spoken
    exact absurd spoken (by decide +kernel)
  have follows : Follows (scopeOf hostless .empty bodilessOptions) (statementsOf bodilessOptions)
      1 4 :=
    ⟨⟨5, 0, "A: end".toList, .speech⟩, by decide +kernel, by decide +kernel⟩
  obtain ⟨rejoins_iff, ends_iff, _⟩ := rejoinsAt_iff_of_compile compiled option
    (by decide +kernel) first
  have complete : (draftAfter (scopeOf hostless .empty bodilessOptions)
      (statementsOf bodilessOptions) 3).branches = [] := by
    decide +kernel
  apply rejoins_iff.mpr
  constructor
  · apply ends_iff.mpr
    refine ⟨Or.inl (by decide +kernel), fun branch member => ?_⟩
    rw [complete] at member
    cases member
  · have relay : (draftAfter (scopeOf hostless .empty bodilessOptions)
        (statementsOf bodilessOptions) 3).graph.lines.size = 1 := by
      decide +kernel
    exact relay ▸ follows

/-- An option without a body at the end of an arm. -/
def bodilessInArm : List String :=
  ["- D", "A: root", "(if 1 == 1)", "\tA: x", "\t> opt", "(else)", "\tA: y", "A: end"]

/-- An option at the end of an arm leads nowhere if another arm follows: making the choice ends
the dialogue although there is a line to go on with. -/
theorem not_rejoinsAt_of_else :
    let scope := scopeOf hostless .empty bodilessInArm
    let statements := statementsOf bodilessInArm
    let graph := compiledGraph hostless .empty bodilessInArm
    (compile hostless .empty bodilessInArm).graph = .ok graph ∧
      IsOption statements false 4 ∧ indentAt statements 5 ≠ indentAt statements 4 + 1 ∧
      FirstRejoins statements 4 7 ∧ ¬ RejoinsAt scope statements graph 4 7 ∧
      (((Session.ofGraph graph hostless ⟨.empty, ()⟩).after
        [.start "D", .next, .next, .choose 0]).operate .next).1 = .ok (some .finished) := by
  intro scope statements graph
  have compiled : (compile hostless .empty bodilessInArm).graph = .ok graph := by
    apply compile_eq_ok_compiledGraph
    decide +kernel
  have option : IsOption statements false 4 :=
    ⟨⟨5, 1, "> opt".toList, .option⟩, ⟨"opt", none, none, false⟩, by decide +kernel, rfl,
      by decide +kernel, rfl⟩
  have between : ∀ place, 4 < place → place < 7 → place = 5 ∨ place = 6 := by omega
  have rejoins : Rejoins statements 4 7 := by
    constructor
    · decide +kernel
    · decide
    · intro place after before
      rcases between place after before with rfl | rfl <;> decide +kernel
    · decide +kernel
    · intro place after before
      rcases between place after before with rfl | rfl <;> decide +kernel
  have first : FirstRejoins statements 4 7 := by
    apply And.intro rejoins
    intro sooner before earlier
    rcases between sooner earlier.after before with rfl | rfl
    · exact absurd earlier.spoken (by decide +kernel)
    · -- The line of the other arm is deeper than the `(else)` above it.
      exact absurd (earlier.shallowest 5 (by decide) (by decide)) (by decide +kernel)
  have nowhere : (graph.choice (choiceAt scope statements 4)).next = none := by
    decide +kernel
  have stops : ¬ RejoinsAt scope statements graph 4 7 := by
    intro rejoinsAt
    obtain ⟨relay, leads, _⟩ := rejoinsAt.relayed
    rw [nowhere] at leads
    cases leads
  exact ⟨compiled, option, by decide +kernel, first, stops, by decide +kernel⟩

end Parley
