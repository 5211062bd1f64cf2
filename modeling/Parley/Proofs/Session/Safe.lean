import Parley.Proofs.Graph.Safe
import Parley.Proofs.Placeholder
import Parley.Proofs.Session.Operation

/-!
# What a session can do

A session of a safe graph stays in worlds that its calls keep, whatever a host
does with it.  It fails in the ways that its calls fail and in three others: the
host names a dialogue that does not exist, it asks for something out of turn, or
a text that is to be shown has a placeholder for a variable that is not defined.
-/

namespace Parley

variable {σ α : Type} {kept : World σ → Prop} {allowed : Fault → Prop}

namespace Session

/-- A text that a session shows at a line: that of the line itself, or that of a
choice which was just found available. -/
inductive Shows (session : Session σ) (line : LineIndex) : String → Prop
  | line : Shows session line ((session.graph.line line).text.getD "")
  | choice (before : World σ) (available : List ChoiceIndex) (choice : ChoiceIndex)
      (opened : openChoices session.graph session.registry (session.graph.line line).choices
        before = (.ok available, session.world))
      (member : choice ∈ available) :
      Shows session line (session.graph.choice choice).text

/-- A session whose line is about to be shown, but a text of it has a placeholder
for a variable that is not defined. -/
def Lacks (session : Session σ) (name : String) : Prop :=
  session.world.store.get? name = none ∧
    ∃ line text, session.position = .ready line ∧ session.Shows line text ∧
      Placeholder.Piece.reference name ∈ Placeholder.pieces text.toList

/-- What a fault of an operation that leaves `session` is blamed on. -/
inductive Blames (allowed : Fault → Prop) (session : Session σ) : Fault → Prop
  | allowed {fault : Fault} (fine : allowed fault) : Blames allowed session fault
  | dialogue (title : String) : Blames allowed session (.unknownDialogue title)
  | turn (cause : Misuse) : Blames allowed session (.session cause)
  | placeholder (name : String) (lacks : session.Lacks name) :
      Blames allowed session (.undefinedVariable name)

/-- A session of a safe graph in a world that the calls keep. -/
structure Safe (kept : World σ → Prop) (allowed : Fault → Prop) (session : Session σ) :
    Prop where
  graph : session.graph.Safe session.registry kept allowed
  world : kept session.world

/-- The outcome of an operation that leaves a safe session and fails only where
something is to blame. -/
structure SafeResult (kept : World σ → Prop) (allowed : Fault → Prop)
    (result : Except Fault α × Session σ) : Prop where
  session : result.2.Safe kept allowed
  fault : ∀ fault, result.1 = .error fault → result.2.Blames allowed fault

namespace SafeResult

theorem ok {value : α} {session : Session σ} (safe : session.Safe kept allowed) :
    SafeResult kept allowed ((.ok value, session) : Except Fault α × Session σ) where
  session := safe
  fault _ failed := by cases failed

theorem error {fault : Fault} {session : Session σ} (safe : session.Safe kept allowed)
    (blamed : session.Blames allowed fault) :
    SafeResult kept allowed ((.error fault, session) : Except Fault α × Session σ) where
  session := safe
  fault other failed := by
    cases failed
    exact blamed

/-- What an operation gives where it succeeds does not matter. -/
theorem map {β : Type} {result : Except Fault α × Session σ}
    (safe : SafeResult kept allowed result) (change : α → β) :
    SafeResult kept allowed (result.1.map change, result.2) where
  session := safe.session
  fault fault failed := by
    rcases result with ⟨outcome, session⟩
    cases outcome with
    | error other =>
        cases failed
        exact safe.fault fault rfl
    | ok value => cases failed

end SafeResult

/-- A choice at a place that cannot be filled in has a text that cannot. -/
theorem offersOf_eq_error {graph : Graph} {store : Store} {available : List ChoiceIndex}
    {fault : Fault} (failed : offersOf graph store available = .error fault) :
    ∃ choice ∈ available, fillPlaceholders store (graph.choice choice).text = .error fault := by
  obtain ⟨⟨choice, index⟩, member, choiceFails⟩ := exists_of_mapM_eq_error failed
  have listed : choice ∈ available := (List.mem_zipIdx' member).2 ▸ List.getElem_mem _
  simp only [offerOf] at choiceFails
  rcases filled : fillPlaceholders store (graph.choice choice).text with other | text
  · rw [filled] at choiceFails
    cases choiceFails
    exact ⟨choice, listed, filled⟩
  · rw [filled] at choiceFails
    cases choiceFails

theorem viewOf_eq_error {store : Store} {line : Line} {fault : Fault}
    (failed : viewOf store line = .error fault) :
    fillPlaceholders store (line.text.getD "") = .error fault := by
  simp only [viewOf] at failed
  rcases filled : fillPlaceholders store (line.text.getD "") with other | text
  · rw [filled] at failed
    cases failed
    rfl
  · rw [filled] at failed
    cases failed

namespace Safe

variable {session : Session σ}

/-- A session that has moved in the graph. -/
theorem move (safe : session.Safe kept allowed) {world : World σ} (held : kept world)
    (dialogue : Option String) (position : Position) :
    ({ session with world := world, dialogue := dialogue, position := position } :
      Session σ).Safe kept allowed where
  graph := safe.graph
  world := held

/-- A text that is about to be shown and cannot be filled in is to blame. -/
theorem blames_of_text {line : LineIndex} {text : String} {fault : Fault}
    (waits : session.position = .ready line) (shown : session.Shows line text)
    (failed : fillPlaceholders session.world.store text = .error fault) :
    session.Blames allowed fault := by
  obtain ⟨name, rfl, member, undefined⟩ := fillPlaceholders_eq_error failed
  exact Blames.placeholder name ⟨undefined, line, text, waits, shown, member⟩

theorem openChoices {graph : Graph} {registry : Registry σ}
    (safe : graph.Safe registry kept allowed) (choices : List ChoiceIndex) {world : World σ}
    (held : kept world) :
    Parley.Safe kept allowed (Session.openChoices graph registry choices world) := by
  induction choices generalizing world with
  | nil => exact Parley.Safe.ok held
  | cons id rest ih =>
      have first := safe.canChoose id held
      simp only [Session.openChoices]
      rcases tested : graph.canChoose registry id world with ⟨outcome, after⟩
      rw [tested] at first
      cases outcome with
      | error fault => exact Parley.Safe.error first.world (first.fault fault rfl)
      | ok available =>
          have others := ih first.world
          dsimp only
          rcases opened : Session.openChoices graph registry rest after with ⟨outcome, last⟩
          rw [opened] at others
          cases outcome with
          | error fault => exact Parley.Safe.error others.world (others.fault fault rfl)
          | ok found => exact Parley.Safe.ok others.world

theorem present (safe : session.Safe kept allowed) {line : LineIndex}
    (waits : session.position = .ready line) :
    SafeResult kept allowed (session.present line) := by
  have first := openChoices safe.graph (session.graph.line line).choices safe.world
  simp only [Session.present]
  rcases opened : Session.openChoices session.graph session.registry
    (session.graph.line line).choices session.world with ⟨outcome, after⟩
  rw [opened] at first
  cases outcome with
  | error fault =>
      exact SafeResult.error (safe.move first.world _ _) (.allowed (first.fault fault rfl))
  | ok available =>
      have moved := safe.move first.world session.dialogue session.position
      dsimp only
      rcases viewed : viewOf after.store (session.graph.line line) with fault | view
      · apply SafeResult.error moved
        exact blames_of_text waits Shows.line (viewOf_eq_error viewed)
      · dsimp only
        split
        · exact SafeResult.ok (safe.move first.world _ _)
        · rcases offered : offersOf session.graph after.store available with fault | offers
          · obtain ⟨choice, member, failed⟩ := offersOf_eq_error offered
            apply SafeResult.error moved
            exact blames_of_text waits
              (Shows.choice session.world available choice opened member) failed
          · exact SafeResult.ok (safe.move first.world _ _)

theorem arrive (safe : session.Safe kept allowed) (line : LineIndex) :
    SafeResult kept allowed (session.arrive line) := by
  have first := Registry.safe_runAll (safe.graph.commands line) safe.world
  simp only [Session.arrive]
  rcases ran : session.registry.runAll (session.graph.line line).commands session.world with
    ⟨outcome, after⟩
  rw [ran] at first
  cases outcome with
  | error fault =>
      exact SafeResult.error (safe.move first.world _ _) (.allowed (first.fault fault rfl))
  | ok done => exact (safe.move first.world session.dialogue (.ready line)).present rfl

theorem leave (safe : session.Safe kept allowed) (line : LineIndex) :
    SafeResult kept allowed (session.leave line) := by
  have first := safe.graph.afterLine line safe.world
  simp only [Session.leave]
  rcases walked : session.graph.afterLine session.registry line session.world with
    ⟨outcome, after⟩
  rw [walked] at first
  rcases outcome with fault | place
  · exact SafeResult.error (safe.move first.world _ _) (.allowed (first.fault fault rfl))
  · cases place with
    | none => exact SafeResult.ok (safe.move first.world _ _)
    | some next => exact (safe.move first.world session.dialogue (.reached next)).arrive next

theorem next (safe : session.Safe kept allowed) : SafeResult kept allowed session.next := by
  unfold Session.next
  split
  · exact SafeResult.error safe (.turn _)
  · exact SafeResult.ok safe
  · exact SafeResult.ok safe
  · exact safe.leave _
  · exact safe.arrive _
  · rename_i line waits
    exact safe.present waits

theorem start (safe : session.Safe kept allowed) (title : String) :
    SafeResult kept allowed (session.start title) := by
  simp only [Session.start, Graph.entry]
  rcases declared : session.graph.entries.get? title with _ | entry
  · exact SafeResult.error safe (.dialogue title)
  · have first := safe.graph.firstSpoken (some entry) safe.world
    dsimp only
    rcases walked : session.graph.firstSpoken session.registry (some entry) session.world with
      ⟨outcome, after⟩
    rw [walked] at first
    cases outcome with
    | error fault =>
        exact SafeResult.error (safe.move first.world _ _) (.allowed (first.fault fault rfl))
    | ok place => exact SafeResult.ok (safe.move first.world _ _)

theorem restart (safe : session.Safe kept allowed) :
    SafeResult kept allowed session.restart := by
  unfold Session.restart
  split
  · exact safe.start _
  · exact SafeResult.error safe (.turn _)

theorem choose (safe : session.Safe kept allowed) (index : Nat) :
    SafeResult kept allowed (session.choose index) := by
  unfold Session.choose
  split
  · exact SafeResult.error safe (.turn _)
  · split
    · exact SafeResult.error safe (.turn _)
    · rename_i offer _
      obtain ⟨first, marked⟩ := safe.graph.select offer.choice safe.world
      have chosen : ∀ position, ({ session with
          graph := (session.graph.select session.registry offer.choice session.world).graph
          world := (session.graph.select session.registry offer.choice session.world).world
          position := position } : Session σ).Safe kept allowed :=
        fun _ => ⟨marked, first.world⟩
      dsimp only
      split
      · rename_i fault failed
        exact SafeResult.error (chosen _) (.allowed (first.fault fault failed))
      · exact SafeResult.ok (chosen _)

/-- Every operation on a safe session leaves a safe session, provided that a
variable is only set to what the calls can live with. -/
theorem operate (safe : session.Safe kept allowed) (operation : Operation)
    (fits : ∀ name value, operation = .set name value →
      kept (session.setVariable name value).world) :
    SafeResult kept allowed (session.operate operation) := by
  cases operation with
  | start title => exact (safe.start title).map _
  | next => exact safe.next.map _
  | choose index => exact (safe.choose index).map _
  | restart => exact safe.restart.map _
  | finish => exact SafeResult.ok (safe.move safe.world _ _)
  | set name value => exact SafeResult.ok ⟨safe.graph, fits name value rfl⟩

/-- Setting a variable never fails, so a fault is to be blamed whatever is set. -/
theorem blames_of_operate (safe : session.Safe kept allowed) {operation : Operation}
    {fault : Fault} (failed : (session.operate operation).1 = .error fault) :
    (session.operate operation).2.Blames allowed fault := by
  have sets : ∀ name value, operation ≠ .set name value := by
    rintro name value rfl
    cases failed
  have fits : ∀ name value, operation = .set name value →
      kept (session.setVariable name value).world :=
    fun name value same => absurd same (sets name value)
  exact (safe.operate operation fits).fault fault failed

end Safe

end Session

end Parley
