import Parley.Proofs.Session.Forward

/-!
# Where a session can be

A session is at no place exactly if no dialogue is named.  Whatever line it is at is spoken:
walks stop at no other line.  The choices that wait are some of those under the line, in their
order, counted from zero, and there is one at least.  All of this holds when a session begins
and after every move, also after one that fails.
-/

namespace Parley

variable {σ : Type}

/-- Some of the choices that are listed are offered: in the order in which they are listed, and
counted from zero. -/
structure IsMenu (listed : List ChoiceIndex) (offers : List Offer) : Prop where
  offered : offers ≠ []
  counted : offers.map Offer.index = List.range offers.length
  listed : (offers.map Offer.choice).Sublist listed

/-- A position at which a session on a graph can be. -/
def Position.IsPlaced (graph : Graph) : Position → Prop
  | .idle | .finished => True
  | .reached line | .ready line | .shown line => graph.Speaks line
  | .choosing line _ offers => graph.Speaks line ∧ IsMenu (graph.line line).choices offers

/-- Which choices have been made is no matter of the place. -/
theorem Position.IsPlaced.remembers {before after : Graph} {position : Position}
    (placed : position.IsPlaced before) (same : before.Remembers after) :
    position.IsPlaced after := by
  cases position with
  | idle => trivial
  | finished => trivial
  | reached line => exact Graph.Speaks.of_lines_eq placed same.lines
  | ready line => exact Graph.Speaks.of_lines_eq placed same.lines
  | shown line => exact Graph.Speaks.of_lines_eq placed same.lines
  | choosing line view offers =>
      refine ⟨placed.1.of_lines_eq same.lines, ?_⟩
      rw [same.line]
      exact placed.2

theorem Position.isPlaced_ofWalk {graph : Graph} {place : Option LineIndex}
    (speaks : ∀ line, place = some line → graph.Speaks line) :
    (Position.ofWalk place).IsPlaced graph := by
  cases place with
  | none => trivial
  | some line => exact speaks line rfl

theorem Position.ofWalk_ne_idle (place : Option LineIndex) : Position.ofWalk place ≠ .idle := by
  cases place <;> simp [Position.ofWalk]

namespace Session

/-- A session is where it can be: it is idle exactly if no dialogue is named. -/
structure WellPlaced (session : Session σ) : Prop where
  idle : session.position = .idle ↔ session.dialogue = none
  placed : session.position.IsPlaced session.graph

namespace WellPlaced

theorem ofGraph (graph : Graph) (registry : Registry σ) (world : World σ) :
    (Session.ofGraph graph registry world).WellPlaced where
  idle := ⟨fun _ => rfl, fun _ => rfl⟩
  placed := True.intro

variable {session : Session σ} (well : session.WellPlaced) {id : LineIndex}

include well

theorem withWorld (world : World σ) : { session with world := world }.WellPlaced :=
  ⟨well.idle, well.placed⟩

/-- A session in a dialogue can go on to another place in it. -/
theorem moveTo (active : session.position ≠ .idle) (world : World σ) {position : Position}
    (stays : position ≠ .idle) (placed : position.IsPlaced session.graph) :
    { session with world := world, position := position }.WellPlaced where
  idle := iff_of_false stays fun left => active (well.idle.mpr left)
  placed := placed

/-- Showing a line leaves a session at it, whether or not it can be shown. -/
theorem present (active : session.position ≠ .idle) (speaks : session.graph.Speaks id) :
    (session.present id).2.WellPlaced := by
  simp only [Session.present]
  split
  · exact well.withWorld _
  · rename_i available world opened
    split
    · exact well.withWorld _
    · split
      · exact well.moveTo active world (by simp) speaks
      · rename_i some
        split
        · exact well.withWorld _
        · rename_i offers offered
          obtain ⟨choices, indices⟩ := choices_of_offersOf offered
          have length : offers.length = available.length := by
            rw [← choices, List.length_map]
          refine well.moveTo active world (by simp) ⟨speaks, ?_, ?_, ?_⟩
          · rintro rfl
            rw [← choices] at some
            exact some rfl
          · rw [indices, length]
          · rw [choices]
            exact sublist_of_openChoices opened

theorem arrive (active : session.position ≠ .idle) (speaks : session.graph.Speaks id) :
    (session.arrive id).2.WellPlaced := by
  simp only [Session.arrive]
  split
  · exact well.withWorld _
  · rename_i world _
    have ready : { session with world := world, position := .ready id }.WellPlaced :=
      well.moveTo active world (by simp) speaks
    exact ready.present (by simp) speaks

theorem leave (active : session.position ≠ .idle) : (session.leave id).2.WellPlaced := by
  simp only [Session.leave]
  split
  · exact well.withWorld _
  · exact well.moveTo active _ (by simp) trivial
  · rename_i next world left
    have speaks : session.graph.Speaks next := Graph.speaks_of_follow left
    have reached : { session with world := world, position := .reached next }.WellPlaced :=
      well.moveTo active world (by simp) speaks
    exact reached.arrive (by simp) speaks

theorem next : session.next.2.WellPlaced := by
  have placed := well.placed
  unfold Session.next
  split <;> rename_i here
  · exact well
  · exact well
  · exact well
  · exact well.leave (by simp [here])
  · rw [here] at placed
    exact well.arrive (by simp [here]) placed
  · rw [here] at placed
    exact well.present (by simp [here]) placed

theorem start (title : String) : (session.start title).2.WellPlaced := by
  simp only [Session.start]
  split
  · exact well
  · split
    · exact well.withWorld _
    · rename_i first world walked
      constructor
      · exact iff_of_false (Position.ofWalk_ne_idle first) (by simp)
      · apply Position.isPlaced_ofWalk
        rintro line rfl
        exact Graph.speaks_of_firstSpoken walked

theorem restart : session.restart.2.WellPlaced := by
  unfold Session.restart
  split
  · exact well.start _
  · exact well

theorem choose (index : Nat) : (session.choose index).2.WellPlaced := by
  rcases pending : session.pending? with _ | offers
  · simpa only [Session.choose, pending] using well
  · have active : session.position ≠ .idle := by
      intro idle
      simp [Session.pending?, idle] at pending
    simp only [Session.choose, pending]
    split
    · exact well
    · rename_i offer _
      have same := session.graph.remembers_select session.registry offer.choice session.world
      -- The mark of the choice does not matter to where the session is.
      have marked : ({ session with
          graph := (session.graph.select session.registry offer.choice session.world).graph }
            : Session σ).WellPlaced := ⟨well.idle, well.placed.remembers same⟩
      split
      · exact marked.withWorld _
      · rename_i next made
        apply marked.moveTo active _ (Position.ofWalk_ne_idle next)
        apply Position.isPlaced_ofWalk
        rintro line rfl
        exact (Graph.speaks_of_select made).of_lines_eq same.lines

/-- A session is still where it can be after a move. -/
theorem move (move : Move σ) : (session.move move).WellPlaced := by
  rcases move with (title | _ | index | _ | _ | ⟨name, value⟩) | ⟨registry, world⟩
  · exact well.start title
  · exact well.next
  · exact well.choose index
  · exact well.restart
  · exact ⟨iff_of_true rfl rfl, trivial⟩
  · exact well.withWorld _
  · exact ⟨well.idle, well.placed⟩

theorem afterMoves (moves : List (Move σ)) : (session.afterMoves moves).WellPlaced := by
  induction moves generalizing session with
  | nil => exact well
  | cons move rest ih => exact ih (well.move move)

end WellPlaced

end Session

end Parley
