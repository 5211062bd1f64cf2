import Parley.Proofs.Graph.Forward
import Parley.Proofs.Graph.Marks
import Parley.Proofs.Registry.Fault

/-!
# Walks are short

A walk is given up once it has crossed too many relays.  Where relays only pass on, a walk
crosses two at most: one with a branch where a dialogue begins, and one without where an arm
or a choice has no line of its own.  So no walk is ever given up.
-/

namespace Parley

variable {σ : Type}

/-- An outcome that is not that of a walk which was given up. -/
def Arrives {α : Type} (outcome : Except Fault α) : Prop :=
  ∀ limit, outcome ≠ .error (.walkTooLong limit)

theorem Arrives.ok {α : Type} (value : α) : Arrives (.ok value) := by
  intro limit failed
  cases failed

/-- A call that fails is no walk. -/
theorem Fault.IsOfCall.arrives {α : Type} {fault : Fault} (ofCall : fault.IsOfCall) :
    Arrives (.error fault : Except Fault α) := by
  intro limit failed
  cases failed
  cases ofCall

/-- What an operation would have given does not matter where it fails. -/
theorem Arrives.of_error {α β : Type} {fault : Fault}
    (arrives : Arrives (.error fault : Except Fault α)) :
    Arrives (.error fault : Except Fault β) := by
  intro limit failed
  cases failed
  exact arrives limit rfl

namespace Graph

/-- The relays that a walk crosses, looking at no more than `fuel` places. -/
def crossedWithin (graph : Graph) (registry : Registry σ) :
    Nat → Option LineIndex → World σ → List LineIndex
  | 0, _, _ => []
  | _ + 1, none, _ => []
  | fuel + 1, some id, world =>
      if (graph.line id).isRelay then
        id :: match graph.afterRelay registry (graph.line id) world with
          | (.error _, _) => []
          | (.ok next, world) => graph.crossedWithin registry fuel next world
      else []

/-- The relays that are crossed from a place to the first spoken line. -/
def crossed (graph : Graph) (registry : Registry σ) (start : Option LineIndex)
    (world : World σ) : List LineIndex :=
  graph.crossedWithin registry walkLimit start world

/-- The relays that are crossed where a branch or a successor is followed. -/
def crossedFollowing (graph : Graph) (registry : Registry σ) (branch : Option BranchIndex)
    (next : Option LineIndex) (world : World σ) : List LineIndex :=
  match branch with
  | some branch =>
      match takenArm registry (graph.branch branch).arms world with
      | (.error _, _) => []
      | (.ok body, world) => graph.crossed registry body world
  | none => graph.crossed registry next world

/-- The relays that are crossed where a choice is made. -/
def crossedSelecting (graph : Graph) (registry : Registry σ) (id : ChoiceIndex)
    (world : World σ) : List LineIndex :=
  let choice := graph.choice id
  match registry.runAll choice.commands world with
  | (.error _, _) => []
  | (.ok (), world) =>
      (graph.markSelected id).crossedFollowing registry choice.branch choice.next world

/-- However a walk begins, it crosses two relays at most, so it need not look at more than three
places, and it is never given up. -/
structure WalksShort (graph : Graph) (registry : Registry σ) (world : World σ) : Prop where
  firstSpoken : ∀ start, (graph.crossed registry start world).length ≤ 2 ∧
    graph.firstSpoken registry start world = graph.firstSpokenWithin registry 3 start world ∧
    Arrives (graph.firstSpoken registry start world).1
  throughBranch : ∀ branch, (graph.crossedFollowing registry (some branch) none world).length ≤ 2 ∧
    Arrives (graph.throughBranch registry branch world).1
  afterLine : ∀ id, (graph.crossedFollowing registry (graph.line id).branch (graph.line id).next
      world).length ≤ 2 ∧
    Arrives (graph.afterLine registry id world).1
  select : ∀ id, (graph.crossedSelecting registry id world).length ≤ 2 ∧
    Arrives (graph.select registry id world).outcome

variable {graph : Graph} {registry : Registry σ} {id : LineIndex}

theorem arrives_takenArm (registry : Registry σ) (arms : List Arm) (world : World σ) :
    Arrives (takenArm registry arms world).1 := by
  induction arms generalizing world with
  | nil =>
      intro limit failed
      cases failed
  | cons arm rest ih =>
      unfold takenArm
      split
      · rename_i asked
        exact (Registry.isOfCall_of_allHold (congrArg Prod.fst asked)).arrives
      · exact .ok _
      · exact ih _

theorem arrives_afterRelay (graph : Graph) (registry : Registry σ) (relay : Line)
    (world : World σ) : Arrives (graph.afterRelay registry relay world).1 := by
  unfold afterRelay
  split
  · exact arrives_takenArm registry _ world
  · exact .ok _

/-- A walk that is given up has crossed as many relays as it may look at places. -/
theorem le_length_crossedWithin {fuel limit : Nat} {start : Option LineIndex} {world : World σ}
    (failed : (graph.firstSpokenWithin registry fuel start world).1 =
      .error (.walkTooLong limit)) :
    fuel ≤ (graph.crossedWithin registry fuel start world).length := by
  induction fuel generalizing start world with
  | zero => exact Nat.zero_le _
  | succ fuel ih =>
      cases start with
      | none => cases failed
      | some id =>
          have passed := graph.arrives_afterRelay registry (graph.line id) world
          unfold firstSpokenWithin at failed
          unfold crossedWithin
          by_cases relay : (graph.line id).isRelay = true
          · rw [if_pos relay] at failed ⊢
            rcases ran : graph.afterRelay registry (graph.line id) world with ⟨fault | next, between⟩
            · rw [ran] at failed passed
              cases failed
              exact absurd rfl (passed limit)
            · rw [ran] at failed
              exact Nat.succ_le_succ (ih failed)
          · rw [if_neg relay] at failed
            cases failed

/-- A walk that may look at a place more than it crosses relays may as well look at others. -/
theorem firstSpokenWithin_of_crossedWithin {fuel : Nat} {start : Option LineIndex}
    {world : World σ} (few : (graph.crossedWithin registry fuel start world).length < fuel)
    (more : Nat) : graph.firstSpokenWithin registry (fuel + more) start world =
      graph.firstSpokenWithin registry fuel start world := by
  induction fuel generalizing start world with
  | zero => cases few
  | succ fuel ih =>
      rw [Nat.succ_add]
      cases start with
      | none => rfl
      | some id =>
          simp only [firstSpokenWithin]
          unfold crossedWithin at few
          split
          · rename_i relay
            rw [if_pos relay] at few
            split <;> rename_i ran <;> simp only [ran] at few
            · rfl
            · exact ih (Nat.lt_of_succ_lt_succ few)
          · rfl

namespace RelaysPass

/-- Which choices have been made is no matter of the relays. -/
theorem remembers {before after : Graph} (pass : before.RelaysPass)
    (same : before.Remembers after) : after.RelaysPass := by
  refine pass.of_lines_eq same.lines ?_ ?_ fun title id found => same.entries ▸ found
  · intro id target leads
    rw [same.branch] at leads
    exact Or.inl leads
  · intro id target leads
    obtain ⟨selected, unchanged⟩ := same.choice id
    rw [unchanged] at leads
    exact Or.inl leads

variable (pass : graph.RelaysPass)

theorem crossedWithin_of_speaks (speaks : graph.Speaks id) (fuel : Nat) (world : World σ) :
    graph.crossedWithin registry fuel (some id) world = [] := by
  cases fuel with
  | zero => rfl
  | succ fuel => rw [crossedWithin, if_neg (by rw [speaks]; exact Bool.false_ne_true)]

include pass

/-- From a line on which a link lands, one relay is crossed at most. -/
theorem length_crossedWithin_of_lands (lands : graph.Lands id) (fuel : Nat) (world : World σ) :
    (graph.crossedWithin registry fuel (some id) world).length ≤ 1 := by
  cases fuel with
  | zero => exact Nat.zero_le 1
  | succ fuel =>
      unfold crossedWithin
      split
      · rename_i relay
        simp only [afterRelay, lands.unbranched relay]
        rcases linked : (graph.line id).next with _ | next
        · cases fuel <;> exact Nat.le_refl 1
        · rw [crossedWithin_of_speaks (pass.next id next linked)]
          exact Nat.le_refl 1
      · exact Nat.zero_le 1

/-- A walk crosses two relays at most, wherever it begins. -/
theorem length_crossedWithin_le (fuel : Nat) (start : Option LineIndex) (world : World σ) :
    (graph.crossedWithin registry fuel start world).length ≤ 2 := by
  rcases fuel with _ | fuel
  · exact Nat.zero_le 2
  · rcases start with _ | id
    · exact Nat.zero_le 2
    · unfold crossedWithin
      split
      · -- The relay leads into an arm, or on to a spoken line.
        apply Nat.succ_le_succ
        split
        · exact Nat.zero_le 1
        · rename_i next between ran
          rcases next with _ | next
          · cases fuel <;> exact Nat.zero_le 1
          · unfold afterRelay at ran
            split at ran
            · rename_i branch _
              have lands := pass.arm branch next (leadsTo_of_takenArm ran)
              exact pass.length_crossedWithin_of_lands lands fuel between
            · have linked := Except.ok.inj (congrArg Prod.fst ran)
              have speaks := pass.next id next linked
              exact pass.length_crossedWithin_of_lands speaks.lands fuel between
      · exact Nat.zero_le 2

theorem length_crossed_le (registry : Registry σ) (start : Option LineIndex) (world : World σ) :
    (graph.crossed registry start world).length ≤ 2 :=
  pass.length_crossedWithin_le walkLimit start world

/-- No walk is given up. -/
theorem arrives_firstSpoken (start : Option LineIndex) (world : World σ) :
    Arrives (graph.firstSpoken registry start world).1 := by
  intro limit failed
  have many := le_length_crossedWithin failed
  have few := pass.length_crossed_le registry start world
  exact absurd (Nat.le_trans many few) (by decide)

theorem length_crossedFollowing_le (branch : Option BranchIndex) (next : Option LineIndex)
    (world : World σ) : (graph.crossedFollowing registry branch next world).length ≤ 2 := by
  unfold crossedFollowing
  split
  · split
    · exact Nat.zero_le 2
    · exact pass.length_crossed_le registry _ _
  · exact pass.length_crossed_le registry next world

theorem arrives_follow (branch : Option BranchIndex) (next : Option LineIndex)
    (world : World σ) : Arrives (graph.follow registry branch next world).1 := by
  unfold follow
  split
  · rename_i branch
    have taken := arrives_takenArm registry (graph.branch branch).arms world
    unfold throughBranch
    split <;> rename_i ran
    · rw [ran] at taken
      exact taken
    · exact pass.arrives_firstSpoken _ _
  · exact pass.arrives_firstSpoken next world

theorem arrives_afterLine (id : LineIndex) (world : World σ) :
    Arrives (graph.afterLine registry id world).1 :=
  pass.arrives_follow _ _ world

theorem arrives_select (id : ChoiceIndex) (world : World σ) :
    Arrives (graph.select registry id world).outcome := by
  simp only [select]
  split <;> rename_i ran
  · exact (Registry.isOfCall_of_runAll (congrArg Prod.fst ran)).arrives
  · exact (pass.remembers (.markSelected graph id)).arrives_follow _ _ _

theorem length_crossedSelecting_le (id : ChoiceIndex) (world : World σ) :
    (graph.crossedSelecting registry id world).length ≤ 2 := by
  simp only [crossedSelecting]
  split
  · exact Nat.zero_le 2
  · exact (pass.remembers (.markSelected graph id)).length_crossedFollowing_le _ _ _

theorem walksShort (registry : Registry σ) (world : World σ) : graph.WalksShort registry world where
  firstSpoken start := by
    have few : (graph.crossedWithin registry 3 start world).length < 3 :=
      Nat.lt_succ_of_le (pass.length_crossedWithin_le 3 start world)
    exact ⟨pass.length_crossed_le registry start world,
      firstSpokenWithin_of_crossedWithin few (walkLimit - 3),
      pass.arrives_firstSpoken start world⟩
  throughBranch branch := ⟨pass.length_crossedFollowing_le (some branch) none world,
    pass.arrives_follow (some branch) none world⟩
  afterLine id := ⟨pass.length_crossedFollowing_le _ _ world, pass.arrives_afterLine id world⟩
  select id := ⟨pass.length_crossedSelecting_le id world, pass.arrives_select id world⟩

end RelaysPass

end Graph

end Parley
