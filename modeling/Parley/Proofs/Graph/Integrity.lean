import Parley.Proofs.Graph.Forward
import Parley.Proofs.Graph.Lookup
import Parley.Proofs.Graph.Marks

/-!
# Graphs that are intact

A graph is intact if every place that it names is that of a node.  A walk through an intact
graph that begins at a place of the graph looks up only what is there, and it leads to a place
of the graph again; so whatever is done with such a graph from its first lines on, no look-up
fails.  Here the walks are carried out in attempts, and the attempts come out.
-/

namespace Parley

variable {σ : Type}

namespace Graph

/-- Every place that the graph names is that of a node. -/
structure Intact (graph : Graph) : Prop where
  entries : ∀ title id, graph.entries.get? title = some id → id < graph.lines.size
  next : ∀ id target, (graph.line id).next = some target → target < graph.lines.size
  branch : ∀ id branch, (graph.line id).branch = some branch → branch < graph.branches.size
  choices : ∀ id, ∀ choice ∈ (graph.line id).choices, choice < graph.choices.size
  arm : ∀ id target, (graph.branch id).LeadsTo target → target < graph.lines.size
  choiceNext : ∀ id target, (graph.choice id).next = some target → target < graph.lines.size
  choiceBranch : ∀ id branch, (graph.choice id).branch = some branch →
    branch < graph.branches.size
  root : ∀ id < graph.choices.size, (graph.choice id).root < graph.lines.size

/-- Each choice is offered once, and that is under its root; the choices under a line are in the
order of their creation. -/
structure ListsChoices (graph : Graph) : Prop where
  once : (graph.lines.toList.flatMap Line.choices).Perm (List.range graph.choices.size)
  own : ∀ id < graph.choices.size, id ∈ (graph.line (graph.choice id).root).choices
  ordered : ∀ id, (graph.line id).choices.Pairwise (· < ·)

/-- Where the choices under a line are those that belong to it, each is offered once. -/
theorem ListsChoices.of_mem_iff {graph : Graph}
    (listed : ∀ id choice, choice ∈ (graph.line id).choices ↔
      choice < graph.choices.size ∧ (graph.choice choice).root = id)
    (ordered : ∀ id, (graph.line id).choices.Pairwise (· < ·)) : graph.ListsChoices where
  once := by
    have lineAt : ∀ (id : Nat) (known : id < graph.lines.toList.length),
        graph.lines.toList[id] = graph.line id := by
      intro id known
      rw [Array.length_toList] at known
      simp [line, known]
    have nodup : (graph.lines.toList.flatMap Line.choices).Nodup := by
      refine List.pairwise_flatMap.mpr ⟨fun line member => ?_, List.pairwise_iff_getElem.mpr ?_⟩
      · obtain ⟨id, known, rfl⟩ := List.getElem_of_mem member
        rw [lineAt]
        exact (ordered id).imp Nat.ne_of_lt
      · -- A choice has one root, so no two lines share it.
        intro early late knownEarly knownLate before choice first other second same
        rw [lineAt] at first second
        have early_eq := ((listed early choice).mp first).2
        have late_eq := ((listed late other).mp second).2
        rw [← same, early_eq] at late_eq
        exact Nat.ne_of_lt before late_eq
    rw [List.perm_ext_iff_of_nodup nodup List.nodup_range]
    intro choice
    rw [List.mem_flatMap, List.mem_range]
    constructor
    · rintro ⟨line, member, offered⟩
      obtain ⟨id, known, rfl⟩ := List.getElem_of_mem member
      rw [lineAt] at offered
      exact ((listed id choice).mp offered).1
    · intro known
      have offered := (listed _ choice).mpr ⟨known, rfl⟩
      have present := lt_of_mem_choices offered
      rw [← Array.length_toList] at present
      exact ⟨_, List.getElem_mem present, lineAt _ present ▸ offered⟩
  own id known := (listed _ id).mpr ⟨known, rfl⟩
  ordered := ordered

/-- Which choices have been made is no matter of what is there. -/
theorem Intact.remembers {before after : Graph} (intact : before.Intact)
    (same : before.Remembers after) : after.Intact := by
  have choice : ∀ id, (after.choice id).next = (before.choice id).next ∧
      (after.choice id).branch = (before.choice id).branch ∧
      (after.choice id).root = (before.choice id).root := by
    intro id
    obtain ⟨selected, unchanged⟩ := same.choice id
    rw [unchanged]
    exact ⟨rfl, rfl, rfl⟩
  constructor
  · rw [same.entries, same.lines]
    exact intact.entries
  · intro id
    rw [same.line, same.lines]
    exact intact.next id
  · intro id
    rw [same.line, same.branches]
    exact intact.branch id
  · intro id
    rw [same.line, same.size]
    exact intact.choices id
  · intro id
    rw [same.branch, same.lines]
    exact intact.arm id
  · intro id
    rw [(choice id).1, same.lines]
    exact intact.choiceNext id
  · intro id
    rw [(choice id).2.1, same.branches]
    exact intact.choiceBranch id
  · intro id
    rw [(choice id).2.2, same.size, same.lines]
    exact intact.root id

/-! ## Walking in attempts -/

/-- Where a relay leads, if its branch is there. -/
def afterRelay? (graph : Graph) (registry : Registry σ) (relay : Line) (world : World σ) :
    Option (Except Fault (Option LineIndex) × World σ) :=
  match relay.branch with
  | some branch => do
      let held ← graph.branch? branch
      return takenArm registry held.arms world
  | none => some (.ok relay.next, world)

/-- Skip relays that are there. -/
def firstSpokenWithin? (graph : Graph) (registry : Registry σ) :
    Nat → Option LineIndex → World σ → Option (Except Fault (Option LineIndex) × World σ)
  | 0, _, world => some (.error (.walkTooLong walkLimit), world)
  | _ + 1, none, world => some (.ok none, world)
  | fuel + 1, some id, world => do
      let line ← graph.line? id
      if line.isRelay then
        match ← graph.afterRelay? registry line world with
        | (.error fault, world) => return (.error fault, world)
        | (.ok next, world) => graph.firstSpokenWithin? registry fuel next world
      else return (.ok (some id), world)

/-- The first spoken line from a place on, if the walk finds its lines and branches. -/
def firstSpoken? (graph : Graph) (registry : Registry σ) (start : Option LineIndex)
    (world : World σ) : Option (Except Fault (Option LineIndex) × World σ) :=
  graph.firstSpokenWithin? registry walkLimit start world

/-- The spoken line to which a branch leads, if it is there. -/
def throughBranch? (graph : Graph) (registry : Registry σ) (branch : BranchIndex)
    (world : World σ) : Option (Except Fault (Option LineIndex) × World σ) := do
  let held ← graph.branch? branch
  match takenArm registry held.arms world with
  | (.error fault, world) => return (.error fault, world)
  | (.ok body, world) => graph.firstSpoken? registry body world

/-- Where a branch and a successor lead, if they are there. -/
def follow? (graph : Graph) (registry : Registry σ) (branch : Option BranchIndex)
    (next : Option LineIndex) (world : World σ) :
    Option (Except Fault (Option LineIndex) × World σ) :=
  match branch with
  | some branch => graph.throughBranch? registry branch world
  | none => graph.firstSpoken? registry next world

/-- The spoken line after a line that is there. -/
def afterLine? (graph : Graph) (registry : Registry σ) (id : LineIndex) (world : World σ) :
    Option (Except Fault (Option LineIndex) × World σ) := do
  let line ← graph.line? id
  graph.follow? registry line.branch line.next world

/-- Whether all conditions of a choice that is there hold. -/
def canChoose? (graph : Graph) (registry : Registry σ) (id : ChoiceIndex) (world : World σ) :
    Option (Except Fault Bool × World σ) := do
  let choice ← graph.choice? id
  return registry.allHold choice.conditions world

/-- Make a choice that is there. -/
def select? (graph : Graph) (registry : Registry σ) (id : ChoiceIndex) (world : World σ) :
    Option (Selection σ) := do
  let choice ← graph.choice? id
  match registry.runAll choice.commands world with
  | (.error fault, world) => return ⟨.error fault, graph, world⟩
  | (.ok (), world) =>
      let marked ← graph.modifyChoice? id fun choice => { choice with selected := true }
      let (outcome, world) ← marked.follow? registry choice.branch choice.next world
      return ⟨outcome, marked, world⟩

/-- An attempt at a walk finds what it needs, and what it leads to is there. -/
structure Reaches (graph : Graph) (attempt : Option (Except Fault (Option LineIndex) × World σ))
    (walk : Except Fault (Option LineIndex) × World σ) : Prop where
  found : attempt = some walk
  target : ∀ id, walk.1 = .ok (some id) → id < graph.lines.size

theorem Reaches.ends (graph : Graph) (world : World σ) :
    graph.Reaches (some (.ok none, world)) (.ok none, world) where
  found := rfl
  target _ leads := by cases leads

theorem Reaches.fails (graph : Graph) (fault : Fault) (world : World σ) :
    graph.Reaches (some (.error fault, world)) (.error fault, world) where
  found := rfl
  target _ leads := by cases leads

/-- Whatever is asked about a node that is there, every node that the answer needs is there, and
what it leads to is. -/
structure WalksWithin (graph : Graph) (registry : Registry σ) (world : World σ) : Prop where
  firstSpoken : ∀ start, (∀ id, start = some id → id < graph.lines.size) →
    graph.Reaches (graph.firstSpoken? registry start world)
      (graph.firstSpoken registry start world)
  throughBranch : ∀ branch < graph.branches.size,
    graph.Reaches (graph.throughBranch? registry branch world)
      (graph.throughBranch registry branch world)
  afterLine : ∀ id < graph.lines.size,
    graph.Reaches (graph.afterLine? registry id world) (graph.afterLine registry id world)
  canChoose : ∀ id < graph.choices.size,
    graph.canChoose? registry id world = some (graph.canChoose registry id world)
  select : ∀ id < graph.choices.size,
    graph.select? registry id world = some (graph.select registry id world) ∧
      (graph.select registry id world).graph.Intact ∧
      ∀ target, (graph.select registry id world).outcome = .ok (some target) →
        target < graph.lines.size

namespace Intact

variable {graph : Graph} (intact : graph.Intact) {registry : Registry σ}

include intact

theorem takenArm (branch : BranchIndex) (world : World σ) {target : LineIndex}
    (taken : (Graph.takenArm registry (graph.branch branch).arms world).1 = .ok (some target)) :
    target < graph.lines.size :=
  intact.arm branch target (leadsTo_of_takenArm (Prod.ext taken rfl))

theorem afterRelay? (registry : Registry σ) (id : LineIndex) (world : World σ) :
    graph.Reaches (graph.afterRelay? registry (graph.line id) world)
      (graph.afterRelay registry (graph.line id) world) := by
  unfold Graph.afterRelay? afterRelay
  rcases branched : (graph.line id).branch with _ | branch
  · exact ⟨rfl, fun target linked => intact.next id target (Except.ok.inj linked)⟩
  · refine ⟨?_, fun target taken => intact.takenArm branch world taken⟩
    simp only [branch?_eq_some (intact.branch id branch branched)]
    rfl

theorem firstSpokenWithin? (registry : Registry σ) (fuel : Nat) {start : Option LineIndex}
    (present : ∀ id, start = some id → id < graph.lines.size) (world : World σ) :
    graph.Reaches (graph.firstSpokenWithin? registry fuel start world)
      (graph.firstSpokenWithin registry fuel start world) := by
  induction fuel generalizing start world with
  | zero => exact .fails _ _ _
  | succ fuel ih =>
      cases start with
      | none => exact .ends _ _
      | some id =>
          obtain ⟨found, leads⟩ := intact.afterRelay? registry id world
          have known := present id rfl
          unfold Graph.firstSpokenWithin? firstSpokenWithin
          rw [line?_eq_some known]
          show Reaches _ (ite _ _ _) (ite _ _ _)
          by_cases relay : (graph.line id).isRelay = true
          · rw [if_pos relay, if_pos relay, found]
            rcases ran : graph.afterRelay registry (graph.line id) world with ⟨fault | next, between⟩
            · exact .fails _ _ _
            · rw [ran] at leads
              exact ih (fun target same => leads target (congrArg Except.ok same)) between
          · rw [if_neg relay, if_neg relay]
            refine ⟨rfl, fun target same => ?_⟩
            cases same
            exact known

theorem firstSpoken? (registry : Registry σ) {start : Option LineIndex}
    (present : ∀ id, start = some id → id < graph.lines.size) (world : World σ) :
    graph.Reaches (graph.firstSpoken? registry start world)
      (graph.firstSpoken registry start world) :=
  intact.firstSpokenWithin? registry walkLimit present world

theorem throughBranch? (registry : Registry σ) {branch : BranchIndex}
    (present : branch < graph.branches.size) (world : World σ) :
    graph.Reaches (graph.throughBranch? registry branch world)
      (graph.throughBranch registry branch world) := by
  have leads : ∀ id, (Graph.takenArm registry (graph.branch branch).arms world).1 =
      .ok (some id) → id < graph.lines.size :=
    fun _ taken => intact.takenArm branch world taken
  unfold Graph.throughBranch? throughBranch
  simp only [branch?_eq_some present, Option.bind_eq_bind, Option.bind_some]
  rcases ran : Graph.takenArm registry (graph.branch branch).arms world with
    ⟨fault | body, between⟩
  · exact .fails _ _ _
  · rw [ran] at leads
    exact intact.firstSpoken? registry
      (fun target same => leads target (congrArg Except.ok same)) between

theorem follow? (registry : Registry σ) {branch : Option BranchIndex} {next : Option LineIndex}
    (branched : ∀ id, branch = some id → id < graph.branches.size)
    (linked : ∀ id, next = some id → id < graph.lines.size) (world : World σ) :
    graph.Reaches (graph.follow? registry branch next world)
      (graph.follow registry branch next world) := by
  cases branch with
  | none => exact intact.firstSpoken? registry linked world
  | some branch => exact intact.throughBranch? registry (branched branch rfl) world

theorem afterLine? (registry : Registry σ) {id : LineIndex} (present : id < graph.lines.size)
    (world : World σ) :
    graph.Reaches (graph.afterLine? registry id world) (graph.afterLine registry id world) := by
  unfold Graph.afterLine? afterLine
  rw [line?_eq_some present]
  exact intact.follow? registry (intact.branch id) (intact.next id) world

omit intact in
theorem canChoose?_eq_some (registry : Registry σ) {id : ChoiceIndex}
    (present : id < graph.choices.size) (world : World σ) :
    graph.canChoose? registry id world = some (graph.canChoose registry id world) := by
  unfold canChoose?
  rw [choice?_eq_some present]
  rfl

/-- Making a choice that is there leads to a place of the graph, whatever comes of it. -/
theorem select? (registry : Registry σ) {id : ChoiceIndex} (present : id < graph.choices.size)
    (world : World σ) :
    graph.select? registry id world = some (graph.select registry id world) ∧
      (graph.select registry id world).graph.Intact ∧
      ∀ target, (graph.select registry id world).outcome = .ok (some target) →
        target < graph.lines.size := by
  have marked : (graph.markSelected id).Intact := intact.remembers (.markSelected graph id)
  have changed : graph.modifyChoice? id (fun choice => { choice with selected := true }) =
      some (graph.markSelected id) := modifyChoice?_eq_some present _
  unfold Graph.select? select
  simp only [choice?_eq_some present, Option.bind_eq_bind, Option.bind_some]
  rcases registry.runAll (graph.choice id).commands world with ⟨fault | done, between⟩
  · exact ⟨rfl, intact, fun _ leads => by cases leads⟩
  · obtain ⟨found, leads⟩ := marked.follow? registry (intact.choiceBranch id)
      (intact.choiceNext id) between
    refine ⟨?_, marked, leads⟩
    simp only [changed, Option.bind_some, found]
    rfl

theorem walksWithin (registry : Registry σ) (world : World σ) :
    graph.WalksWithin registry world where
  firstSpoken _ present := intact.firstSpoken? registry present world
  throughBranch _ present := intact.throughBranch? registry present world
  afterLine _ present := intact.afterLine? registry present world
  canChoose _ present := canChoose?_eq_some registry present world
  select _ present := intact.select? registry present world

end Intact

end Graph

end Parley
