import Parley.Proofs.Graph.Walks

/-!
# Chains of relays

Relays without branches form chains: each hands on to the next, until a spoken line or nothing
follows.  A walk along a chain asks no condition and changes nothing.  It has to look at the place
where the chain ends as it looks at every relay before, so a chain of as many relays as a walk may
look at places is given up although it ends.
-/

namespace Parley

variable {σ : Type}

namespace Graph

/-- Following successors from one place to another crosses exactly `count` relays, none of which
has a branch. -/
inductive Crosses (graph : Graph) : Nat → Option LineIndex → Option LineIndex → Prop
  | here (place : Option LineIndex) : graph.Crosses 0 place place
  | relay {count : Nat} {id : LineIndex} {stop : Option LineIndex}
      (known : id < graph.lines.size) (relay : (graph.line id).isRelay = true)
      (unbranched : (graph.line id).branch = none)
      (rest : graph.Crosses count (graph.line id).next stop) :
      graph.Crosses (count + 1) (some id) stop

/-- A chain ends at a place: nothing follows there, or a spoken line. -/
def IsStop (graph : Graph) (place : Option LineIndex) : Prop :=
  ∀ id, place = some id → graph.Speaks id

variable {graph : Graph} {count more fuel : Nat} {start middle stop : Option LineIndex}

theorem Speaks.isStop {id : LineIndex} (speaks : graph.Speaks id) : graph.IsStop (some id) := by
  rintro _ ⟨⟩
  exact speaks

namespace Crosses

theorem trans (first : graph.Crosses count start middle)
    (second : graph.Crosses more middle stop) : graph.Crosses (count + more) start stop := by
  induction first with
  | here place =>
      rw [Nat.zero_add]
      exact second
  | relay known relay unbranched rest ih =>
      rw [Nat.succ_add]
      exact .relay known relay unbranched (ih second)

/-- A chain may be cut after any number of its relays. -/
theorem exists_prefix (crosses : graph.Crosses (count + more) start stop) :
    ∃ place, graph.Crosses count start place := by
  induction count generalizing start with
  | zero => exact ⟨start, .here start⟩
  | succ count ih =>
      rw [Nat.succ_add] at crosses
      cases crosses with
      | relay known relay unbranched rest =>
          obtain ⟨place, first⟩ := ih rest
          exact ⟨place, .relay known relay unbranched first⟩

/-- A chain that comes back to where it begins crosses as many relays as one likes. -/
theorem exists_around (cycle : graph.Crosses (count + 1) start start) (many : Nat) :
    ∃ place, graph.Crosses many start place := by
  have around : ∀ rounds, ∃ total, rounds ≤ total ∧ graph.Crosses total start start := by
    intro rounds
    induction rounds with
    | zero => exact ⟨0, Nat.le_refl 0, .here start⟩
    | succ rounds ih =>
        obtain ⟨total, enough, crosses⟩ := ih
        refine ⟨total + (count + 1), ?_, crosses.trans cycle⟩
        exact Nat.add_le_add enough (Nat.le_add_left 1 count)
  obtain ⟨total, enough, crosses⟩ := around many
  rw [← Nat.add_sub_cancel' enough] at crosses
  exact crosses.exists_prefix

variable {registry : Registry σ} {world : World σ}

/-- A walk along a chain looks at one place for every relay, and nothing else comes of it. -/
theorem firstSpokenWithin (crosses : graph.Crosses count start stop) (fuel : Nat) :
    graph.firstSpokenWithin registry (fuel + count) start world =
      graph.firstSpokenWithin registry fuel stop world := by
  induction crosses with
  | here place => rfl
  | @relay count id stop known relay unbranched rest ih =>
      rw [← Nat.add_assoc, Graph.firstSpokenWithin]
      simp only [relay, if_true, afterRelay, unbranched]
      exact ih

/-- A walk that reaches the end of a chain with a look to spare ends there. -/
theorem firstSpoken_of_lt (crosses : graph.Crosses count start stop) (stops : graph.IsStop stop)
    (few : count < walkLimit) : graph.firstSpoken registry start world = (.ok stop, world) := by
  obtain ⟨spare, enough⟩ := Nat.exists_eq_add_of_lt few
  have looks : walkLimit = spare + 1 + count := by
    rw [enough]
    omega
  rw [firstSpoken, looks, crosses.firstSpokenWithin]
  cases stop with
  | none => rfl
  | some id =>
      have spoken : (graph.line id).isRelay = false := stops id rfl
      rw [Graph.firstSpokenWithin]
      simp [spoken]

/-- A walk that has looked at no place but relays is given up. -/
theorem firstSpoken_of_le (crosses : graph.Crosses count start stop) (many : walkLimit ≤ count) :
    graph.firstSpoken registry start world = (.error (.walkTooLong walkLimit), world) := by
  rw [← Nat.add_sub_cancel' many] at crosses
  obtain ⟨place, first⟩ := crosses.exists_prefix
  have all : graph.firstSpokenWithin registry (0 + walkLimit) start world =
      graph.firstSpokenWithin registry 0 place world := first.firstSpokenWithin 0
  rw [Nat.zero_add] at all
  rw [firstSpoken, all, Graph.firstSpokenWithin]

end Crosses

/-- A walk crosses no more relays than it looks at places. -/
theorem length_crossedWithin_le_fuel (graph : Graph) (registry : Registry σ) (fuel : Nat)
    (start : Option LineIndex) (world : World σ) :
    (graph.crossedWithin registry fuel start world).length ≤ fuel := by
  induction fuel generalizing start world with
  | zero => exact Nat.le_refl 0
  | succ fuel ih =>
      cases start with
      | none => exact Nat.zero_le _
      | some id =>
          unfold crossedWithin
          split
          · apply Nat.succ_le_succ
            split
            · exact Nat.zero_le _
            · exact ih _ _
          · exact Nat.zero_le _

/-- A walk along a chain of relays is given up exactly if it has to cross more of them than the
limit, and else ends where the chain does. -/
structure HonoursLimit (graph : Graph) (registry : Registry σ) (world : World σ) (count : Nat)
    (start stop : Option LineIndex) : Prop where
  reached : count ≤ walkLimit → graph.firstSpoken registry start world = (.ok stop, world)
  givenUp : walkLimit < count →
    graph.firstSpoken registry start world = (.error (.walkTooLong walkLimit), world)

/-- A walk along a chain that ends honours the limit exactly if the chain does not have as many
relays as the limit; a chain of that length is given up like every longer one.  A chain that goes
on past the limit, whether or not it ends, is always given up, and so is one that comes back to
where it begins.  No walk at all is given up before it has crossed as many relays as the limit. -/
theorem honoursLimit_iff (graph : Graph) (registry : Registry σ) (world : World σ)
    (start : Option LineIndex) :
    (∀ count stop, graph.Crosses count start stop → graph.IsStop stop →
      (graph.HonoursLimit registry world count start stop ↔ count ≠ walkLimit) ∧
      (count < walkLimit → graph.firstSpoken registry start world = (.ok stop, world)) ∧
      (walkLimit ≤ count →
        graph.firstSpoken registry start world = (.error (.walkTooLong walkLimit), world))) ∧
    (∀ count stop, walkLimit < count → graph.Crosses count start stop →
      graph.firstSpoken registry start world = (.error (.walkTooLong walkLimit), world)) ∧
    (∀ count, graph.Crosses (count + 1) start start →
      graph.firstSpoken registry start world = (.error (.walkTooLong walkLimit), world)) ∧
    ∀ limit, (graph.firstSpoken registry start world).1 = .error (.walkTooLong limit) →
      (graph.crossed registry start world).length = walkLimit := by
  refine ⟨fun count stop crosses stops => ?_, fun count stop more crosses => ?_,
    fun count cycle => ?_, fun limit failed => ?_⟩
  · have few : count < walkLimit → graph.firstSpoken registry start world = (.ok stop, world) :=
      crosses.firstSpoken_of_lt stops
    have many : walkLimit ≤ count →
        graph.firstSpoken registry start world = (.error (.walkTooLong walkLimit), world) :=
      crosses.firstSpoken_of_le
    refine ⟨⟨fun honours exact => ?_, fun other => ⟨fun within => ?_, fun beyond => ?_⟩⟩, few, many⟩
    · have reached := honours.reached (Nat.le_of_eq exact)
      rw [many (Nat.le_of_eq exact.symm)] at reached
      cases congrArg Prod.fst reached
    · exact few (Nat.lt_of_le_of_ne within other)
    · exact many (Nat.le_of_lt beyond)
  · exact crosses.firstSpoken_of_le (Nat.le_of_lt more)
  · obtain ⟨place, crosses⟩ := cycle.exists_around walkLimit
    exact crosses.firstSpoken_of_le (Nat.le_refl walkLimit)
  · exact Nat.le_antisymm (graph.length_crossedWithin_le_fuel registry walkLimit start world)
      (le_length_crossedWithin failed)

/-- A chain of relays that ends on a spoken line. -/
def relayChain (count : Nat) : Graph :=
  let relays := Array.ofFn fun place : Fin count => { Line.relay with next := some (place + 1) }
  Graph.addLine ⟨.empty, relays, #[], #[]⟩ (Line.spoken "A" "end" neutral [])

theorem line_relayChain_of_lt {place : Nat} (before : place < count) :
    (relayChain count).line place = { Line.relay with next := some (place + 1) } := by
  rw [relayChain, line_addLine_of_lt]
  · simp [line, Array.getD_eq_getD_getElem?, before]
  · simpa using before

theorem line_relayChain_self (count : Nat) :
    (relayChain count).line count = Line.spoken "A" "end" neutral [] := by
  simp [relayChain, line_addLine]

theorem speaks_relayChain (count : Nat) : (relayChain count).Speaks count := by
  rw [Speaks, line_relayChain_self]
  rfl

/-- The relays of a chain are crossed from any of them on. -/
theorem crosses_relayChain {place : Nat} (length : place + more = count) :
    (relayChain count).Crosses more (some place) (some count) := by
  induction more generalizing place with
  | zero =>
      cases length
      exact .here (some place)
  | succ more ih =>
      have before : place < count := by omega
      have next := line_relayChain_of_lt before
      have known : place < (relayChain count).lines.size := by
        simpa [relayChain] using Nat.lt_succ_of_lt before
      refine .relay known (by rw [next]; rfl) (by rw [next]; rfl) ?_
      rw [next]
      exact ih (by omega)

/-- The longest chain that is followed to its end, and two relays that hand on to one another. -/
theorem honoursLimit_of_shorter_chain :
    let world : World Unit := ⟨.empty, ()⟩
    (relayChain 9999).firstSpoken Registry.builtin (some 0) world = (.ok (some 9999), world) ∧
      (let circle : Graph := ⟨.empty,
        #[{ Line.relay with next := some 1 }, { Line.relay with next := some 0 }], #[], #[]⟩
      circle.firstSpoken Registry.builtin (some 0) world =
        (.error (.walkTooLong 10000), world)) := by
  intro world
  constructor
  · obtain ⟨chains, -⟩ := honoursLimit_iff (relayChain 9999) Registry.builtin world (some 0)
    have crosses : (relayChain 9999).Crosses 9999 (some 0) (some 9999) :=
      crosses_relayChain (Nat.zero_add 9999)
    obtain ⟨honours, -⟩ := chains 9999 (some 9999) crosses (speaks_relayChain 9999).isStop
    exact (honours.mpr (by decide)).reached (by decide)
  · intro circle
    obtain ⟨-, -, cycles, -⟩ := honoursLimit_iff circle Registry.builtin world (some 0)
    exact cycles 1 (.relay (by decide) rfl rfl (.relay (by decide) rfl rfl (.here _)))

/-- A chain with as many relays as the limit is given up, although it crosses no more than that and
ends on a spoken line. -/
theorem not_honoursLimit_of_chain :
    let world : World Unit := ⟨.empty, ()⟩
    let graph := relayChain 10000
    graph.Crosses 10000 (some 0) (some 10000) ∧ graph.Speaks 10000 ∧
      graph.firstSpoken Registry.builtin (some 0) world = (.error (.walkTooLong 10000), world) ∧
      ¬ graph.HonoursLimit Registry.builtin world 10000 (some 0) (some 10000) := by
  intro world graph
  have crosses : graph.Crosses 10000 (some 0) (some 10000) :=
    crosses_relayChain (Nat.zero_add 10000)
  have failed : graph.firstSpoken Registry.builtin (some 0) world =
      (.error (.walkTooLong walkLimit), world) :=
    crosses.firstSpoken_of_le (Nat.le_refl 10000)
  refine ⟨crosses, speaks_relayChain 10000, failed, fun honours => ?_⟩
  have reached := honours.reached (Nat.le_refl 10000)
  rw [failed] at reached
  cases congrArg Prod.fst reached

end Graph

end Parley
