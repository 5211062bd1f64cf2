import Parley.Command
import Parley.Graph

/-!
# Following a dialogue

Following links through a graph skips relay lines, so every stop is a spoken
line or the end of the dialogue.  Where there is a branch, the first arm whose
conditions hold is taken.  A walk that passes too many relays is given up; the
compiler makes no such graph, but a walk may be asked for on any.
-/

namespace Parley

/-- The number of lines that one walk may look at. -/
def walkLimit : Nat := 10000

namespace Graph

variable {σ : Type}

/-- The body of the first arm whose conditions hold. -/
def takenArm (registry : Registry σ) : List Arm → World σ →
    Except Fault (Option LineIndex) × World σ
  | [], world => (.error .noApplicableArm, world)
  | arm :: rest, world =>
      match registry.allHold arm.conditions world with
      | (.error fault, world) => (.error fault, world)
      | (.ok true, world) => (.ok arm.body, world)
      | (.ok false, world) => takenArm registry rest world

/-- Where a relay leads: through its branch, if it has one, else to its
successor. -/
def afterRelay (graph : Graph) (registry : Registry σ) (relay : Line) (world : World σ) :
    Except Fault (Option LineIndex) × World σ :=
  match relay.branch with
  | some branch => takenArm registry (graph.branch branch).arms world
  | none => (.ok relay.next, world)

/-- Skip relays, looking at no more than `fuel` places. -/
def firstSpokenWithin (graph : Graph) (registry : Registry σ) :
    Nat → Option LineIndex → World σ → Except Fault (Option LineIndex) × World σ
  | 0, _, world => (.error (.walkTooLong walkLimit), world)
  | _ + 1, none, world => (.ok none, world)
  | fuel + 1, some id, world =>
      let line := graph.line id
      if line.isRelay then
        match graph.afterRelay registry line world with
        | (.error fault, world) => (.error fault, world)
        | (.ok next, world) => graph.firstSpokenWithin registry fuel next world
      else (.ok (some id), world)

/-- The first spoken line from a place on; none at the end of the dialogue. -/
def firstSpoken (graph : Graph) (registry : Registry σ) (start : Option LineIndex)
    (world : World σ) : Except Fault (Option LineIndex) × World σ :=
  graph.firstSpokenWithin registry walkLimit start world

/-- The spoken line to which a branch leads. -/
def throughBranch (graph : Graph) (registry : Registry σ) (branch : BranchIndex)
    (world : World σ) : Except Fault (Option LineIndex) × World σ :=
  match takenArm registry (graph.branch branch).arms world with
  | (.error fault, world) => (.error fault, world)
  | (.ok body, world) => graph.firstSpoken registry body world

/-- Where a branch and a successor lead; the branch goes first. -/
def follow (graph : Graph) (registry : Registry σ) (branch : Option BranchIndex)
    (next : Option LineIndex) (world : World σ) : Except Fault (Option LineIndex) × World σ :=
  match branch with
  | some branch => graph.throughBranch registry branch world
  | none => graph.firstSpoken registry next world

/-- The spoken line after a line. -/
def afterLine (graph : Graph) (registry : Registry σ) (id : LineIndex) (world : World σ) :
    Except Fault (Option LineIndex) × World σ :=
  let line := graph.line id
  graph.follow registry line.branch line.next world

/-- Whether all conditions of a choice hold. -/
def canChoose (graph : Graph) (registry : Registry σ) (id : ChoiceIndex) (world : World σ) :
    Except Fault Bool × World σ :=
  registry.allHold (graph.choice id).conditions world

/-- Remember that a choice was made. -/
def markSelected (graph : Graph) (id : ChoiceIndex) : Graph :=
  graph.modifyChoice id fun choice => { choice with selected := true }

/-- The graph and the world after a choice, and the spoken line to which it
leads.  A choice whose commands fail is not remembered. -/
structure Selection (σ : Type) where
  outcome : Except Fault (Option LineIndex)
  graph : Graph
  world : World σ

/-- Make a choice: run its commands, remember it and follow it. -/
def select (graph : Graph) (registry : Registry σ) (id : ChoiceIndex) (world : World σ) :
    Selection σ :=
  let choice := graph.choice id
  match registry.runAll choice.commands world with
  | (.error fault, world) => ⟨.error fault, graph, world⟩
  | (.ok (), world) =>
      let marked := graph.markSelected id
      let (outcome, world) := marked.follow registry choice.branch choice.next world
      ⟨outcome, marked, world⟩

/-- A spoken line is where a walk from it ends. -/
theorem firstSpoken_of_spoken (graph : Graph) (registry : Registry σ) (world : World σ)
    {id : LineIndex} (spoken : (graph.line id).isRelay = false) :
    graph.firstSpoken registry (some id) world = (.ok (some id), world) := by
  simp [firstSpoken, walkLimit, firstSpokenWithin, spoken]

@[simp]
theorem firstSpoken_none (graph : Graph) (registry : Registry σ) (world : World σ) :
    graph.firstSpoken registry none world = (.ok none, world) := by
  simp [firstSpoken, walkLimit, firstSpokenWithin]

end Graph

end Parley
