import Parley.Call
import Parley.NameMap

/-!
# Dialogue graphs

A compiled script is a graph of lines, branches and choices.  Nodes refer to one
another by their place in the order of creation.  A line is spoken, or it is a
relay: a line without text that only passes on to what follows it.  A branch has
arms guarded by conditions.  A choice belongs to the line under which it is
offered, its root.

A look-up of a place that holds no node gives a node without links, so following
links is total; the compiler never makes such a link.
-/

namespace Parley

/-- The place of a line in the order of creation. -/
abbrev LineIndex := Nat

/-- The place of a branch in the order of creation. -/
abbrev BranchIndex := Nat

/-- The place of a choice in the order of creation. -/
abbrev ChoiceIndex := Nat

/-- The expression of a speaker whose line names none. -/
def neutral : String := "neutral"

/-- A spoken line or a relay. -/
structure Line where
  speaker : Option String
  text : Option String
  expression : String
  commands : List Call
  next : Option LineIndex
  branch : Option BranchIndex
  /-- The choices offered under the line, in the order of creation. -/
  choices : List ChoiceIndex
  deriving DecidableEq

namespace Line

/-- A line that says nothing and leads nowhere yet. -/
def relay : Line where
  speaker := none
  text := none
  expression := neutral
  commands := []
  next := none
  branch := none
  choices := []

/-- A spoken line that leads nowhere yet. -/
def spoken (speaker text expression : String) (commands : List Call) : Line where
  speaker := some speaker
  text := some text
  expression := expression
  commands := commands
  next := none
  branch := none
  choices := []

/-- Whether a line has no text. -/
def isRelay (line : Line) : Bool :=
  line.text.isNone

@[simp]
theorem isRelay_relay : relay.isRelay = true :=
  rfl

@[simp]
theorem isRelay_spoken (speaker text expression : String) (commands : List Call) :
    (spoken speaker text expression commands).isRelay = false :=
  rfl

end Line

/-- An alternative of a branch. -/
structure Arm where
  conditions : List Call
  body : Option LineIndex
  deriving DecidableEq

/-- Whether an arm is taken without any condition. -/
def Arm.isUnconditional (arm : Arm) : Bool :=
  arm.conditions.isEmpty

/-- The alternatives of a branch; the first whose conditions hold is taken. -/
structure Branch where
  arms : List Arm
  deriving DecidableEq

namespace Branch

/-- Whether one of the arms needs no condition. -/
def isExhaustive (branch : Branch) : Bool :=
  branch.arms.any Arm.isUnconditional

/-- Add an arm after the others. -/
def addArm (branch : Branch) (conditions : List Call) (body : Option LineIndex) : Branch :=
  ⟨branch.arms ++ [⟨conditions, body⟩]⟩

/-- Give the last arm a body. -/
def setLastBody (branch : Branch) (body : LineIndex) : Branch :=
  match branch.arms.getLast? with
  | some arm => ⟨branch.arms.dropLast ++ [{ arm with body := some body }]⟩
  | none => branch

end Branch

/-- Something the player may choose. -/
structure Choice where
  text : String
  conditions : List Call
  commands : List Call
  next : Option LineIndex
  branch : Option BranchIndex
  /-- The line under which the choice is offered. -/
  root : LineIndex
  selected : Bool
  deriving DecidableEq

/-- A choice that leads nowhere yet. -/
def Choice.fresh (text : String) (conditions commands : List Call) (root : LineIndex) : Choice where
  text := text
  conditions := conditions
  commands := commands
  next := none
  branch := none
  root := root
  selected := false

/-- A compiled script. -/
structure Graph where
  /-- The first line of each dialogue. -/
  entries : NameMap LineIndex
  lines : Array Line
  branches : Array Branch
  choices : Array Choice
  deriving DecidableEq

namespace Graph

/-- The graph without nodes. -/
def empty : Graph := ⟨.empty, #[], #[], #[]⟩

/-- The line at a place. -/
def line (graph : Graph) (id : LineIndex) : Line :=
  graph.lines.getD id Line.relay

/-- The branch at a place. -/
def branch (graph : Graph) (id : BranchIndex) : Branch :=
  graph.branches.getD id ⟨[]⟩

/-- The choice at a place. -/
def choice (graph : Graph) (id : ChoiceIndex) : Choice :=
  graph.choices.getD id (Choice.fresh "" [] [] 0)

/-- Add a line; its place is the number of lines before. -/
def addLine (graph : Graph) (line : Line) : Graph :=
  { graph with lines := graph.lines.push line }

/-- Add a branch; its place is the number of branches before. -/
def addBranch (graph : Graph) (branch : Branch) : Graph :=
  { graph with branches := graph.branches.push branch }

/-- Add a choice; its place is the number of choices before. -/
def addChoice (graph : Graph) (choice : Choice) : Graph :=
  { graph with choices := graph.choices.push choice }

/-- Change the line at a place. -/
def modifyLine (graph : Graph) (id : LineIndex) (change : Line → Line) : Graph :=
  { graph with lines := graph.lines.modify id change }

/-- Change the branch at a place. -/
def modifyBranch (graph : Graph) (id : BranchIndex) (change : Branch → Branch) : Graph :=
  { graph with branches := graph.branches.modify id change }

/-- Change the choice at a place. -/
def modifyChoice (graph : Graph) (id : ChoiceIndex) (change : Choice → Choice) : Graph :=
  { graph with choices := graph.choices.modify id change }

/-- Let a line be followed by another. -/
def setNext (graph : Graph) (id next : LineIndex) : Graph :=
  graph.modifyLine id fun line => { line with next := some next }

/-- Let a dialogue begin at a line. -/
def addEntry (graph : Graph) (title : String) (line : LineIndex) : Graph :=
  { graph with entries := graph.entries.insert title line }

/-- The first line of a dialogue, which has to exist. -/
def entry (graph : Graph) (title : String) : Except Fault LineIndex :=
  match graph.entries.get? title with
  | some line => .ok line
  | none => .error (.unknownDialogue title)

/-- The titles of the dialogues, in order. -/
def titles (graph : Graph) : List String :=
  graph.entries.names

@[simp]
theorem line_addLine_size (graph : Graph) (line : Line) :
    (graph.addLine line).line graph.lines.size = line := by
  simp [addLine, Graph.line, Array.getD_eq_getD_getElem?]

@[simp]
theorem branch_addBranch_size (graph : Graph) (branch : Branch) :
    (graph.addBranch branch).branch graph.branches.size = branch := by
  simp [addBranch, Graph.branch, Array.getD_eq_getD_getElem?]

@[simp]
theorem choice_addChoice_size (graph : Graph) (choice : Choice) :
    (graph.addChoice choice).choice graph.choices.size = choice := by
  simp [addChoice, Graph.choice, Array.getD_eq_getD_getElem?]

/-- Earlier lines stay where they are. -/
theorem line_addLine_of_lt (graph : Graph) (line : Line) {id : LineIndex}
    (earlier : id < graph.lines.size) : (graph.addLine line).line id = graph.line id := by
  simp [addLine, Graph.line, Array.getD_eq_getD_getElem?, Array.getElem?_push,
    Nat.ne_of_lt earlier]

/-- A change of one line is a change of that line alone. -/
theorem line_modifyLine (graph : Graph) (changed id : LineIndex) (change : Line → Line)
    (known : id < graph.lines.size) :
    (graph.modifyLine changed change).line id =
      if changed = id then change (graph.line id) else graph.line id := by
  simp only [modifyLine, Graph.line, Array.getD_eq_getD_getElem?, Array.getElem?_modify]
  split <;> simp [known]

end Graph

end Parley
