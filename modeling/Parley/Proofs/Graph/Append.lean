import Parley.Proofs.Graph.Links

/-!
# One graph behind another

The nodes of two graphs are put behind each other by moving every index of the second one by
as many nodes as the first one has.  Edits of the second graph carry over to both together, and
where the links of each graph stay within it, none leads from one to the other.
-/

namespace Parley

/-- Changing an item behind others is changing it where it is and moving it behind them. -/
theorem modify_append_map {α : Type} {move change moved : α → α} (front back : Array α)
    (id : Nat) (commutes : ∀ item, moved (move item) = move (change item)) :
    (front ++ back.map move).modify (front.size + id) moved =
      front ++ (back.modify id change).map move := by
  apply Array.ext_getElem?
  intro index
  rw [Array.getElem?_modify, Array.getElem?_append, Array.getElem?_append]
  by_cases early : index < front.size
  · rw [if_pos early, if_pos early, if_neg (by omega)]
  · rw [if_neg early, if_neg early, Array.getElem?_map, Array.getElem?_map, Array.getElem?_modify]
    by_cases here : id = index - front.size
    · rw [if_pos (by omega), if_pos here, Option.map_map, Option.map_map]
      exact congrArg (fun edit => Option.map edit _) (funext commutes)
    · rw [if_neg (by omega), if_neg here]

/-- Of entries with different names, each is found when all have been inserted, and the other
names keep what they had. -/
theorem NameMap.get?_insertAll {α : Type} {entries : List (String × α)}
    (distinct : entries.Pairwise fun earlier later => earlier.1 ≠ later.1) (map : NameMap α)
    (name : String) :
    (map.insertAll entries).get? name = (lookup name entries).or (map.get? name) := by
  induction entries generalizing map with
  | nil => rfl
  | cons entry rest ih =>
      obtain ⟨key, value⟩ := entry
      obtain ⟨different, distinctRest⟩ := List.pairwise_cons.mp distinct
      show ((map.insert key value).insertAll rest).get? name = _
      rw [ih distinctRest, get?_insert, lookup]
      by_cases same : name = key
      · have absent : lookup name rest = none := by
          rcases found : lookup name rest with _ | held
          · rfl
          · exact absurd same.symm (different _ (mem_of_lookup_eq_some found))
        rw [if_pos same, if_pos same, absent]
        rfl
      · rw [if_neg same, if_neg same]

/-! ## Moved nodes -/

/-- A line behind the nodes of a graph. -/
def Line.shift (base : Graph) (line : Line) : Line :=
  { line with
    next := line.next.map (base.lines.size + ·)
    branch := line.branch.map (base.branches.size + ·)
    choices := line.choices.map (base.choices.size + ·) }

/-- An arm behind the nodes of a graph. -/
def Arm.shift (base : Graph) (arm : Arm) : Arm :=
  { arm with body := arm.body.map (base.lines.size + ·) }

/-- A branch behind the nodes of a graph. -/
def Branch.shift (base : Graph) (branch : Branch) : Branch :=
  ⟨branch.arms.map (Arm.shift base)⟩

/-- A choice behind the nodes of a graph. -/
def Choice.shift (base : Graph) (choice : Choice) : Choice :=
  { choice with
    next := choice.next.map (base.lines.size + ·)
    branch := choice.branch.map (base.branches.size + ·)
    root := base.lines.size + choice.root }

/-- The nodes of a graph behind those of another, with the entries of both. -/
def Graph.append (base graph : Graph) : Graph where
  entries := base.entries.insertAll
    (graph.entries.toList.map fun entry => (entry.1, base.lines.size + entry.2))
  lines := base.lines ++ graph.lines.map (Line.shift base)
  branches := base.branches ++ graph.branches.map (Branch.shift base)
  choices := base.choices ++ graph.choices.map (Choice.shift base)

/-- Moving a branch changes none of its conditions. -/
theorem Branch.isExhaustive_shift (base : Graph) (branch : Branch) :
    (branch.shift base).isExhaustive = branch.isExhaustive := by
  rw [isExhaustive, shift, List.any_map]
  rfl

theorem Branch.addArm_shift (base : Graph) (branch : Branch) (conditions : List Call)
    (body : Option LineIndex) :
    (branch.shift base).addArm conditions (body.map (base.lines.size + ·)) =
      (branch.addArm conditions body).shift base := by
  rw [addArm, addArm, shift, shift, List.map_append]
  rfl

theorem Branch.setLastBody_shift (base : Graph) (branch : Branch) (body : LineIndex) :
    (branch.shift base).setLastBody (base.lines.size + body) =
      (branch.setLastBody body).shift base := by
  rw [setLastBody, setLastBody, shift, List.getLast?_map]
  cases branch.arms.getLast? with
  | none => rfl
  | some arm =>
      simp only [Option.map_some, shift, List.map_append, List.map_dropLast, List.map_cons,
        List.map_nil]
      rfl

theorem Branch.leadsTo_shift_iff {base : Graph} {branch : Branch} {target : LineIndex} :
    (branch.shift base).LeadsTo target ↔
      ∃ body, branch.LeadsTo body ∧ target = base.lines.size + body := by
  constructor
  · rintro ⟨_, member, leads⟩
    obtain ⟨arm, isArm, rfl⟩ := List.mem_map.mp member
    obtain ⟨body, same, rfl⟩ := Option.map_eq_some_iff.mp leads
    exact ⟨body, ⟨arm, isArm, same⟩, rfl⟩
  · rintro ⟨body, ⟨arm, isArm, leads⟩, rfl⟩
    exact ⟨arm.shift base, List.mem_map_of_mem isArm, congrArg (Option.map _) leads⟩

namespace Graph

variable (base graph : Graph)

/-! ## Sizes and look-ups -/

@[simp]
theorem size_lines_append :
    (base.append graph).lines.size = base.lines.size + graph.lines.size := by
  simp [append]

@[simp]
theorem size_branches_append :
    (base.append graph).branches.size = base.branches.size + graph.branches.size := by
  simp [append]

@[simp]
theorem size_choices_append :
    (base.append graph).choices.size = base.choices.size + graph.choices.size := by
  simp [append]

theorem line_append_of_lt {id : LineIndex} (first : id < base.lines.size) :
    (base.append graph).line id = base.line id := by
  simp [append, line, Array.getD_eq_getD_getElem?, Array.getElem?_append, first]

theorem line_append_add (id : LineIndex) :
    (base.append graph).line (base.lines.size + id) = (graph.line id).shift base := by
  simp only [append, line, Array.getD_eq_getD_getElem?]
  rw [Array.getElem?_append_right (Nat.le_add_right _ _), Nat.add_sub_cancel_left,
    Array.getElem?_map]
  cases graph.lines[id]? <;> rfl

theorem branch_append_of_lt {id : BranchIndex} (first : id < base.branches.size) :
    (base.append graph).branch id = base.branch id := by
  simp [append, branch, Array.getD_eq_getD_getElem?, Array.getElem?_append, first]

theorem branch_append_add (id : BranchIndex) :
    (base.append graph).branch (base.branches.size + id) = (graph.branch id).shift base := by
  simp only [append, branch, Array.getD_eq_getD_getElem?]
  rw [Array.getElem?_append_right (Nat.le_add_right _ _), Nat.add_sub_cancel_left,
    Array.getElem?_map]
  cases graph.branches[id]? <;> rfl

theorem choice_append_of_lt {id : ChoiceIndex} (first : id < base.choices.size) :
    (base.append graph).choice id = base.choice id := by
  simp [append, choice, Array.getD_eq_getD_getElem?, Array.getElem?_append, first]

/-- A place without a choice gives a choice whose root is not moved. -/
theorem choice_append_add {id : ChoiceIndex} (known : id < graph.choices.size) :
    (base.append graph).choice (base.choices.size + id) = (graph.choice id).shift base := by
  simp only [append, choice, Array.getD_eq_getD_getElem?]
  rw [Array.getElem?_append_right (Nat.le_add_right _ _), Nat.add_sub_cancel_left,
    Array.getElem?_map, Array.getElem?_eq_getElem known]
  rfl

/-- A dialogue begins where it began in its own graph; the second graph counts first. -/
theorem entries_append (title : String) :
    (base.append graph).entries.get? title =
      ((graph.entries.get? title).map (base.lines.size + ·)).or (base.entries.get? title) := by
  have distinct : (graph.entries.toList.map fun entry =>
      (entry.1, base.lines.size + entry.2)).Pairwise
        fun earlier later => earlier.1 ≠ later.1 := by
    rw [List.pairwise_map]
    refine graph.entries.sorted.imp fun {earlier later} less same => ?_
    exact String.lt_irrefl later.1 (same ▸ less)
  have moved : ∀ entries : List (String × LineIndex),
      NameMap.lookup title (entries.map fun entry => (entry.1, base.lines.size + entry.2)) =
        (NameMap.lookup title entries).map (base.lines.size + ·) := by
    intro entries
    induction entries with
    | nil => rfl
    | cons entry rest ih =>
        rw [List.map_cons, NameMap.lookup, ih, NameMap.lookup]
        split <;> rfl
  rw [append, NameMap.get?_insertAll distinct, moved]
  rfl

/-- Where only one of the graphs has a dialogue, the order of both does not matter. -/
theorem entries_append_of_disjoint {title : String}
    (disjoint : base.entries.get? title = none ∨ graph.entries.get? title = none) :
    (base.append graph).entries.get? title = (base.entries.get? title).or
      ((graph.entries.get? title).map (base.lines.size + ·)) := by
  rw [entries_append]
  rcases disjoint with absent | absent
  · rw [absent, Option.or_none, Option.none_or]
  · rw [absent, Option.map_none, Option.or_none, Option.none_or]

/-! ## Edits of the second graph -/

/-- Graphs are equal if their nodes and the first lines of their dialogues are. -/
theorem eq_of_parts {first second : Graph}
    (entries : ∀ title, first.entries.get? title = second.entries.get? title)
    (lines : first.lines = second.lines) (branches : first.branches = second.branches)
    (choices : first.choices = second.choices) : first = second := by
  obtain ⟨firstEntries, _, _, _⟩ := first
  obtain ⟨secondEntries, _, _, _⟩ := second
  obtain rfl : firstEntries = secondEntries := NameMap.ext entries
  cases lines
  cases branches
  cases choices
  rfl

@[simp]
theorem append_empty : base.append Graph.empty = base :=
  eq_of_parts (fun _ => rfl) (by simp [append, Graph.empty]) (by simp [append, Graph.empty])
    (by simp [append, Graph.empty])

theorem append_addLine (line : Line) :
    (base.append graph).addLine (line.shift base) = base.append (graph.addLine line) := by
  simp only [addLine, append, Array.map_push, Array.push_append]

theorem append_addBranch (branch : Branch) :
    (base.append graph).addBranch (branch.shift base) = base.append (graph.addBranch branch) := by
  simp only [addBranch, append, Array.map_push, Array.push_append]

theorem append_addChoice (choice : Choice) :
    (base.append graph).addChoice (choice.shift base) = base.append (graph.addChoice choice) := by
  simp only [addChoice, append, Array.map_push, Array.push_append]

theorem append_modifyLine (id : LineIndex) (change moved : Line → Line)
    (commutes : ∀ line, moved (line.shift base) = (change line).shift base) :
    (base.append graph).modifyLine (base.lines.size + id) moved =
      base.append (graph.modifyLine id change) := by
  simp only [modifyLine, append, modify_append_map _ _ _ commutes]

theorem append_modifyBranch (id : BranchIndex) (change moved : Branch → Branch)
    (commutes : ∀ branch, moved (branch.shift base) = (change branch).shift base) :
    (base.append graph).modifyBranch (base.branches.size + id) moved =
      base.append (graph.modifyBranch id change) := by
  simp only [modifyBranch, append, modify_append_map _ _ _ commutes]

theorem append_modifyChoice (id : ChoiceIndex) (change moved : Choice → Choice)
    (commutes : ∀ choice, moved (choice.shift base) = (change choice).shift base) :
    (base.append graph).modifyChoice (base.choices.size + id) moved =
      base.append (graph.modifyChoice id change) := by
  simp only [modifyChoice, append, modify_append_map _ _ _ commutes]

theorem append_setNext (id next : LineIndex) :
    (base.append graph).setNext (base.lines.size + id) (base.lines.size + next) =
      base.append (graph.setNext id next) :=
  base.append_modifyLine graph id _ _ fun _ => rfl

theorem append_addEntry (title : String) (line : LineIndex) :
    (base.append graph).addEntry title (base.lines.size + line) =
      base.append (graph.addEntry title line) := by
  refine eq_of_parts (fun other => ?_) rfl rfl rfl
  rw [entries_append, addEntry, NameMap.get?_insert, entries_append, addEntry,
    NameMap.get?_insert]
  split <;> rfl

/-! ## Links of both graphs -/

/-- A line leads to another, as its successor or as a body that begins under it. -/
def LeadsOn (graph : Graph) (id target : LineIndex) : Prop :=
  (graph.line id).next = some target ∨ graph.LeadsInto id target

/-- No link leads across a border, in either direction. -/
def PartsAt (graph : Graph) (border : Nat) : Prop :=
  ∀ id target, graph.LeadsOn id target → (id < border ↔ target < border)

/-- What a line names is there. -/
structure Within (graph : Graph) : Prop where
  next : ∀ id target, (graph.line id).next = some target → target < graph.lines.size
  into : ∀ id target, graph.LeadsInto id target → target < graph.lines.size
  branch : ∀ id branch, (graph.line id).branch = some branch → branch < graph.branches.size
  choices : ∀ id, ∀ choice ∈ (graph.line id).choices, choice < graph.choices.size
  choiceBranch : ∀ id branch, (graph.choice id).branch = some branch →
    branch < graph.branches.size

variable {base graph} {id target : LineIndex}

theorem Within.lt (within : graph.Within) (linked : graph.LeadsOn id target) :
    target < graph.lines.size :=
  linked.elim (within.next id target) (within.into id target)

/-- The links of the first graph are those that it had. -/
theorem leadsOn_append_of_lt (within : base.Within) (first : id < base.lines.size) :
    (base.append graph).LeadsOn id target ↔ base.LeadsOn id target := by
  have same := base.line_append_of_lt graph first
  have branches : ∀ branch < base.branches.size,
      (base.append graph).branch branch = base.branch branch :=
    fun branch known => base.branch_append_of_lt graph known
  have choices : ∀ choice ∈ (base.line id).choices,
      (base.append graph).choice choice = base.choice choice :=
    fun choice offered => base.choice_append_of_lt graph (within.choices id choice offered)
  rw [LeadsOn, LeadsOn, same]
  refine or_congr_right ⟨fun into => ?_, fun into => ?_⟩
  · rcases into with ⟨branched, leads⟩ | ⟨offered, leads⟩ | ⟨offered, branched, leads⟩
    · rw [same] at branched
      rw [branches _ (within.branch id _ branched)] at leads
      exact .arm branched leads
    · rw [same] at offered
      rw [choices _ offered] at leads
      exact .choice offered leads
    · rw [same] at offered
      rw [choices _ offered] at branched
      rw [branches _ (within.choiceBranch _ _ branched)] at leads
      exact .choiceArm offered branched leads
  · rcases into with ⟨branched, leads⟩ | ⟨offered, leads⟩ | ⟨offered, branched, leads⟩
    · exact .arm (same ▸ branched) ((branches _ (within.branch id _ branched)) ▸ leads)
    · exact .choice (same ▸ offered) ((choices _ offered) ▸ leads)
    · exact .choiceArm (same ▸ offered) ((choices _ offered) ▸ branched)
        ((branches _ (within.choiceBranch _ _ branched)) ▸ leads)

/-- The links of the second graph are those that it had, moved. -/
theorem exists_of_leadsOn_append (within : graph.Within)
    (linked : (base.append graph).LeadsOn (base.lines.size + id) target) :
    ∃ goal, graph.LeadsOn id goal ∧ target = base.lines.size + goal := by
  have moved := base.line_append_add graph id
  rcases linked with follows | into
  · rw [moved] at follows
    obtain ⟨goal, leads, rfl⟩ := Option.map_eq_some_iff.mp follows
    exact ⟨goal, Or.inl leads, rfl⟩
  · rcases into with ⟨branched, leads⟩ | ⟨offered, leads⟩ | ⟨offered, branched, leads⟩
    · rw [moved] at branched
      obtain ⟨branch, isBranch, rfl⟩ := Option.map_eq_some_iff.mp branched
      rw [branch_append_add] at leads
      obtain ⟨goal, isGoal, rfl⟩ := Branch.leadsTo_shift_iff.mp leads
      exact ⟨goal, Or.inr (.arm isBranch isGoal), rfl⟩
    · rw [moved] at offered
      obtain ⟨choice, isChoice, rfl⟩ := List.mem_map.mp offered
      rw [choice_append_add base graph (within.choices id choice isChoice)] at leads
      obtain ⟨goal, isGoal, rfl⟩ := Option.map_eq_some_iff.mp leads
      exact ⟨goal, Or.inr (.choice isChoice isGoal), rfl⟩
    · rw [moved] at offered
      obtain ⟨choice, isChoice, rfl⟩ := List.mem_map.mp offered
      rw [choice_append_add base graph (within.choices id choice isChoice)] at branched
      obtain ⟨branch, isBranch, rfl⟩ := Option.map_eq_some_iff.mp branched
      rw [branch_append_add] at leads
      obtain ⟨goal, isGoal, rfl⟩ := Branch.leadsTo_shift_iff.mp leads
      exact ⟨goal, Or.inr (.choiceArm isChoice isBranch isGoal), rfl⟩

/-- No link leads from one graph to the other. -/
theorem partsAt_append (first : base.Within) (second : graph.Within) :
    (base.append graph).PartsAt base.lines.size := by
  intro id target linked
  by_cases early : id < base.lines.size
  · have stays := first.lt ((leadsOn_append_of_lt first early).mp linked)
    exact ⟨fun _ => stays, fun _ => early⟩
  · have moved := Nat.add_sub_of_le (Nat.le_of_not_lt early)
    rw [← moved] at linked
    obtain ⟨goal, -, rfl⟩ := exists_of_leadsOn_append second linked
    exact ⟨fun before => absurd before early,
      fun before => absurd before (Nat.not_lt_of_le (Nat.le_add_right _ goal))⟩

end Graph

end Parley
