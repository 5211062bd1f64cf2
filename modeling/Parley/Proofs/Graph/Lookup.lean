import Parley.Proofs.Graph.Change

/-!
# Look-ups that may fail

A look-up of a place that holds no node gives a node without links, and a change of such a node
changes nothing.  Here a look-up or a change is an attempt instead, which has no outcome at all
where there is no node.  Whatever is carried out by attempts finds every node that it needs
exactly if it comes out, and then it comes out as it does without checking.
-/

namespace Parley

/-- Attempts along a list come out if each does as long as something holds that all of them
keep. -/
theorem foldlM_eq_some {α β : Type} (fits : β → Prop) {attempt : β → α → Option β}
    {step : β → α → β} {items : List α}
    (each : ∀ state, fits state → ∀ item ∈ items,
      attempt state item = some (step state item) ∧ fits (step state item))
    {start : β} (fit : fits start) :
    items.foldlM attempt start = some (items.foldl step start) := by
  induction items generalizing start with
  | nil => rfl
  | cons item rest ih =>
      obtain ⟨found, next⟩ := each start fit item List.mem_cons_self
      rw [List.foldlM_cons, found]
      exact ih (fun state holds other member =>
        each state holds other (List.mem_cons_of_mem item member)) next

namespace Graph

/-- The line at a place, if there is one. -/
def line? (graph : Graph) (id : LineIndex) : Option Line :=
  graph.lines[id]?

/-- The branch at a place, if there is one. -/
def branch? (graph : Graph) (id : BranchIndex) : Option Branch :=
  graph.branches[id]?

/-- The choice at a place, if there is one. -/
def choice? (graph : Graph) (id : ChoiceIndex) : Option Choice :=
  graph.choices[id]?

/-- Change the choice at a place, if there is one. -/
def modifyChoice? (graph : Graph) (id : ChoiceIndex) (change : Choice → Choice) : Option Graph :=
  (graph.choice? id).map fun _ => graph.modifyChoice id change

/-- A place among the nodes of one kind. -/
inductive Address where
  | line (id : LineIndex)
  | branch (id : BranchIndex)
  | choice (id : ChoiceIndex)

/-- Whether there is a node at an address. -/
def has (graph : Graph) : Address → Bool
  | .line id => (graph.line? id).isSome
  | .branch id => (graph.branch? id).isSome
  | .choice id => (graph.choice? id).isSome

variable {graph : Graph}

theorem line?_eq_some {id : LineIndex} (known : id < graph.lines.size) :
    graph.line? id = some (graph.line id) := by
  simp [line?, line, known]

theorem branch?_eq_some {id : BranchIndex} (known : id < graph.branches.size) :
    graph.branch? id = some (graph.branch id) := by
  simp [branch?, branch, known]

theorem choice?_eq_some {id : ChoiceIndex} (known : id < graph.choices.size) :
    graph.choice? id = some (graph.choice id) := by
  simp [choice?, choice, known]

theorem modifyChoice?_eq_some {id : ChoiceIndex} (known : id < graph.choices.size)
    (change : Choice → Choice) :
    graph.modifyChoice? id change = some (graph.modifyChoice id change) := by
  rw [modifyChoice?, choice?_eq_some known]
  rfl

theorem has_line {id : LineIndex} (known : id < graph.lines.size) :
    graph.has (.line id) = true := by
  rw [has, line?_eq_some known]
  rfl

theorem has_branch {id : BranchIndex} (known : id < graph.branches.size) :
    graph.has (.branch id) = true := by
  rw [has, branch?_eq_some known]
  rfl

theorem has_choice {id : ChoiceIndex} (known : id < graph.choices.size) :
    graph.has (.choice id) = true := by
  rw [has, choice?_eq_some known]
  rfl

end Graph

/-! ## Attempts that come out -/

/-- An attempt finds every node that it needs: it comes out, and as it does without checking.
Where that is a success, the result has a property. -/
structure Finds {ε α : Type} (holds : α → Prop) (attempt : ExceptT ε Option α)
    (outcome : Except ε α) : Prop where
  found : attempt.run = some outcome
  result : ∀ value, outcome = .ok value → holds value

namespace Finds

variable {ε α β : Type} {holds : α → Prop} {after : β → Prop}

theorem ok {value : α} (held : holds value) :
    Finds holds (pure value : ExceptT ε Option α) (.ok value) where
  found := rfl
  result _ same := by
    cases same
    exact held

theorem error (fault : ε) : Finds holds (throw fault : ExceptT ε Option α) (.error fault) where
  found := rfl
  result _ same := by cases same

/-- Where an attempt comes out, its result is the one without checking. -/
theorem same {attempt : ExceptT ε Option α} {outcome : Except ε α}
    (finds : Finds holds attempt outcome) :
    Finds (fun value => outcome = .ok value) attempt outcome where
  found := finds.found
  result _ same := same

/-- What looks nothing up. -/
theorem read (outcome : Except ε α) :
    Finds (fun value => outcome = .ok value) (liftM outcome : ExceptT ε Option α) outcome where
  found := rfl
  result _ same := same

theorem bind {attempt : ExceptT ε Option α} {outcome : Except ε α}
    {next : α → ExceptT ε Option β} {rest : α → Except ε β} (first : Finds holds attempt outcome)
    (others : ∀ value, holds value → Finds after (next value) (rest value)) :
    Finds after (attempt >>= next) (outcome >>= rest) := by
  cases outcome with
  | error fault =>
      constructor
      · show attempt.run >>= _ = _
        rw [first.found]
        rfl
      · intro value same
        cases same
  | ok value =>
      obtain ⟨found, result⟩ := others value (first.result value rfl)
      constructor
      · show attempt.run >>= _ = _
        rw [first.found]
        exact found
      · exact result

/-- A look-up that finds its node. -/
theorem looked {look : Option α} {value : α} (found : look = some value) (held : holds value) :
    Finds holds (liftM look : ExceptT ε Option α) (.ok value) := by
  subst found
  exact ok held

/-- What comes after a look-up that finds its node. -/
theorem lookUp {look : Option α} {value : α} {next : α → ExceptT ε Option β}
    {rest : Except ε β} (found : look = some value) (others : Finds after (next value) rest) :
    Finds after ((liftM look : ExceptT ε Option α) >>= next) rest := by
  subst found
  exact others

/-- What finds its nodes for each item finds them for all. -/
theorem mapM {items : List α} {attempt : α → ExceptT ε Option β} {outcome : α → Except ε β}
    (each : ∀ item ∈ items, Finds (fun _ => True) (attempt item) (outcome item)) :
    Finds (fun _ => True) (items.mapM attempt) (items.mapM outcome) := by
  induction items with
  | nil => exact ok trivial
  | cons item rest ih =>
      rw [List.mapM_cons, List.mapM_cons]
      refine bind (each item List.mem_cons_self) fun first _ => ?_
      refine bind (ih fun other member => each other (List.mem_cons_of_mem item member))
        fun others _ => ?_
      exact ok trivial

end Finds

end Parley
