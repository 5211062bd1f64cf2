import Parley.Proofs.Compilation.Sound
import Parley.Proofs.Draft.Bodies

/-!
# An option leads into its body

When an option has been read, what follows one level deeper begins its body, and the
choice leads there.  The link holds to the end exactly if no later statement takes the
choice for the one made last, and that happens only after a terminal option: it ends
the option before it, but is itself not remembered, so the choice around both is next.
-/

namespace Parley

open Parley.Script

/-- An option whose body begins right after it leads there. -/
structure LeadsIntoBody (scope : Scope) (statements : List Statement) (graph : Graph)
    (place : Nat) : Prop where
  spoken : constructAt statements (place + 1) = some .speech →
    (graph.choice (choiceAt scope statements place)).next =
        some (lineAt scope statements (place + 1)) ∧
      (graph.choice (choiceAt scope statements place)).branch = none
  branched : constructAt statements (place + 1) = some .ifArm →
    (graph.choice (choiceAt scope statements place)).branch =
      some (branchOpenedAt scope statements (place + 1))

/-- A later statement gives an option another link of the kind that leads into its body. -/
def Redirects (scope : Scope) (statements : List Statement) (earlier later : Nat) : Prop :=
  (constructAt statements (earlier + 1) = some .speech ∧
    (Ends scope statements earlier later ∨ Enters scope statements earlier later)) ∨
  (constructAt statements (earlier + 1) = some .ifArm ∧
    constructAt statements later = some .ifArm ∧ Enters scope statements earlier later)

variable {σ : Type} {registry : Registry σ} {store : Store} {script : List String} {graph : Graph}

section Reading

variable {scope : Scope} {statements : List Statement} {final : Draft} {place later : Nat}

theorem exists_found_of_bodyBegins (begins : BodyBegins statements place) :
    ∃ statement, statements[place + 1]? = some statement := by
  rcases found : statements[place + 1]? with _ | statement
  · have construct := begins.1
    simp [constructAt, found] at construct
  · exact ⟨statement, rfl⟩

/-- The links of an option once its body has begun. -/
theorem links_of_bodyBegins (read : Draft.empty.stepAll scope statements = .ok final)
    (option : IsOption statements false place) (begins : BodyBegins statements place) :
    let choice := (draftAfter scope statements (place + 2)).graph.choice
      (choiceAt scope statements place)
    (constructAt statements (place + 1) = some .speech →
      choice.next = some (lineAt scope statements (place + 1)) ∧ choice.branch = none) ∧
    (constructAt statements (place + 1) = some .ifArm →
      choice.branch = some (branchOpenedAt scope statements (place + 1))) := by
  obtain ⟨statement, found⟩ := exists_found_of_bodyBegins begins
  have construct := constructAt_of_found found
  obtain ⟨⟨_, foundThen, entered⟩, notEnds⟩ := enters_of_bodyBegins read option begins
  rw [found] at foundThen
  cases foundThen
  have notEnded : ((draftAfter scope statements (place + 1)).endedBy statement).map OpenNode.id ≠
      some (choiceAt scope statements place) :=
    fun ended => notEnds ⟨statement, found, ended⟩
  have fresh := (option.isLast read).fresh
  have known : choiceAt scope statements place <
      (draftAfter scope statements (place + 1)).graph.choices.size := by
    rw [option.size_choices read]
    exact Nat.lt_succ_self _
  have within : place + 1 < statements.length := (List.getElem?_eq_some_iff.mp found).1
  obtain ⟨next, branch⟩ := links_draftAfter_succ read known (Nat.le_refl _) within
  rw [fresh.1, Option.or_none] at next
  rw [fresh.2, Option.or_none] at branch
  constructor
  · intro speaks
    have spoken : statement.construct = .speech := Option.some.inj (construct.symm.trans speaks)
    constructor
    · rw [next, nextGivenAt, found, lineAt_eq read found spoken]
      show Draft.nextGiven _ statement _ = _
      rw [Draft.nextGiven, if_neg notEnded, if_pos ⟨spoken, entered⟩]
    · rw [branch, branchGivenAt_eq_none_iff, speaks]
      rintro ⟨opens, -⟩
      cases opens
  · intro opens
    have arm : statement.construct = .ifArm := Option.some.inj (construct.symm.trans opens)
    rw [branch, branchGivenAt, found]
    show Draft.branchGiven _ statement _ = _
    rw [Draft.branchGiven, if_pos ⟨arm, entered⟩]
    rfl

/-- The choice of an option is there once its body has begun. -/
theorem choiceAt_lt_of_bodyBegins (read : Draft.empty.stepAll scope statements = .ok final)
    (option : IsOption statements false place) (begins : BodyBegins statements place) :
    place + 2 ≤ statements.length ∧ choiceAt scope statements place <
      (draftAfter scope statements (place + 2)).graph.choices.size := by
  obtain ⟨statement, found⟩ := exists_found_of_bodyBegins begins
  have within : place + 2 ≤ statements.length := (List.getElem?_eq_some_iff.mp found).1
  have mono := size_choices_mono read (Nat.le_succ (place + 1)) within
  rw [option.size_choices read] at mono
  exact ⟨within, mono⟩

/-- An option leads to the spoken line that begins its body unless it is touched again. -/
theorem leads_to_speech_iff (read : Draft.empty.stepAll scope statements = .ok final)
    (option : IsOption statements false place) (begins : BodyBegins statements place)
    (speaks : constructAt statements (place + 1) = some .speech) :
    let choice := final.closeDialogue.graph.choice (choiceAt scope statements place)
    choice.next = some (lineAt scope statements (place + 1)) ∧ choice.branch = none ↔
      ∀ later, place + 1 < later →
        ¬ (Ends scope statements place later ∨ Enters scope statements place later) := by
  intro choice
  obtain ⟨within, known⟩ := choiceAt_lt_of_bodyBegins read option begins
  obtain ⟨next, branch⟩ := (links_of_bodyBegins read option begins).1 speaks
  obtain ⟨statement, found, spoken⟩ := Option.map_eq_some_iff.mp speaks
  have oldLine : ∀ line, some (lineAt scope statements (place + 1)) = some line →
      line < (draftAfter scope statements (place + 2)).graph.lines.size := by
    rintro _ ⟨⟩
    exact lineAt_lt read found spoken
  have oldBranch : ∀ node, (none : Option BranchIndex) = some node →
      node < (draftAfter scope statements (place + 2)).graph.branches.size := by
    rintro _ ⟨⟩
  rw [next_choice_eq_iff read known within oldLine,
    branch_choice_eq_iff read known within oldBranch]
  constructor
  · rintro ⟨⟨_, noNext⟩, ⟨_, noBranch⟩⟩ later after
    exact givenAt_eq_none_iff.mp ⟨noNext later after, noBranch later after⟩
  · intro untouched
    have silent := fun later after => givenAt_eq_none_iff.mpr (untouched later after)
    exact ⟨⟨next, fun later after => (silent later after).1⟩,
      ⟨branch, fun later after => (silent later after).2⟩⟩

/-- An option leads to the branch that begins its body unless another branch begins it too. -/
theorem leads_to_branch_iff (read : Draft.empty.stepAll scope statements = .ok final)
    (option : IsOption statements false place) (begins : BodyBegins statements place)
    (opens : constructAt statements (place + 1) = some .ifArm) :
    (final.closeDialogue.graph.choice (choiceAt scope statements place)).branch =
        some (branchOpenedAt scope statements (place + 1)) ↔
      ∀ later, place + 1 < later →
        ¬ (constructAt statements later = some .ifArm ∧
          Enters scope statements place later) := by
  obtain ⟨within, known⟩ := choiceAt_lt_of_bodyBegins read option begins
  have branch := (links_of_bodyBegins read option begins).2 opens
  obtain ⟨statement, found, arm⟩ := Option.map_eq_some_iff.mp opens
  have old : ∀ node, some (branchOpenedAt scope statements (place + 1)) = some node →
      node < (draftAfter scope statements (place + 2)).graph.branches.size := by
    rintro _ ⟨⟩
    rw [Draft.size_branches_of_step (step_draftAfter read found), if_pos arm]
    exact Nat.lt_succ_self _
  rw [branch_choice_eq_iff read known within old]
  constructor
  · rintro ⟨_, noBranch⟩ later after
    exact branchGivenAt_eq_none_iff.mp (noBranch later after)
  · intro untouched
    exact ⟨branch, fun later after => branchGivenAt_eq_none_iff.mpr (untouched later after)⟩

/-- A statement that redirects an option finds its choice as the last thing made. -/
theorem Redirects.afterTerminal (read : Draft.empty.stepAll scope statements = .ok final)
    (option : IsOption statements false place) (begins : BodyBegins statements place)
    (after : place + 1 < later) (redirects : Redirects scope statements place later) :
    AfterTerminal statements place later := by
  have last : ∀ statement, statements[later]? = some statement →
      (draftAfter scope statements later).latestChoice?.map OpenNode.id =
        some (choiceAt scope statements place) → AfterTerminal statements place later := by
    intro statement found last
    have within : later ≤ statements.length :=
      Nat.le_of_lt (List.getElem?_eq_some_iff.mp found).1
    exact afterTerminal_of_latestChoice? read option begins within after last
  have ofEnters : Enters scope statements place later → AfterTerminal statements place later := by
    rintro ⟨statement, found, entered⟩
    obtain ⟨choice, enters, same⟩ := Option.map_eq_some_iff.mp entered
    apply last statement found
    rw [Draft.latestChoice?_of_enteredBy enters, Option.map_some, same]
  rcases redirects with ⟨_, ⟨statement, found, ended⟩ | enters⟩ | ⟨_, _, enters⟩
  · obtain ⟨choice, ends, same⟩ := Option.map_eq_some_iff.mp ended
    apply last statement found
    rw [Draft.latestChoice?_of_endedBy ends, Option.map_some, same]
  · exact ofEnters enters
  · exact ofEnters enters

end Reading

/-- An option whose body begins right after it leads there in the end exactly if no later
statement redirects it, and one that does stands right after terminal options. -/
theorem leadsIntoBody_iff_of_compile
    (compiled : (compile registry store script).graph = .ok graph) {place : Nat}
    (option : IsOption (statementsOf script) false place)
    (begins : BodyBegins (statementsOf script) place) :
    let scope := scopeOf registry store script
    let statements := statementsOf script
    (LeadsIntoBody scope statements graph place ↔
      ∀ later, place + 1 < later → ¬ Redirects scope statements place later) ∧
    ∀ later, place + 1 < later → Redirects scope statements place later →
      AfterTerminal statements place later := by
  intro scope statements
  obtain ⟨final, read, rfl⟩ := exists_draft_of_compile compiled
  constructor
  · rcases begins.1 with speaks | opens
    · have leads := leads_to_speech_iff read option begins speaks
      have notArm : constructAt statements (place + 1) ≠ some .ifArm := by
        rw [speaks]
        simp
      constructor
      · rintro links later after (⟨_, touches⟩ | ⟨opens, _⟩)
        · exact leads.mp (links.spoken speaks) later after touches
        · exact notArm opens
      · intro stays
        constructor
        · intro _
          exact leads.mpr fun later after touches => stays later after (Or.inl ⟨speaks, touches⟩)
        · exact fun opens => absurd opens notArm
    · have leads := leads_to_branch_iff read option begins opens
      have notSpeech : constructAt statements (place + 1) ≠ some .speech := by
        rw [opens]
        simp
      constructor
      · rintro links later after (⟨speaks, _⟩ | ⟨_, entered⟩)
        · exact notSpeech speaks
        · exact leads.mp (links.branched opens) later after entered
      · intro stays
        constructor
        · exact fun speaks => absurd speaks notSpeech
        · intro _
          exact leads.mpr fun later after entered => stays later after (Or.inr ⟨opens, entered⟩)
  · exact fun later after redirects => redirects.afterTerminal read option begins after

/-- An option whose body ends with two options, and the second of them with a line. -/
def nestedOptions : List String :=
  ["- D", "A: root", "> outer", "\tA: inner", "\t> one", "\t> two", "\tA: x"]

/-- Without terminal options an option leads into its body. -/
theorem leadsIntoBody_of_nested_options :
    LeadsIntoBody (scopeOf hostless .empty nestedOptions) (statementsOf nestedOptions)
      (compiledGraph hostless .empty nestedOptions) 2 := by
  have compiled : (compile hostless .empty nestedOptions).graph =
      .ok (compiledGraph hostless .empty nestedOptions) := by
    apply compile_eq_ok_compiledGraph
    decide +kernel
  have option : IsOption (statementsOf nestedOptions) false 2 :=
    ⟨⟨3, 0, "> outer".toList, .option⟩, ⟨"outer", none, none, false⟩, by decide +kernel, rfl,
      by decide +kernel, rfl⟩
  have begins : BodyBegins (statementsOf nestedOptions) 2 := by
    constructor
    · exact Or.inl (by decide +kernel)
    · decide +kernel
  have noTerminal : ∀ place, ¬ IsOption (statementsOf nestedOptions) true place := by
    rintro place ⟨statement, line, found, _, readLine, terminal⟩
    have none : (statementsOf nestedOptions).all fun statement =>
        (OptionLine.read statement.content).toOption.all fun line => !line.terminal := by
      decide +kernel
    have opens := List.all_eq_true.mp none statement (List.mem_of_getElem? found)
    rw [readLine] at opens
    simp [Except.toOption, terminal] at opens
  obtain ⟨leads_iff, afterTerminal⟩ := leadsIntoBody_iff_of_compile compiled option begins
  apply leads_iff.mpr
  intro later after redirects
  obtain ⟨other, _, before, _, terminals⟩ := afterTerminal later after redirects
  exact noTerminal (other + 1) (terminals (other + 1) (Nat.lt_succ_self other) before)

/-- The same with a terminal option at the end of the body. -/
def nestedTerminal : List String :=
  ["- D", "A: root", "> outer", "\tA: inner", "\t> one", "\t> two [[end]]", "\tA: x"]

/-- After a terminal option, the choice around it leads to the line that follows it. -/
theorem not_leadsIntoBody_of_nested_terminal :
    let scope := scopeOf hostless .empty nestedTerminal
    let statements := statementsOf nestedTerminal
    let graph := compiledGraph hostless .empty nestedTerminal
    (compile hostless .empty nestedTerminal).graph = .ok graph ∧
      IsOption statements false 2 ∧ BodyBegins statements 2 ∧
      (graph.choice (choiceAt scope statements 2)).next = some (lineAt scope statements 6) ∧
      ¬ LeadsIntoBody scope statements graph 2 := by
  intro scope statements graph
  have compiled : (compile hostless .empty nestedTerminal).graph = .ok graph := by
    apply compile_eq_ok_compiledGraph
    decide +kernel
  have option : IsOption statements false 2 :=
    ⟨⟨3, 0, "> outer".toList, .option⟩, ⟨"outer", none, none, false⟩, by decide +kernel, rfl,
      by decide +kernel, rfl⟩
  have speaks : constructAt statements 3 = some .speech := by decide +kernel
  have begins : BodyBegins statements 2 := ⟨Or.inl speaks, by decide +kernel⟩
  have leadsPast : (graph.choice (choiceAt scope statements 2)).next =
      some (lineAt scope statements 6) := by
    decide +kernel
  have apart : lineAt scope statements 6 ≠ lineAt scope statements 3 := by decide +kernel
  have astray : ¬ LeadsIntoBody scope statements graph 2 := by
    intro leads
    have inner := (leads.spoken speaks).1
    rw [leadsPast] at inner
    exact apart (Option.some.inj inner)
  exact ⟨compiled, option, begins, leadsPast, astray⟩

end Parley
