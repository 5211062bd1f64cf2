import Parley.Proofs.Draft.Blocks
import Parley.Proofs.Draft.Entries

/-!
# Titles of dialogues

The titles of a script are those that its declarations name, in their order.  No two are the
same, and a dialogue has a first line only if it has been declared.
-/

namespace Parley.Draft

open Parley.Script
open Parley.Text

variable {scope : Scope} {draft after : Draft} {statement : Statement}

/-- The title that a statement declares, if it begins a dialogue. -/
def titleOf (statement : Statement) : String :=
  String.ofList (trim (statement.content.drop 1))

/-- The titles that statements declare. -/
def titlesOf (statements : List Statement) : List String :=
  (statements.filter fun statement => statement.construct = .dialogue).map titleOf

theorem titlesOf_append (first second : List Statement) :
    titlesOf (first ++ second) = titlesOf first ++ titlesOf second := by
  rw [titlesOf, List.filter_append, List.map_append]
  rfl

theorem titlesOf_cons (statement : Statement) (rest : List Statement) :
    titlesOf (statement :: rest) =
      (if statement.construct = .dialogue then [titleOf statement] else []) ++ titlesOf rest := by
  unfold titlesOf
  by_cases begins : statement.construct = .dialogue
  · rw [List.filter_cons_of_pos (by simpa using begins), if_pos begins]
    rfl
  · rw [List.filter_cons_of_neg (by simpa using begins), if_neg begins]
    rfl

theorem declared_of_step (read : draft.step scope statement = .ok after) :
    after.declared =
      (if statement.construct = .dialogue then [titleOf statement] else []) ++ draft.declared := by
  by_cases begins : statement.construct = .dialogue
  · unfold step at read
    simp only [begins] at read
    obtain ⟨title, rfl, -, -, rfl⟩ := stepTitle_eq_ok_iff.mp read
    have declared : draft.closeDialogue.declared = draft.declared :=
      congrArg Prod.snd draft.titles_closeDialogue
    rw [beginDialogue, closeDialogue_closeDeepBranches, declared, if_pos begins]
    rfl
  · rw [if_neg begins]
    exact congrArg Prod.snd (titles_of_step read begins)

theorem declared_of_stepAll {statements : List Statement}
    (read : draft.stepAll scope statements = .ok after) :
    after.declared = (titlesOf statements).reverse ++ draft.declared := by
  induction statements generalizing draft with
  | nil =>
      cases read
      rfl
  | cons statement rest ih =>
      obtain ⟨middle, first, others⟩ := stepAll_cons_eq_ok_iff.mp read
      rw [ih others, declared_of_step first, titlesOf_cons, List.reverse_append,
        List.append_assoc]
      split <;> rfl

/-- No title is declared twice, and each dialogue with a first line has been declared. -/
structure Titled (draft : Draft) : Prop where
  nodup : draft.declared.Nodup
  current : ∀ title, draft.title = some title → title ∈ draft.declared
  entered : ∀ title line, draft.graph.entries.get? title = some line → title ∈ draft.declared

theorem Titled.empty : Draft.empty.Titled where
  nodup := List.nodup_nil
  current _ same := by cases same
  entered _ _ found := by cases found

/-- The first statement behind a title gives an entry to that title and to no other. -/
theorem Titled.of_entries (titled : draft.Titled) (titles : after.titles = draft.titles)
    (entries : after.graph.entries = draft.graph.entries ∨ ∃ title line,
      draft.currentTitle = .ok title ∧
        after.graph.entries = draft.graph.entries.insert title line) : after.Titled := by
  have declared : after.declared = draft.declared := congrArg Prod.snd titles
  constructor
  · rw [declared]
    exact titled.nodup
  · intro title same
    rw [declared]
    exact titled.current title ((congrArg Prod.fst titles).symm.trans same)
  · intro title line found
    rw [declared]
    rcases entries with same | ⟨current, first, isCurrent, inserted⟩
    · exact titled.entered title line (same ▸ found)
    · rw [inserted, NameMap.get?_insert] at found
      split at found
      · rename_i same
        rw [same]
        exact titled.current current (title_eq_some isCurrent)
      · exact titled.entered title line found

theorem Titled.step (titled : draft.Titled) (read : draft.step scope statement = .ok after) :
    after.Titled := by
  have closed : (draft.closeDeepBranches statement.indent).Titled :=
    titled.of_entries (draft.titles_closeDeepBranches statement.indent)
      (Or.inl (draft.entries_closeDeepBranches statement.indent))
  by_cases begins : statement.construct = .dialogue
  · have declared := declared_of_step read
    unfold Draft.step at read
    simp only [begins] at read
    obtain ⟨title, rfl, -, new, rfl⟩ := stepTitle_eq_ok_iff.mp read
    have same := congrArg Prod.snd (draft.closeDeepBranches statement.indent).titles_closeDialogue
    constructor
    · refine List.nodup_cons.mpr ⟨new, ?_⟩
      rw [show (draft.closeDeepBranches statement.indent).closeDialogue.declared = _ from same]
      exact closed.nodup
    · intro title same
      cases same
      exact List.mem_cons_self
    · intro title line found
      apply List.mem_cons_of_mem
      rw [show (draft.closeDeepBranches statement.indent).closeDialogue.declared = _ from same]
      apply closed.entered title line
      have entries := closeDialogue_keeps (fun draft => draft.graph.entries)
        entries_completeBranch (draft.closeDeepBranches statement.indent)
      exact entries ▸ found
  · have titles := titles_of_step read begins
    rw [← draft.titles_closeDeepBranches statement.indent] at titles
    apply closed.of_entries titles
    unfold Draft.step at read
    split at read
    · rename_i construct
      exact absurd construct begins
    · obtain ⟨option, commands, conditions, root, -, -, -, -, rfl⟩ := stepOption_eq_ok_iff.mp read
      exact Or.inl (entries_offer _ _ _ _)
    · obtain ⟨title, line, current, entries⟩ := entries_of_stepIfArm read
      split at entries
      · exact Or.inr ⟨title, line, current, entries⟩
      · exact Or.inl entries
    · obtain ⟨source, branch, conditions, -, -, -, -, rfl⟩ := stepElseArm_eq_ok_iff.mp read
      exact Or.inl rfl
    · obtain ⟨title, line, current, entries⟩ := entries_of_stepSpeech read
      split at entries
      · exact Or.inr ⟨title, line, current, entries⟩
      · exact Or.inl entries

theorem Titled.stepAll (titled : draft.Titled) {statements : List Statement}
    (read : draft.stepAll scope statements = .ok after) : after.Titled := by
  induction statements generalizing draft with
  | nil =>
      cases read
      exact titled
  | cons statement rest ih =>
      obtain ⟨middle, first, others⟩ := stepAll_cons_eq_ok_iff.mp read
      exact ih (titled.step first) others

/-! ## First lines -/

/-- After the declaration of a dialogue its title is the current one, and no branch is open. -/
theorem title_of_step (read : draft.step scope statement = .ok after)
    (begins : statement.construct = .dialogue) :
    after.title = some (titleOf statement) ∧ after.branches = [] := by
  unfold step at read
  simp only [begins] at read
  obtain ⟨title, rfl, -, -, rfl⟩ := stepTitle_eq_ok_iff.mp read
  exact ⟨rfl, rfl⟩

/-- The statement at a place declares a dialogue by its title. -/
def BeginsAt (statements : List Statement) (title : String) (place : Nat) : Prop :=
  ∃ statement, statements[place]? = some statement ∧ statement.construct = .dialogue ∧
    titleOf statement = title

section Reading

variable {statements : List Statement} {final : Draft} {count : Nat}

/-- The title of a dialogue has just been read exactly behind its declaration. -/
theorem latest_title_iff_beginsAt (read : Draft.empty.stepAll scope statements = .ok final)
    (within : count ≤ statements.length) (title : String) :
    (draftAfter scope statements count).latest = .title ∧
        (draftAfter scope statements count).title = some title ↔
      ∃ place, place + 1 = count ∧ BeginsAt statements title place := by
  rcases count with _ | place
  · constructor
    · rintro ⟨latest, -⟩
      cases latest
    · rintro ⟨place, impossible, -⟩
      cases impossible
  · have found : statements[place]? = some statements[place] := List.getElem?_eq_getElem within
    have stepped := step_draftAfter read found
    rw [latest_eq_title_iff_of_step stepped]
    constructor
    · rintro ⟨begins, titled⟩
      rw [(title_of_step stepped begins).1] at titled
      exact ⟨place, rfl, statements[place], found, begins, Option.some.inj titled⟩
    · rintro ⟨_, same, statement, there, begins, titled⟩
      cases same
      rw [found] at there
      cases there
      exact ⟨begins, titled ▸ (title_of_step stepped begins).1⟩

theorem branches_of_latest_title (read : Draft.empty.stepAll scope statements = .ok final)
    (within : count ≤ statements.length)
    (latest : (draftAfter scope statements count).latest = .title) :
    (draftAfter scope statements count).branches = [] := by
  rcases count with _ | place
  · rfl
  · have stepped := step_draftAfter read (List.getElem?_eq_getElem within)
    exact (title_of_step stepped ((latest_eq_title_iff_of_step stepped).mp latest)).2

/-- The dialogues with a first line are those behind whose declaration a statement speaks or opens
a branch. -/
theorem exists_entry_iff_beginsAt (read : Draft.empty.stepAll scope statements = .ok final)
    (within : count ≤ statements.length) (title : String) :
    (∃ line, (draftAfter scope statements count).graph.entries.get? title = some line) ↔
      ∃ place, place + 1 < count ∧ BeginsAt statements title place ∧
        (constructAt statements (place + 1) = some .speech ∨
          constructAt statements (place + 1) = some .ifArm) := by
  refine draftAfter_induction (motive := fun count =>
    (∃ line, (draftAfter scope statements count).graph.entries.get? title = some line) ↔
      ∃ place, place + 1 < count ∧ BeginsAt statements title place ∧
        (constructAt statements (place + 1) = some .speech ∨
          constructAt statements (place + 1) = some .ifArm))
    read (Nat.zero_le count) within ?_ ?_
  · constructor
    · rintro ⟨line, found⟩
      cases found
    · rintro ⟨place, impossible, -⟩
      exact absurd impossible (Nat.not_lt_zero _)
  · intro place statement _ before found stepped soFar
    have early : place ≤ statements.length := Nat.le_of_lt (Nat.lt_of_lt_of_le before within)
    rw [exists_entry_iff_of_step (branches_of_latest_title read early) stepped, soFar,
      latest_title_iff_beginsAt read early]
    constructor
    · rintro (⟨earlier, behind, begins, opens⟩ | ⟨⟨earlier, rfl, begins⟩, opens⟩)
      · exact ⟨earlier, Nat.lt_succ_of_lt behind, begins, opens⟩
      · refine ⟨earlier, Nat.lt_succ_self _, begins, ?_⟩
        rw [constructAt_of_found found]
        exact opens.imp (congrArg some) (congrArg some)
    · rintro ⟨earlier, behind, begins, opens⟩
      rcases Nat.lt_or_eq_of_le (Nat.le_of_lt_succ behind) with behind | rfl
      · exact Or.inl ⟨earlier, behind, begins, opens⟩
      · rw [constructAt_of_found found] at opens
        exact Or.inr ⟨⟨earlier, rfl, begins⟩, opens.imp Option.some.inj Option.some.inj⟩

end Reading

/-! ## Numbers -/

/-- A statement without the number of its line. -/
def unnumbered (statement : Statement) : Statement :=
  { statement with number := 0 }

theorem titlesOf_unnumbered (statements : List Statement) :
    titlesOf (statements.map unnumbered) = titlesOf statements := by
  rw [titlesOf, List.filter_map, List.map_map]
  rfl

/-- Numbers of lines do not matter to what is read. -/
theorem stepAll_eq_ok_of_unnumbered {first second : List Statement}
    (same : first.map unnumbered = second.map unnumbered)
    (read : draft.stepAll scope first = .ok after) : draft.stepAll scope second = .ok after := by
  induction first generalizing second draft with
  | nil =>
      rw [List.map_nil, eq_comm, List.map_eq_nil_iff] at same
      rw [same]
      exact read
  | cons statement rest ih =>
      rw [List.map_cons, eq_comm, List.map_eq_cons_iff] at same
      obtain ⟨other, others, rfl, sameFirst, sameRest⟩ := same
      obtain ⟨middle, firstRead, restRead⟩ := stepAll_cons_eq_ok_iff.mp read
      refine stepAll_cons_eq_ok_iff.mpr ⟨middle, ?_, ih sameRest.symm restRead⟩
      calc
        draft.step scope other = draft.step scope (unnumbered other) := rfl
        _ = draft.step scope (unnumbered statement) := by rw [sameFirst]
        _ = .ok middle := firstRead

theorem readUndeclared?_unnumbered (number other : Nat) (raw : Chars) :
    (Statement.readUndeclared? number raw).map unnumbered =
      (Statement.readUndeclared? other raw).map unnumbered := by
  unfold Statement.readUndeclared? Statement.read?
  split
  · rfl
  · dsimp only
    split <;> rfl

theorem allFrom_unnumbered (number other : Nat) (script : List Chars) :
    (Statement.allFrom number script).map unnumbered =
      (Statement.allFrom other script).map unnumbered := by
  induction script generalizing number other with
  | nil => rfl
  | cons raw rest ih =>
      rw [Statement.allFrom, Statement.allFrom, List.map_append, List.map_append,
        ih (number + 1) (other + 1), ← Option.toList_map, ← Option.toList_map,
        readUndeclared?_unnumbered number other]

end Parley.Draft
