import Parley.Proofs.Compilation.LateBinding
import Parley.Proofs.Script.Edits

/-!
# The line to blame

A script that does not compile has either been read to its end without a fault, and then it
declares no dialogue, or it has a first significant line that cannot be read.  That line is
blamed, and nothing behind it plays a part: another script that begins with the same lines fails
in the same way, as long as its declarations leave variables of the same names and types.
Whichever it is, the variables are set by all the declarations and by nothing else.
-/

namespace Parley

open Parley.Script
open Parley.Text

/-! ## The statement that fails -/

/-- Statements that cannot be read have a first one that cannot, and that one is blamed. -/
theorem Draft.exists_of_stepAll_eq_error {scope : Scope} {draft : Draft}
    {statements : List Statement} {diagnostic : Diagnostic}
    (failed : draft.stepAll scope statements = .error diagnostic) :
    ∃ before statement after middle fault,
      statements = before ++ statement :: after ∧
        draft.stepAll scope before = .ok middle ∧
        middle.step scope statement = .error fault ∧
        diagnostic = (Diagnostic.ofFault fault).atLine statement.number := by
  induction statements generalizing draft with
  | nil => cases failed
  | cons statement rest ih =>
      rw [stepAll] at failed
      rcases stepped : draft.step scope statement with fault | next <;> rw [stepped] at failed
      · cases failed
        exact ⟨[], statement, rest, draft, fault, rfl, rfl, stepped, rfl⟩
      · obtain ⟨before, blamed, after, middle, fault, rfl, read, fails, same⟩ := ih failed
        refine ⟨statement :: before, blamed, after, middle, fault, rfl, ?_, fails, same⟩
        rw [stepAll, stepped]
        exact read

/-- What stands behind a statement that cannot be read is not read. -/
theorem Draft.stepAll_eq_error {scope : Scope} {draft middle : Draft} {before : List Statement}
    {statement : Statement} {fault : Fault} (read : draft.stepAll scope before = .ok middle)
    (fails : middle.step scope statement = .error fault) (after : List Statement) :
    draft.stepAll scope (before ++ statement :: after) =
      .error ((Diagnostic.ofFault fault).atLine statement.number) := by
  rw [stepAll_append, read]
  show middle.stepAll scope (statement :: after) = _
  rw [stepAll, fails]

/-! ## The declaration that counts -/

namespace Script

/-- The last line that declares a variable gives it this value. -/
def LastDeclares (lines : List Chars) (name : String) (value : Value) : Prop :=
  ∃ before raw after, lines = before ++ raw :: after ∧
    Declaration.read? raw = some ⟨name, value⟩ ∧ ∀ later ∈ after, ¬ Declares later name

variable {store : Store} {raw : Chars} {lines : List Chars} {name : String} {value : Value}

theorem lastDeclares_cons_iff :
    LastDeclares (raw :: lines) name value ↔
      LastDeclares lines name value ∨
        (Declaration.read? raw = some ⟨name, value⟩ ∧ ∀ later ∈ lines, ¬ Declares later name) := by
  constructor
  · rintro ⟨_ | ⟨first, before⟩, last, after, split, read, silent⟩
    · cases split
      exact Or.inr ⟨read, silent⟩
    · cases split
      exact Or.inl ⟨before, last, after, rfl, read, silent⟩
  · rintro (⟨before, last, after, rfl, read, silent⟩ | ⟨read, silent⟩)
    · exact ⟨raw :: before, last, after, rfl, read, silent⟩
    · exact ⟨[], raw, lines, rfl, read, silent⟩

/-- One line sets the variable that it declares. -/
theorem get?_declare_singleton_iff :
    (declare store [raw]).get? name = some value ↔
      Declaration.read? raw = some ⟨name, value⟩ ∨
        (store.get? name = some value ∧ ¬ Declares raw name) := by
  rcases read : Declaration.read? raw with _ | ⟨other, held⟩
  · have kept : declare store [raw] = store := by
      rw [declare, Declaration.all, List.filterMap_cons, read]
      rfl
    simp [kept, Declares, read]
  · have set : declare store [raw] = store.insert other held := by
      rw [declare, Declaration.all, List.filterMap_cons, read]
      rfl
    rw [set, NameMap.get?_insert]
    by_cases same : name = other
    · simp [same, Declares, read]
    · simp [same, Ne.symm same, Declares, read]

/-- A variable is left with the value that its last declaration gives it, and without any
declaration with the value that it had. -/
theorem get?_declare_iff :
    (declare store lines).get? name = some value ↔
      LastDeclares lines name value ∨
        (store.get? name = some value ∧ ∀ raw ∈ lines, ¬ Declares raw name) := by
  induction lines generalizing store with
  | nil =>
      have none : ¬ LastDeclares [] name value := by
        rintro ⟨before, raw, after, split, -⟩
        cases before <;> cases split
      simp [none]
  | cons raw rest ih =>
      rw [declare_cons, ih, get?_declare_singleton_iff, lastDeclares_cons_iff]
      simp only [List.forall_mem_cons, or_and_right, or_assoc, and_assoc]

end Script

/-! ## Significant lines -/

/-- The line of this number, counted from one, is significant. -/
def SignificantAt (script : List String) (number : Nat) : Prop :=
  ∃ before raw after, script = before ++ raw :: after ∧ number = before.length + 1 ∧
    IsSignificant raw.toList

variable {σ : Type} {registry : Registry σ} {store : Store} {script : List String}

/-- Each statement of a script is read from one line, behind the lines of those before it. -/
theorem exists_line_of_statementsOf {earlier later : List Statement} {statement : Statement}
    (split : statementsOf script = earlier ++ statement :: later) :
    ∃ before raw after, script = before ++ raw :: after ∧ statementsOf before = earlier ∧
      Statement.readUndeclared? (before.length + 1) raw.toList = some statement := by
  obtain ⟨front, raw, back, lines, same, reads⟩ := Statement.exists_line_of_allFrom split
  obtain ⟨before, rest, rfl, rfl, shape⟩ := List.map_eq_append_iff.mp lines
  obtain ⟨raw, after, rfl, rfl, rfl⟩ := List.map_eq_cons_iff.mp shape
  rw [List.length_map, Nat.add_comm] at reads
  exact ⟨before, raw, after, rfl, same, reads⟩

/-- The lines up to a statement decide about the statements up to it. -/
theorem exists_statementsOf_eq {before : List String} {raw : String} {statement : Statement}
    (reads : Statement.readUndeclared? (before.length + 1) raw.toList = some statement)
    (after : List String) :
    ∃ later, statementsOf (before ++ raw :: after) = statementsOf before ++ statement :: later := by
  rw [Nat.add_comm, ← before.length_map (f := String.toList)] at reads
  rw [statementsOf, List.map_append, List.map_cons]
  exact Statement.allFrom_of_line reads (after.map String.toList)

/-- The significant lines are the lines of the statements. -/
theorem significantAt_iff {number : Nat} :
    SignificantAt script number ↔ ∃ statement ∈ statementsOf script, statement.number = number := by
  constructor
  · rintro ⟨before, raw, after, rfl, rfl, significant⟩
    obtain ⟨statement, reads⟩ := Statement.isSignificant_iff.mp significant
    obtain ⟨later, split⟩ := exists_statementsOf_eq reads after
    refine ⟨statement, ?_, Statement.number_of_readUndeclared? reads⟩
    rw [split]
    exact List.mem_append_right _ List.mem_cons_self
  · rintro ⟨statement, member, rfl⟩
    obtain ⟨earlier, later, split⟩ := List.append_of_mem member
    obtain ⟨before, raw, after, rfl, -, reads⟩ := exists_line_of_statementsOf split
    exact ⟨before, raw, after, rfl, Statement.number_of_readUndeclared? reads,
      Statement.isSignificant_iff.mpr ⟨statement, reads⟩⟩

/-! ## The line to blame -/

/-- The line of this number decides that the script fails in this way. -/
structure DecidedAt (registry : Registry σ) (store : Store) (script : List String)
    (diagnostic : Diagnostic) (number : Nat) : Prop where
  blamed : diagnostic.line = some number
  positive : 1 ≤ number
  within : number ≤ script.length
  significant : SignificantAt script number
  /-- Every significant line before it is read without a fault. -/
  readable : ∃ draft, Draft.empty.stepAll (scopeOf registry store script)
    (statementsOf (script.take (number - 1))) = .ok draft
  /-- No line behind it plays a part, except for the types that the declarations give to
  variables. -/
  decided : ∀ (earlier : Store) (other : List String), other.take number = script.take number →
    (compile registry earlier other).store.SameTypes (compile registry store script).store →
      (compile registry earlier other).graph = .error diagnostic

theorem compile_graph_eq :
    (compile registry store script).graph =
      graphOf (scopeOf registry store script) (statementsOf script) :=
  rfl

/-- A script whose statements are all read can still fail for the lack of a dialogue. -/
theorem eq_of_finish_eq_error {draft : Draft} {diagnostic : Diagnostic}
    (failed : draft.finish = .error diagnostic) :
    diagnostic = Diagnostic.ofFault .emptyScript := by
  unfold Draft.finish at failed
  dsimp only at failed
  split at failed
  · exact (Except.error.inj failed).symm
  · cases failed

/-- A statement that cannot be read decides at its line. -/
theorem decidedAt_of_stepAll_eq_error {diagnostic : Diagnostic}
    (failed : Draft.empty.stepAll (scopeOf registry store script) (statementsOf script) =
      .error diagnostic) :
    ∃ number, DecidedAt registry store script diagnostic number := by
  obtain ⟨earlier, statement, later, middle, fault, split, read, fails, rfl⟩ :=
    Draft.exists_of_stepAll_eq_error failed
  obtain ⟨before, raw, after, rfl, rfl, reads⟩ := exists_line_of_statementsOf split
  have kept : (before ++ raw :: after).take (before.length + 1) = before ++ [raw] := by
    rw [← List.singleton_append, ← List.append_assoc]
    exact List.take_left' (by simp)
  refine ⟨before.length + 1, ?_, by omega, by simp, ?_, ⟨middle, ?_⟩, ?_⟩
  · rw [Diagnostic.line_atLine_ofFault, Statement.number_of_readUndeclared? reads]
  · exact ⟨before, raw, after, rfl, rfl, Statement.isSignificant_iff.mpr ⟨statement, reads⟩⟩
  · rw [Nat.add_sub_cancel, List.take_left]
    exact read
  · intro origin other same types
    obtain ⟨others, rfl⟩ : ∃ others, other = before ++ raw :: others := by
      refine ⟨other.drop (before.length + 1), ?_⟩
      rw [← List.singleton_append, ← List.append_assoc, ← kept, ← same, List.take_append_drop]
    obtain ⟨following, statements⟩ := exists_statementsOf_eq reads others
    have scopes : scopeOf registry origin (before ++ raw :: others) =
        scopeOf registry store (before ++ raw :: after) :=
      Scope.ofWorld_congr (fun _ => rfl) types
    rw [compile_graph_eq, scopes, graphOf, statements, Draft.stepAll_eq_error read fails]
    rfl

/-- A script that does not compile either declares no dialogue, and then no line is blamed and
every significant line has been read, or a significant line decides that it fails, and that one is
blamed.  Whether or not it compiles, its declarations and nothing else have set the variables. -/
theorem compile_blames_deciding_line (registry : Registry σ) (store : Store)
    (script : List String) :
    (∀ number, SignificantAt script number ↔
        ∃ statement ∈ statementsOf script, statement.number = number) ∧
      (∀ diagnostic, (compile registry store script).graph = .error diagnostic →
        (diagnostic = ⟨.emptyScript, none⟩ ∧
            ∃ draft, Draft.empty.stepAll (scopeOf registry store script) (statementsOf script) =
              .ok draft) ∨
          ∃ number, DecidedAt registry store script diagnostic number) ∧
      ∀ name value, (compile registry store script).store.get? name = some value ↔
        LastDeclares (script.map String.toList) name value ∨
          (store.get? name = some value ∧
            ∀ raw ∈ script.map String.toList, ¬ Declares raw name) := by
  refine ⟨fun number => significantAt_iff, fun diagnostic failed => ?_,
    fun name value => get?_declare_iff⟩
  rw [compile_graph_eq, graphOf] at failed
  rcases read : Draft.empty.stepAll (scopeOf registry store script) (statementsOf script) with
    _ | draft <;> rw [read] at failed
  · cases failed
    exact Or.inr (decidedAt_of_stepAll_eq_error read)
  · exact Or.inl ⟨eq_of_finish_eq_error failed, draft, rfl⟩

/-- A branch that compares a number with a text that is declared behind it. -/
def pricedScript : List String :=
  ["$price = 5", "- Shop", "// Prices", "(if $price < $gold)", "\tKeeper: Pay.",
    "$gold = \"none\""]

/-- The same beginning, with another text and an option that nobody offers. -/
def repricedScript : List String :=
  ["$price = 5", "- Shop", "// Prices", "(if $price < $gold)", "$gold = \"all\"", "> "]

/-- The comparison is blamed in both scripts.  The text stays all the same, and without a dialogue
no line is blamed. -/
theorem blames_comparison_with_later_text :
    let failure : Diagnostic := ⟨.signatureMismatch "<" "number, number" "integer, text", some 4⟩
    let untitled := ["$gold = 5", "  // Prices", "$gold = 6"]
    (compile hostless .empty pricedScript).graph = .error failure ∧
      (compile hostless .empty repricedScript).graph = .error failure ∧
      (compile hostless .empty pricedScript).store.get? "gold" = some (.text "none") ∧
      (compile hostless .empty untitled).graph = .error ⟨.emptyScript, none⟩ ∧
      (compile hostless .empty untitled).store.get? "gold" = some (.integer 6) := by
  intro failure untitled
  have fails : (compile hostless .empty pricedScript).graph = .error failure := by decide +kernel
  have empty : (compile hostless .empty untitled).graph = .error ⟨.emptyScript, none⟩ := by
    decide +kernel
  obtain ⟨-, blames, values⟩ := compile_blames_deciding_line hostless .empty pricedScript
  obtain ⟨-, -, counts⟩ := compile_blames_deciding_line hostless .empty untitled
  have types : (compile hostless .empty repricedScript).store.SameTypes
      (compile hostless .empty pricedScript).store :=
    NameMap.Alike.insertAll .empty (by decide +kernel)
  refine ⟨fails, ?_, (values _ _).mpr (Or.inl ?_), empty, (counts _ _).mpr (Or.inl ?_)⟩
  · rcases blames failure fails with ⟨other, -⟩ | ⟨number, decided⟩
    · exact absurd other (by decide)
    · cases decided.blamed
      exact decided.decided _ repricedScript rfl types
  · exact ⟨pricedScript.dropLast.map String.toList, "$gold = \"none\"".toList, [], rfl,
      by decide +kernel, by simp⟩
  · exact ⟨["$gold = 5".toList, "  // Prices".toList], "$gold = 6".toList, [], rfl,
      by decide +kernel, by simp⟩

end Parley
