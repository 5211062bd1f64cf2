import Parley.CommandLine.Response
import Parley.Proofs.Compilation.Blame
import Parley.Proofs.Compilation.Sound

/-!
# Overrides keep declared types

Overrides are applied one after the other, each to what the earlier ones have left.  They succeed
exactly if each has the type of the declaration of its variable, where there is one, and all
overrides of one name have one type: whichever comes first fixes the type of a variable that is not
declared.  What is left is the declared variables with the overrides inserted, so the last override
of a name counts.
-/

namespace Parley.CommandLine

open Parley.Text Parley.Script

variable {store after : Store} {override : Override} {overrides : List Override} {name : String}
  {value : Value}

/-- Either a list has a last item of a kind, or it has none. -/
theorem exists_last_or_forall_not {α : Type} (p : α → Prop) (items : List α) :
    (∃ before item after, items = before ++ item :: after ∧ p item ∧ ∀ later ∈ after, ¬ p later) ∨
      ∀ item ∈ items, ¬ p item := by
  induction items with
  | nil => exact Or.inr fun _ member => nomatch member
  | cons first rest ih =>
      rcases ih with ⟨before, item, after, rfl, holds, silent⟩ | silent
      · exact Or.inl ⟨first :: before, item, after, rfl, holds, silent⟩
      · by_cases holds : p first
        · exact Or.inl ⟨[], first, rest, rfl, holds, silent⟩
        · exact Or.inr (List.forall_mem_cons.mpr ⟨holds, silent⟩)

/-! ## Types -/

theorem typeOf?_insert (store : Store) (name other : String) (value : Value) :
    Store.typeOf? (store.insert name value) other =
      if other = name then some value.type else Store.typeOf? store other := by
  rw [Store.typeOf?, NameMap.get?_insert]
  split <;> rfl

namespace Override

/-- The override has the type of its variable, if that is defined. -/
def Fits (override : Override) (store : Store) : Prop :=
  ∀ type, Store.typeOf? store override.name = some type → override.value.type = type

/-- Overrides have the types of the variables that are defined, and those of one name have one
type. -/
structure KeepTypes (store : Store) (overrides : List Override) : Prop where
  fits : ∀ override ∈ overrides, override.Fits store
  agree : ∀ first ∈ overrides, ∀ second ∈ overrides, first.name = second.name →
    first.value.type = second.value.type

theorem KeepTypes.nil : KeepTypes store [] where
  fits _ member := nomatch member
  agree _ member := nomatch member

/-- What an override sets is a variable like the others for those behind it. -/
theorem keepTypes_cons_iff :
    KeepTypes store (override :: overrides) ↔
      override.Fits store ∧ KeepTypes (store.insert override.name override.value) overrides := by
  constructor
  · rintro ⟨fits, agree⟩
    refine ⟨fits _ List.mem_cons_self, fun other member type found => ?_, ?_⟩
    · rw [typeOf?_insert] at found
      split at found
      · rename_i same
        cases found
        exact agree _ (List.mem_cons_of_mem _ member) _ List.mem_cons_self same
      · exact fits _ (List.mem_cons_of_mem _ member) type found
    · exact fun first member second other =>
        agree first (List.mem_cons_of_mem _ member) second (List.mem_cons_of_mem _ other)
  · rintro ⟨fits, others, agree⟩
    have alike : ∀ other ∈ overrides, other.name = override.name →
        other.value.type = override.value.type := by
      intro other member same
      refine others other member _ ?_
      rw [typeOf?_insert, if_pos same]
    refine ⟨List.forall_mem_cons.mpr ⟨fits, fun other member type found => ?_⟩, ?_⟩
    · by_cases same : other.name = override.name
      · rw [same] at found
        exact (alike other member same).trans (fits type found)
      · refine others other member type ?_
        rw [typeOf?_insert, if_neg same, found]
    · intro first member second memberSecond same
      rcases List.mem_cons.mp member with rfl | among <;>
        rcases List.mem_cons.mp memberSecond with rfl | amongSecond
      · rfl
      · exact (alike second amongSecond same.symm).symm
      · exact alike first among same
      · exact agree first among second amongSecond same

/-! ## Applying overrides -/

theorem apply_eq_ok_iff :
    override.apply store = .ok after ↔
      override.Fits store ∧ after = store.insert override.name override.value := by
  unfold apply Fits
  split
  · rename_i declared found
    rw [found]
    split
    · rename_i same
      constructor
      · intro done
        cases done
        exact ⟨fun type equal => (same.symm.trans (Option.some.inj equal)), rfl⟩
      · rintro ⟨-, rfl⟩
        rfl
    · rename_i other
      exact ⟨nofun, fun both => absurd (both.1 declared rfl).symm other⟩
  · rename_i missing
    rw [missing]
    constructor
    · intro done
      cases done
      exact ⟨nofun, rfl⟩
    · rintro ⟨-, rfl⟩
      rfl

theorem applyAll_cons (override : Override) (overrides : List Override) (store : Store) :
    applyAll (override :: overrides) store = override.apply store >>= applyAll overrides :=
  List.foldlM_cons

/-- Overrides succeed exactly if they keep types, and then they are what is inserted. -/
theorem applyAll_eq_ok_iff :
    applyAll overrides store = .ok after ↔
      KeepTypes store overrides ∧
        after = store.insertAll (overrides.map fun override => (override.name, override.value)) := by
  induction overrides generalizing store with
  | nil =>
      refine ⟨fun done => ?_, fun ⟨_, same⟩ => congrArg Except.ok same.symm⟩
      cases done
      exact ⟨KeepTypes.nil, rfl⟩
  | cons override rest ih =>
      rw [applyAll_cons, bind_eq_ok_iff, keepTypes_cons_iff]
      constructor
      · rintro ⟨next, applied, others⟩
        obtain ⟨fits, rfl⟩ := apply_eq_ok_iff.mp applied
        obtain ⟨keep, same⟩ := ih.mp others
        exact ⟨⟨fits, keep⟩, same⟩
      · rintro ⟨⟨fits, keep⟩, same⟩
        exact ⟨_, apply_eq_ok_iff.mpr ⟨fits, rfl⟩, ih.mpr ⟨keep, same⟩⟩

/-- Nothing but a type makes overrides fail. -/
theorem code_of_applyAll_eq_error {failure : Failure}
    (failed : applyAll overrides store = .error failure) : failure.code = "CLI_VAR_INVALID" := by
  induction overrides generalizing store with
  | nil => cases failed
  | cons override rest ih =>
      rw [applyAll_cons] at failed
      rcases applied : override.apply store with fault | next <;> rw [applied] at failed
      · cases failed
        unfold apply at applied
        split at applied
        · split at applied
          · cases applied
          · cases applied
            rfl
        · cases applied
      · exact ih failed

/-! ## The override that counts -/

/-- The last override of a name gives it this value. -/
def LastSets (overrides : List Override) (name : String) (value : Value) : Prop :=
  ∃ before after, overrides = before ++ ⟨name, value⟩ :: after ∧ ∀ later ∈ after, later.name ≠ name

theorem lastSets_cons_iff :
    LastSets (override :: overrides) name value ↔
      LastSets overrides name value ∨
        (override = ⟨name, value⟩ ∧ ∀ later ∈ overrides, later.name ≠ name) := by
  constructor
  · rintro ⟨_ | ⟨first, before⟩, after, split, silent⟩
    · cases split
      exact Or.inr ⟨rfl, silent⟩
    · cases split
      exact Or.inl ⟨before, after, rfl, silent⟩
  · rintro (⟨before, after, rfl, silent⟩ | ⟨rfl, silent⟩)
    · exact ⟨override :: before, after, rfl, silent⟩
    · exact ⟨[], overrides, rfl, silent⟩

theorem LastSets.mem (last : LastSets overrides name value) : ⟨name, value⟩ ∈ overrides := by
  obtain ⟨before, after, rfl, -⟩ := last
  exact List.mem_append_right _ List.mem_cons_self

/-- A name is left with the value of its last override, and without any override with the value
that it had. -/
theorem get?_insertAll_iff :
    (store.insertAll (overrides.map fun override => (override.name, override.value))).get? name =
        some value ↔
      LastSets overrides name value ∨
        (store.get? name = some value ∧ ∀ override ∈ overrides, override.name ≠ name) := by
  induction overrides generalizing store with
  | nil =>
      have none : ¬ LastSets [] name value := fun last => nomatch last.mem
      simp [none, NameMap.insertAll]
  | cons override rest ih =>
      obtain ⟨other, held⟩ := override
      show ((store.insert other held).insertAll _).get? name = some value ↔ _
      rw [ih, NameMap.get?_insert, lastSets_cons_iff, or_assoc]
      refine or_congr_right ?_
      simp only [Override.mk.injEq, List.forall_mem_cons]
      by_cases same : other = name
      · simp [same]
      · simp [same, Ne.symm same]

theorem lastSets_or_forall_ne (overrides : List Override) (name : String) :
    (∃ value, LastSets overrides name value) ∨ ∀ override ∈ overrides, override.name ≠ name := by
  rcases exists_last_or_forall_not (fun override : Override => override.name = name) overrides with
    ⟨before, ⟨_, value⟩, after, split, rfl, silent⟩ | silent
  · exact Or.inl ⟨value, before, after, split, silent⟩
  · exact Or.inr silent

end Override

/-! ## Declarations -/

theorem lastDeclares_or_forall_not (lines : List Chars) (name : String) :
    (∃ value, LastDeclares lines name value) ∨ ∀ raw ∈ lines, ¬ Declares raw name := by
  rcases exists_last_or_forall_not (Declares · name) lines with
    ⟨before, raw, after, split, ⟨value, read⟩, silent⟩ | silent
  · exact Or.inl ⟨value, before, raw, after, split, read, silent⟩
  · exact Or.inr silent

/-- Without other variables, the declarations of a script are all there is. -/
theorem get?_declare_empty_iff {lines : List Chars} :
    (declare .empty lines).get? name = some value ↔ LastDeclares lines name value := by
  rw [get?_declare_iff]
  simp

theorem typeOf?_declare_of_last {lines : List Chars} (last : LastDeclares lines name value) :
    Store.typeOf? (declare .empty lines) name = some value.type := by
  rw [Store.typeOf?, get?_declare_empty_iff.mpr last]
  rfl

/-! ## Sessions with overrides -/

variable {script : ScriptFile} {raws : List String} {session : Session Transcript}

/-- The lines of a script. -/
def ScriptFile.chars (script : ScriptFile) : List Chars :=
  script.lines.map String.toList

/-- The variables of a session are those that the script declares and those that are overridden,
and they have the types of their declarations. -/
structure Overridden (lines : List Chars) (overrides : List Override) (store : Store) : Prop where
  names : ∀ name, store.contains name = true ↔
    (∃ raw ∈ lines, Declares raw name) ∨ ∃ override ∈ overrides, override.name = name
  overridden : ∀ name value, Override.LastSets overrides name value → store.get? name = some value
  declared : ∀ name value, LastDeclares lines name value →
    (∀ override ∈ overrides, override.name ≠ name) → store.get? name = some value
  keepsType : ∀ name value, LastDeclares lines name value →
    Store.typeOf? store name = some value.type
  agree : ∀ first ∈ overrides, ∀ second ∈ overrides, first.name = second.name →
    first.value.type = second.value.type

theorem overridden_of_applyAll {lines : List Chars}
    (applied : Override.applyAll overrides (declare .empty lines) = .ok store) :
    Overridden lines overrides store := by
  obtain ⟨keep, inserted⟩ := Override.applyAll_eq_ok_iff.mp applied
  have found_iff : ∀ {name value}, store.get? name = some value ↔
      Override.LastSets overrides name value ∨
        (LastDeclares lines name value ∧ ∀ override ∈ overrides, override.name ≠ name) := by
    intro name value
    rw [inserted, Override.get?_insertAll_iff, get?_declare_empty_iff]
  refine ⟨fun name => ?_, fun name value last => found_iff.mpr (Or.inl last),
    fun name value last silent => found_iff.mpr (Or.inr ⟨last, silent⟩),
    fun name value last => ?_, keep.agree⟩
  · rw [NameMap.contains, Option.isSome_iff_exists]
    constructor
    · rintro ⟨value, found⟩
      rcases found_iff.mp found with last | ⟨⟨before, raw, after, rfl, read, -⟩, -⟩
      · exact Or.inr ⟨_, last.mem, rfl⟩
      · exact Or.inl ⟨raw, List.mem_append_right _ List.mem_cons_self, value, read⟩
    · intro named
      rcases Override.lastSets_or_forall_ne overrides name with ⟨value, last⟩ | silent
      · exact ⟨value, found_iff.mpr (Or.inl last)⟩
      · rcases lastDeclares_or_forall_not lines name with ⟨value, last⟩ | undeclared
        · exact ⟨value, found_iff.mpr (Or.inr ⟨last, silent⟩)⟩
        · rcases named with ⟨raw, member, declares⟩ | ⟨override, member, same⟩
          · exact absurd declares (undeclared raw member)
          · exact absurd same (silent override member)
  · rcases Override.lastSets_or_forall_ne overrides name with ⟨held, lastSet⟩ | silent
    · have fits := keep.fits _ lastSet.mem value.type (typeOf?_declare_of_last last)
      rw [Store.typeOf?, found_iff.mpr (Or.inl lastSet), ← fits]
      rfl
    · rw [Store.typeOf?, found_iff.mpr (Or.inr ⟨last, silent⟩)]
      rfl

/-- Where the overrides can be read and the script can be compiled, the types are all that is left
to fail. -/
theorem sessionOf_eq_map {graph : Graph} (read : Override.readAll raws = .ok overrides)
    (compiled : (compile Player.commands .empty script.lines).graph = .ok graph) :
    Response.sessionOf script raws =
      (Override.applyAll overrides (declare .empty script.chars)).map fun store =>
        Session.ofGraph graph Player.commands ⟨store, ""⟩ := by
  rw [Response.sessionOf, read, ok_bind, Session.ofScript]
  simp only [compiled, ok_bind]
  rfl

theorem exists_of_sessionOf (created : Response.sessionOf script raws = .ok session) :
    ∃ overrides, Override.readAll raws = .ok overrides ∧
      ∃ graph, (compile Player.commands .empty script.lines).graph = .ok graph := by
  obtain ⟨overrides, read, created⟩ := bind_eq_ok_iff.mp created
  obtain ⟨plain, compiled, -⟩ := bind_eq_ok_iff.mp created
  refine ⟨overrides, read, ?_⟩
  rcases failed : (compile Player.commands .empty script.lines).graph with diagnostic | graph
  · simp only [Session.ofScript, failed] at compiled
    cases compiled
  · exact ⟨graph, rfl⟩

/-- Overrides keep declared types.  In a session that has been made, the variables are the declared
and the overridden ones, each has the value of its last override or else of its declaration, and a
declared one has the type of its declaration.  Where everything can be read and compiled, an
override of a declared variable with another type makes the session fail, whatever the other
overrides are. -/
theorem overrides_keep_declared_types (script : ScriptFile) (raws : List String) :
    (∀ session, Response.sessionOf script raws = .ok session →
      ∃ overrides, Override.readAll raws = .ok overrides ∧
        Overridden script.chars overrides session.world.store) ∧
    ∀ overrides graph, Override.readAll raws = .ok overrides →
      (compile Player.commands .empty script.lines).graph = .ok graph →
      (∃ override ∈ overrides, ∃ declared, LastDeclares script.chars override.name declared ∧
        override.value.type ≠ declared.type) →
      ∃ failure, Response.sessionOf script raws = .error failure ∧
        failure.code = "CLI_VAR_INVALID" := by
  constructor
  · intro session created
    obtain ⟨overrides, read, graph, compiled⟩ := exists_of_sessionOf created
    rw [sessionOf_eq_map read compiled] at created
    rcases applied : Override.applyAll overrides (declare .empty script.chars) with failure | store
      <;> rw [applied] at created
    · cases created
    · cases created
      exact ⟨overrides, read, overridden_of_applyAll applied⟩
  · rintro overrides graph read compiled ⟨override, member, declared, last, other⟩
    rw [sessionOf_eq_map read compiled]
    rcases applied : Override.applyAll overrides (declare .empty script.chars) with failure | store
    · exact ⟨failure, rfl, Override.code_of_applyAll_eq_error applied⟩
    · obtain ⟨keep, -⟩ := Override.applyAll_eq_ok_iff.mp applied
      exact absurd (keep.fits override member _ (typeOf?_declare_of_last last)) other

/-- A script with one declared variable. -/
def purse : ScriptFile :=
  ⟨"purse.dlg", ["$Gold = 0", "- A", "NPC: Hi"]⟩

/-- Of several overrides the last counts, and a wrong one is found among them. -/
theorem overrides_keep_declared_types_of_purse :
    (∃ session, Response.sessionOf purse ["Gold=7", "Extra=many", "Gold=8", "Extra=few"] =
        .ok session ∧
      session.world.store = NameMap.ofList [("Extra", .text "few"), ("Gold", .integer 8)] ∧
      Store.typeOf? session.world.store "Gold" = some .integer) ∧
    ∃ failure, Response.sessionOf purse ["Extra=1", "Gold=7", "Gold=many"] = .error failure ∧
      failure.code = "CLI_VAR_INVALID" := by
  have compiled : (compile Player.commands .empty purse.lines).graph =
      .ok (compiledGraph Player.commands .empty purse.lines) := by
    apply compile_eq_ok_compiledGraph
    decide +kernel
  have declared : LastDeclares purse.chars "Gold" (.integer 0) :=
    get?_declare_empty_iff.mp (by decide +kernel)
  constructor
  · let overrides : List Override :=
      [⟨"Gold", .integer 7⟩, ⟨"Extra", .text "many"⟩, ⟨"Gold", .integer 8⟩, ⟨"Extra", .text "few"⟩]
    have read : Override.readAll ["Gold=7", "Extra=many", "Gold=8", "Extra=few"] = .ok overrides := by
      decide +kernel
    have applied : Override.applyAll overrides (declare .empty purse.chars) =
        .ok (NameMap.ofList [("Extra", .text "few"), ("Gold", .integer 8)]) := by
      decide +kernel
    have created := sessionOf_eq_map read compiled
    rw [applied] at created
    obtain ⟨others, -, overridden⟩ := (overrides_keep_declared_types purse _).1 _ created
    exact ⟨_, created, rfl, overridden.keepsType _ _ declared⟩
  · refine (overrides_keep_declared_types purse _).2
      [⟨"Extra", .integer 1⟩, ⟨"Gold", .integer 7⟩, ⟨"Gold", .text "many"⟩] _ ?_ compiled
      ⟨⟨"Gold", .text "many"⟩, by simp, .integer 0, declared, by decide⟩
    decide +kernel

end Parley.CommandLine
