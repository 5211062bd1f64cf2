import Parley.Proofs.Compilation.Typed

/-!
# Values are bound late

What a script is compiled to depends on the names of the commands and variables that there are,
on the signatures of the commands and on the types of the variables.  What a command does and
what a variable holds when the script is compiled play no part, not even in what is said of a
script that does not compile.
-/

namespace Parley

open Parley.Script

/-! ## Maps that look alike -/

section Alike

variable {α β γ : Type} {see : α → γ} {look : β → γ}

/-- Two maps that have the same names, and at each of them values that look alike. -/
def NameMap.Alike (see : α → γ) (look : β → γ) (first : NameMap α) (second : NameMap β) : Prop :=
  ∀ name, (first.get? name).map see = (second.get? name).map look

namespace NameMap.Alike

variable {first : NameMap α} {second : NameMap β}

theorem empty : Alike see look NameMap.empty NameMap.empty :=
  fun _ => rfl

theorem insert (alike : Alike see look first second) (name : String) {value : α} {other : β}
    (same : see value = look other) :
    Alike see look (first.insert name value) (second.insert name other) := by
  intro found
  rw [get?_insert, get?_insert]
  split
  · exact congrArg some same
  · exact alike found

theorem insertAll (alike : Alike see look first second) {entries : List (String × α)}
    {others : List (String × β)}
    (same : entries.map (Prod.map id see) = others.map (Prod.map id look)) :
    Alike see look (first.insertAll entries) (second.insertAll others) := by
  induction entries generalizing first second others with
  | nil =>
      cases List.map_eq_nil_iff.mp same.symm
      exact alike
  | cons entry rest ih =>
      obtain ⟨⟨name, other⟩, others, rfl, head, tail⟩ := List.map_eq_cons_iff.mp same.symm
      obtain ⟨rfl, looks⟩ := Prod.mk.inj head
      exact ih (alike.insert entry.1 looks.symm) tail.symm

/-- Maps of entries that look alike. -/
theorem ofList {entries : List (String × α)} {others : List (String × β)}
    (same : entries.map (Prod.map id see) = others.map (Prod.map id look)) :
    Alike see look (NameMap.ofList entries) (NameMap.ofList others) :=
  empty.insertAll same

end NameMap.Alike

end Alike

/-! ## Registries and stores -/

variable {σ τ : Type}

/-- Two registries of the same names, with the same signatures. -/
def Registry.SameSignatures (first : Registry σ) (second : Registry τ) : Prop :=
  NameMap.Alike Command.signature Command.signature first second

/-- Two stores of the same variables, with the same types. -/
def Store.SameTypes (first second : Store) : Prop :=
  NameMap.Alike Value.type Value.type first second

namespace Registry.SameSignatures

/-- The built-in commands have the same signatures, whatever state a host keeps. -/
theorem builtin : SameSignatures (Registry.builtin : Registry σ) (Registry.builtin : Registry τ) :=
  NameMap.Alike.ofList rfl

/-- So have the commands that two hosts add under one name, if they declare them alike. -/
theorem register {first : Registry σ} {second : Registry τ} (same : first.SameSignatures second)
    (name : String) (parameters : List Parameter) (result : Option DataType)
    (function : HostFunction σ) (other : HostFunction τ) :
    (first.register name parameters result function).SameSignatures
      (second.register name parameters result other) :=
  NameMap.Alike.insert same name rfl

end Registry.SameSignatures

/-- The declarations of a script set the same variables to the same values in both stores. -/
theorem Store.SameTypes.declare {first second : Store} (same : first.SameTypes second)
    (script : List Text.Chars) :
    (Script.declare first script).SameTypes (Script.declare second script) :=
  NameMap.Alike.insertAll same rfl

/-- A scope knows signatures and types only. -/
theorem Script.Scope.ofWorld_congr {registry : Registry σ} {other : Registry τ}
    {first second : Store} (signatures : registry.SameSignatures other)
    (types : first.SameTypes second) : ofWorld registry first = ofWorld other second := by
  have known : registry.signature? = other.signature? := funext signatures
  have typed : Store.typeOf? first = Store.typeOf? second := funext types
  rw [ofWorld, ofWorld, known, typed]

/-- Against any commands of the same names and signatures and any variables of the same names and
types, a script compiles to the same graph, or it fails with the same fault in the same line.
The variables that it leaves are again of the same names and types. -/
theorem compile_eq_of_sameTypes {registry : Registry σ} {other : Registry τ}
    {first second : Store} (signatures : registry.SameSignatures other)
    (types : first.SameTypes second) (script : List String) :
    (compile registry first script).graph = (compile other second script).graph ∧
      (compile registry first script).store.SameTypes (compile other second script).store := by
  have declared := types.declare (script.map String.toList)
  refine ⟨?_, declared⟩
  simp only [compile, Scope.ofWorld_congr signatures declared]

/-- Commands of a host that keeps no count and knows no luck. -/
def lucklessRegistry : Registry Unit :=
  Registry.builtin.register "Lucky" [.exactly .integer] (some .boolean)
    fun _ host => (.error "no luck", host)

/-- A dialogue that declares one variable and tests and sets others. -/
def debtScript : List String :=
  ["$gold = 5", "- Shop", "(if Lucky($gold) and $debt < 50)",
    "\tKeeper: Good day. ($debt = $gold; $met = true)"]

/-- Neither the luck of the host nor the gold, the debt and the past of the player make a
difference, whether or not the script compiles. -/
theorem compile_eq_of_other_values :
    let rich : Store :=
      NameMap.ofList [("gold", .integer 900), ("debt", .integer 0), ("met", .boolean false)]
    let poor : Store :=
      NameMap.ofList [("gold", .integer 1), ("debt", .integer 70), ("met", .boolean true)]
    let wrong : List String := ["- Shop", "Keeper: Good day. (Lucky($met))"]
    luckRegistry.SameSignatures lucklessRegistry ∧ rich.SameTypes poor ∧
      ((compile luckRegistry rich debtScript).graph =
          (compile lucklessRegistry poor debtScript).graph ∧
        (compile luckRegistry rich debtScript).graph.toOption.isSome = true) ∧
      (compile luckRegistry rich wrong).graph = (compile lucklessRegistry poor wrong).graph ∧
        (compile luckRegistry rich wrong).graph =
          .error ⟨.signatureMismatch "Lucky" "integer" "boolean", some 2⟩ := by
  intro rich poor wrong
  have signatures : luckRegistry.SameSignatures lucklessRegistry :=
    Registry.SameSignatures.builtin.register "Lucky" _ _ _ _
  have types : rich.SameTypes poor := NameMap.Alike.ofList rfl
  refine ⟨signatures, types, ⟨?_, by decide +kernel⟩, ?_, by decide +kernel⟩
  · exact (compile_eq_of_sameTypes signatures types debtScript).1
  · exact (compile_eq_of_sameTypes signatures types wrong).1

end Parley
