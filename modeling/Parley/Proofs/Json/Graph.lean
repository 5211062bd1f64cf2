import Parley.Json.Graph
import Parley.Proofs.Json.Atoms
import Parley.Proofs.Json.Compact

/-!
# A dump loses nothing

Two graphs, or two stores of variables, to which a faithful printer gives the same compact dump are
equal, as long as their floating-point numbers are finite.  A value stands bare in the dump, so it is
its text that says of which type it is; an argument says itself whether it is a literal or a
variable.
-/

namespace Parley

open Parley.Number

namespace Json

@[simp]
theorem isFinite_null : null.IsFinite :=
  .null

@[simp]
theorem isFinite_boolean (value : Bool) : (boolean value).IsFinite :=
  .boolean value

@[simp]
theorem isFinite_integer (value : Int) : (integer value).IsFinite :=
  .integer value

@[simp]
theorem isFinite_natural (number : Nat) : (natural number).IsFinite :=
  .integer number

@[simp]
theorem isFinite_text (value : String) : (text value).IsFinite :=
  .text value

@[simp]
theorem isFinite_list_iff {items : List Json} :
    (list items).IsFinite ↔ ∀ item ∈ items, item.IsFinite :=
  ⟨fun | .list each => each, .list⟩

@[simp]
theorem isFinite_record_iff {fields : List (String × Json)} :
    (record fields).IsFinite ↔ ∀ field ∈ fields, field.2.IsFinite :=
  ⟨fun | .record each => each, .record⟩

theorem isFinite_optional {α : Type} {encode : α → Json} (each : ∀ value, (encode value).IsFinite)
    (value : Option α) : (optional encode value).IsFinite := by
  cases value with
  | none => exact .null
  | some value => exact each value

theorem natural_injective : Function.Injective natural := by
  intro number other same
  exact Int.ofNat.inj (Json.integer.inj same)

/-- What is missing is told apart from everything that is written otherwise than null. -/
theorem optional_injective {α : Type} {encode : α → Json} (injective : Function.Injective encode)
    (written : ∀ value, encode value ≠ null) : Function.Injective (optional encode) := by
  intro value other same
  cases value with
  | none =>
      cases other with
      | none => rfl
      | some other => exact absurd same.symm (written other)
  | some value =>
      cases other with
      | none => exact absurd same (written value)
      | some other => exact congrArg some (injective same)

theorem link_injective : Function.Injective link :=
  optional_injective natural_injective fun _ => Json.noConfusion

theorem optional_text_injective : Function.Injective (optional text) :=
  optional_injective (fun _ _ => Json.text.inj) fun _ => Json.noConfusion

end Json

/-! ## Values and variables -/

theorem Value.toJson_injective : Function.Injective Value.toJson := by
  intro value other same
  cases value <;> cases other <;> simp_all [Value.toJson, Int64.toInt_inj]

/-- The value is no infinity and not the value that is no number. -/
def Value.HasFiniteFloat : Value → Prop
  | float number => number.isFinite = true
  | _ => True

instance : DecidablePred Value.HasFiniteFloat
  | .float number => inferInstanceAs (Decidable (number.isFinite = true))
  | .integer _ | .boolean _ | .text _ => isTrue trivial

theorem Value.HasFiniteFloat.isFinite {value : Value} (finite : value.HasFiniteFloat) :
    value.toJson.IsFinite := by
  cases value with
  | float => exact .real finite
  | _ => simp [Value.toJson]

/-- The names and values of a map, each written in its own way, determine the map. -/
theorem NameMap.map_toList_injective {α : Type} {encode : α → Json}
    (injective : Function.Injective encode) :
    Function.Injective fun map : NameMap α =>
      map.toList.map fun (name, value) => (name, encode value) := by
  intro map other same
  have entry : Function.Injective fun (name, value) => ((name, encode value) : String × Json) := by
    rintro ⟨name, value⟩ ⟨name', value'⟩ alike
    obtain ⟨rfl, written⟩ := Prod.mk.inj alike
    rw [injective written]
  have entries : map.entries = other.entries := entry.list_map same
  ext name : 1
  rw [NameMap.get?, NameMap.get?, entries]

theorem Store.toJson_injective : Function.Injective Store.toJson :=
  fun _ _ same => NameMap.map_toList_injective Value.toJson_injective (Json.record.inj same)

/-- The floating-point numbers among the variables are finite. -/
def Store.HasFiniteFloats (store : Store) : Prop :=
  ∀ entry ∈ store.toList, entry.2.HasFiniteFloat

instance (store : Store) : Decidable store.HasFiniteFloats :=
  inferInstanceAs (Decidable (∀ entry ∈ store.toList, entry.2.HasFiniteFloat))

theorem Store.HasFiniteFloats.isFinite {store : Store} (finite : store.HasFiniteFloats) :
    store.toJson.IsFinite := by
  refine .record fun field member => ?_
  obtain ⟨entry, among, rfl⟩ := List.mem_map.mp member
  exact (finite entry among).isFinite

/-! ## Calls -/

theorem Argument.toJson_injective : Function.Injective Argument.toJson := by
  intro argument other same
  cases argument <;> cases other <;>
    simp_all [Argument.toJson, Value.toJson_injective.eq_iff]

theorem Call.toJson_injective : Function.Injective Call.toJson := by
  intro call other same
  obtain ⟨name, arguments⟩ := call
  obtain ⟨name', arguments'⟩ := other
  simpa [Call.toJson, Argument.toJson_injective.list_map.eq_iff] using same

theorem Call.listToJson_injective : Function.Injective Call.listToJson :=
  fun _ _ same => Call.toJson_injective.list_map (Json.list.inj same)

/-- The floating-point numbers among the arguments are finite. -/
def Call.HasFiniteFloats (call : Call) : Prop :=
  ∀ value, Argument.literal value ∈ call.arguments → value.HasFiniteFloat

theorem Call.isFinite_listToJson {calls : List Call}
    (finite : ∀ call ∈ calls, call.HasFiniteFloats) : (Call.listToJson calls).IsFinite := by
  refine .list fun item member => ?_
  obtain ⟨call, among, rfl⟩ := List.mem_map.mp member
  have arguments : ∀ argument ∈ call.arguments, argument.toJson.IsFinite := by
    intro argument inside
    cases argument with
    | literal value => simpa [Argument.toJson] using (finite call among value inside).isFinite
    | reference name => simp [Argument.toJson]
  simpa [Call.toJson] using arguments

/-! ## Graphs -/

/-- The floating-point numbers in the calls and conditions of a graph are finite. -/
structure Graph.HasFiniteFloats (graph : Graph) : Prop where
  lines : ∀ line ∈ graph.lines, ∀ call ∈ line.commands, call.HasFiniteFloats
  arms : ∀ branch ∈ graph.branches, ∀ arm ∈ branch.arms, ∀ call ∈ arm.conditions,
    call.HasFiniteFloats
  choices : ∀ choice ∈ graph.choices, ∀ call ∈ choice.conditions ++ choice.commands,
    call.HasFiniteFloats

theorem Line.toJson_injective : Function.Injective Line.toJson := by
  intro line other same
  obtain ⟨speaker, text, expression, commands, next, branch, choices⟩ := line
  obtain ⟨speaker', text', expression', commands', next', branch', choices'⟩ := other
  simpa [Line.toJson, Json.optional_text_injective.eq_iff, Call.listToJson_injective.eq_iff,
    Json.link_injective.eq_iff, Json.natural_injective.list_map.eq_iff] using same

theorem Arm.toJson_injective : Function.Injective Arm.toJson := by
  intro arm other same
  obtain ⟨conditions, body⟩ := arm
  obtain ⟨conditions', body'⟩ := other
  simpa [Arm.toJson, Call.listToJson_injective.eq_iff, Json.link_injective.eq_iff] using same

theorem Branch.toJson_injective : Function.Injective Branch.toJson := by
  intro branch other same
  obtain ⟨arms⟩ := branch
  obtain ⟨arms'⟩ := other
  simpa [Branch.toJson, Arm.toJson_injective.list_map.eq_iff] using same

theorem Choice.toJson_injective : Function.Injective Choice.toJson := by
  intro choice other same
  obtain ⟨text, conditions, commands, next, branch, root, selected⟩ := choice
  obtain ⟨text', conditions', commands', next', branch', root', selected'⟩ := other
  simpa [Choice.toJson, Call.listToJson_injective.eq_iff, Json.link_injective.eq_iff,
    Json.natural_injective.eq_iff] using same

theorem Graph.toJson_injective : Function.Injective Graph.toJson := by
  intro graph other same
  obtain ⟨entries, lines, branches, choices⟩ := graph
  obtain ⟨entries', lines', branches', choices'⟩ := other
  have titles := (NameMap.map_toList_injective Json.natural_injective).eq_iff
    (a := entries) (b := entries')
  simpa [Graph.toJson, titles, Line.toJson_injective.list_map.eq_iff,
    Branch.toJson_injective.list_map.eq_iff, Choice.toJson_injective.list_map.eq_iff,
    Array.toList_inj] using same

theorem Json.isFinite_link (target : Option Nat) : (Json.link target).IsFinite :=
  isFinite_optional isFinite_natural target

theorem Line.isFinite_toJson {line : Line} (finite : ∀ call ∈ line.commands, call.HasFiniteFloats) :
    line.toJson.IsFinite := by
  have commands := Call.isFinite_listToJson finite
  simp [Line.toJson, commands, Json.isFinite_link, Json.isFinite_optional]

theorem Branch.isFinite_toJson {branch : Branch}
    (finite : ∀ arm ∈ branch.arms, ∀ call ∈ arm.conditions, call.HasFiniteFloats) :
    branch.toJson.IsFinite := by
  have arm : ∀ arm ∈ branch.arms, arm.toJson.IsFinite := by
    intro arm member
    have conditions := Call.isFinite_listToJson (finite arm member)
    simp [Arm.toJson, conditions, Json.isFinite_link]
  simpa [Branch.toJson] using arm

theorem Choice.isFinite_toJson {choice : Choice}
    (finite : ∀ call ∈ choice.conditions ++ choice.commands, call.HasFiniteFloats) :
    choice.toJson.IsFinite := by
  have conditions := Call.isFinite_listToJson fun call member =>
    finite call (List.mem_append_left _ member)
  have commands := Call.isFinite_listToJson fun call member =>
    finite call (List.mem_append_right _ member)
  simp [Choice.toJson, conditions, commands, Json.isFinite_link]

theorem Json.isFinite_list_map {α : Type} {encode : α → Json} {nodes : Array α}
    (each : ∀ node ∈ nodes, (encode node).IsFinite) :
    (Json.list (nodes.toList.map encode)).IsFinite := by
  refine .list fun item member => ?_
  obtain ⟨node, among, rfl⟩ := List.mem_map.mp member
  exact each node (Array.mem_toList_iff.mp among)

theorem Graph.HasFiniteFloats.isFinite {graph : Graph} (finite : graph.HasFiniteFloats) :
    graph.toJson.IsFinite := by
  refine .record fun field member => ?_
  simp only [List.mem_cons, List.not_mem_nil, or_false] at member
  rcases member with rfl | rfl | rfl | rfl
  · refine .record fun entry member => ?_
    obtain ⟨title, -, rfl⟩ := List.mem_map.mp member
    exact .integer _
  · exact Json.isFinite_list_map fun line member => Line.isFinite_toJson (finite.lines line member)
  · exact Json.isFinite_list_map fun branch member =>
      Branch.isFinite_toJson (finite.arms branch member)
  · exact Json.isFinite_list_map fun choice member =>
      Choice.isFinite_toJson (finite.choices choice member)

/-- A compact dump determines what was dumped, whichever faithful printer writes it; the standard
one, which writes all dumps, is faithful. -/
theorem eq_of_compact_toJson_eq :
    Json.Printer.standard.IsFaithful ∧ ∀ printer : Json.Printer, printer.IsFaithful →
      (∀ first second : Graph, first.HasFiniteFloats → second.HasFiniteFloats →
        first.toJson.compactWith printer = second.toJson.compactWith printer → first = second) ∧
      (∀ first second : Store, first.HasFiniteFloats → second.HasFiniteFloats →
        first.toJson.compactWith printer = second.toJson.compactWith printer →
          first = second) := by
  constructor
  · exact Json.Printer.isFaithful_standard
  · intro printer faithful
    constructor
    · intro first second finite finite' same
      exact Graph.toJson_injective
        (Json.compact_injective faithful finite.isFinite finite'.isFinite same)
    · intro first second finite finite' same
      exact Store.toJson_injective
        (Json.compact_injective faithful finite.isFinite finite'.isFinite same)

/-- What was defined in another order is dumped alike, and it is equal. -/
theorem eq_of_compact_toJson_eq_of_reordering :
    let line := Line.spoken "Ann" "Hello" neutral
      [⟨"pay", [.literal (.float (.finite true ⟨1, by decide⟩)), .reference "price"]⟩]
    let graph := Graph.empty.addLine line
    let values : List (String × Value) := [
      ("count", .integer 1),
      ("price", .float (.finite false ⟨1023 * 2 ^ 52, by decide⟩)),
      ("label", .text "1.0"),
      ("open", .boolean true)]
    (graph.addEntry "Shop" 0).addEntry "Inn" 0 = (graph.addEntry "Inn" 0).addEntry "Shop" 0 ∧
      (NameMap.ofList values : Store) = NameMap.ofList values.reverse := by
  intro line graph values
  obtain ⟨faithful, dumps⟩ := eq_of_compact_toJson_eq
  obtain ⟨graphs, stores⟩ := dumps .standard faithful
  have calls : ∀ call ∈ line.commands, call.HasFiniteFloats := by
    simp [line, Line.spoken, Call.HasFiniteFloats, Value.HasFiniteFloat, Binary64.isFinite]
  have finite : ∀ built : Graph, built.lines = #[line] → built.branches = #[] →
      built.choices = #[] → built.HasFiniteFloats := by
    intro built lines branches choices
    exact ⟨by simpa [lines] using calls, by simp [branches], by simp [choices]⟩
  refine ⟨graphs _ _ (finite _ rfl rfl rfl) (finite _ rfl rfl rfl) ?_,
    stores _ _ (by decide +kernel) (by decide +kernel) ?_⟩
  · decide +kernel
  · decide +kernel

end Parley
