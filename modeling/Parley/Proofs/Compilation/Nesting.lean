import Parley.Proofs.Compilation.Sound
import Parley.Proofs.Draft.Entries
import Parley.Proofs.Draft.Nesting

/-!
# Properly nested scripts

A script whose dialogues are properly nested is compiled unless a line that follows an option
is more than one level above an option that is still open.  The proof follows the outline: a
line is read at its place, its body over what it has opened, and then the rest of the block
from the place behind both.
-/

namespace Parley

open Parley.Script
open Parley.Text

namespace Draft

variable {scope : Scope} {level number : Nat} {base draft after middle final : Draft}
  {content : Chars} {inArm : Bool} {place : Place} {header : Header} {body rest : Outline}

/-! ## A line and its body -/

theorem goesOn_of_admits {marks enclosing : Nat}
    (admits : place.Admits inArm enclosing (.speech marks))
    (steady : place.Steady (.speech marks)) : place ≠ .marked ∧ place ≠ .spent :=
  ⟨admits.1, steady⟩

/-- At a place that admits a line, the line can be read exactly if it is near enough. -/
theorem Reached.exists_step_iff (reached : Reached inArm level base draft place)
    (admits : place.Admits inArm base.choices.length header)
    (steady : place.Steady header) (reads : header.Reads scope content) :
    (∃ after, draft.step scope ⟨number, level, content, header.construct⟩ = .ok after) ↔
      place.Near inArm header := by
  cases header with
  | speech marks =>
      exact reached.exists_step_speech_iff (goesOn_of_admits admits steady) admits.2 reads
  | option terminal => exact iff_of_true (reached.exists_step_option admits reads) trivial
  | ifArm => exact iff_of_true (reached.exists_step_ifArm admits reads) trivial
  | elseArm guarded =>
      obtain ⟨lone, rfl⟩ := admits
      exact iff_of_true (reached.exists_step_elseArm reads) trivial

/-- A line that heads a block opens it. -/
theorem Reached.opened_of_step (reached : Reached inArm level base draft place)
    (admits : place.Admits inArm base.choices.length header) (heads : header.Heads body)
    (begun : body ≠ .done) (reads : header.Reads scope content)
    (read : draft.step scope ⟨number, level, content, header.construct⟩ = .ok after) :
    Opened header.isArm (level + 1) after ∧
      after.choices.length = base.choices.length + header.options := by
  cases header with
  | speech marks => exact absurd heads begun
  | option terminal =>
      cases terminal with
      | true => exact absurd (heads rfl) begun
      | false =>
          have offered := reached.offered_of_step admits reads read
          obtain ⟨id, choices⟩ := offered.choices
          exact ⟨offered.opened, congrArg List.length choices⟩
  | ifArm =>
      have armed := reached.armed_of_step_ifArm admits read
      exact ⟨armed.opened, congrArg List.length armed.choices⟩
  | elseArm guarded =>
      obtain ⟨lone, rfl⟩ := admits
      have armed := reached.armed_of_step_elseArm reads read
      exact ⟨armed.opened, congrArg List.length armed.choices⟩

/-- Behind a line and the body that it heads, the next place of the block is reached. -/
theorem Reached.behind {inner : Place} (reached : Reached inArm level base draft place)
    (admits : place.Admits inArm base.choices.length header) (heads : header.Heads body)
    (steady : place.Steady header) (reads : header.Reads scope content)
    (read : draft.step scope ⟨number, level, content, header.construct⟩ = .ok after)
    (bare : body = .done → middle = after ∧ inner = .opening)
    (inside : body ≠ .done →
      Reached header.isArm (level + 1) after middle inner ∧ inner ≠ .opening) :
    Reached inArm level base middle (place.after header inner) := by
  cases header with
  | speech marks =>
      obtain ⟨rfl, rfl⟩ := bare heads
      exact reached.step_speech (goesOn_of_admits admits steady) admits.2 reads read
  | option terminal =>
      cases terminal with
      | true =>
          obtain ⟨rfl, rfl⟩ := bare (heads rfl)
          exact reached.step_terminal admits (steady rfl) reads read
      | false =>
          have offered := reached.offered_of_step admits reads read
          have within : Reached false (level + 1) after middle inner := by
            by_cases done : body = .done
            · obtain ⟨rfl, rfl⟩ := bare done
              exact offered.opened.reached
            · exact (inside done).1
          exact offered.behind reached.opened within
  | ifArm =>
      have armed := reached.armed_of_step_ifArm admits read
      obtain ⟨within, begun⟩ := inside heads
      exact armed.behind reached.opened within begun
  | elseArm guarded =>
      obtain ⟨lone, rfl⟩ := admits
      have armed := reached.armed_of_step_elseArm reads read
      obtain ⟨within, begun⟩ := inside heads
      have behind := armed.behind reached.opened within begun
      cases guarded with
      | true => exact behind
      | false =>
          simp only [Bool.not_false, if_pos] at behind
          simpa [Place.after] using behind

theorem after_ne_opening {enclosing : Nat} (inner : Place)
    (admits : place.Admits inArm enclosing header) : place.after header inner ≠ .opening := by
  cases header with
  | speech marks =>
      rw [Place.after]
      split <;> simp
  | option terminal => cases terminal <;> simp [Place.after]
  | ifArm => simp [Place.after]
  | elseArm guarded =>
      obtain ⟨lone, rfl⟩ := admits
      cases guarded with
      | true => simp [Place.after]
      | false =>
          rw [Place.after]
          split <;> simp

/-- Once a block has been begun, its beginning is never reached again. -/
theorem last_ne_opening {outline : Outline} {enclosing : Nat}
    (nested : outline.WellNested inArm enclosing place)
    (begun : place ≠ .opening ∨ outline ≠ .done) : outline.last place ≠ .opening := by
  induction outline generalizing place with
  | done =>
      rcases begun with begun | impossible
      · exact begun
      · exact absurd rfl impossible
  | item header content body rest _ ih =>
      obtain ⟨admits, -, -, restNested⟩ := nested
      exact ih restNested (Or.inl (after_ne_opening _ admits))

/-! ## Blocks -/

/-- Reading a line with its body and the rest of its block is reading one after the other. -/
theorem stepAll_item_eq_ok_iff (fills : Outline.FillsLine content)
    (construct : Construct.ofContent content = header.construct)
    (undeclared : Declaration.read? (Outline.indented level content) = none) :
    draft.stepAll scope (Statement.allFrom number
        ((Outline.item header content body rest).render level)) = .ok final ↔
      ∃ after middle,
        draft.step scope ⟨number, level, content, header.construct⟩ = .ok after ∧
        after.stepAll scope (Statement.allFrom (number + 1) (body.render (level + 1))) =
          .ok middle ∧
        middle.stepAll scope (Statement.allFrom
          (number + 1 + (body.render (level + 1)).length) (rest.render level)) = .ok final := by
  rw [Outline.render, Statement.allFrom_cons_indented number level _ fills undeclared,
    Statement.allFrom_append, stepAll_cons_eq_ok_iff, construct]
  simp only [stepAll_append_eq_ok_iff, exists_and_left]

/-- Behind a line and a body that has been read to its last place, the next place of the block is
reached. -/
theorem Reached.behind_body (reached : Reached inArm level base draft place)
    (admits : place.Admits inArm base.choices.length header) (heads : header.Heads body)
    (bodyNested : body.WellNested header.isArm (base.choices.length + header.options) .opening)
    (steady : place.Steady header) (reads : header.Reads scope content)
    (read : draft.step scope ⟨number, level, content, header.construct⟩ = .ok after)
    (bodyRead : after.stepAll scope
      (Statement.allFrom (number + 1) (body.render (level + 1))) = .ok middle)
    (inside : Opened header.isArm (level + 1) after →
      body.WellNested header.isArm after.choices.length .opening →
        Reached header.isArm (level + 1) after middle (body.last .opening)) :
    Reached inArm level base middle (place.after header (body.last .opening)) := by
  apply reached.behind admits heads steady reads read
  · rintro rfl
    cases bodyRead
    exact ⟨rfl, rfl⟩
  · intro begun
    obtain ⟨opened, options⟩ := reached.opened_of_step admits heads begun reads read
    exact ⟨inside opened (options ▸ bodyNested), last_ne_opening bodyNested (Or.inr begun)⟩

/-- Where a block has been read, its last place is reached. -/
theorem Reached.stepAll {outline : Outline} (reached : Reached inArm level base draft place)
    (nested : outline.WellNested inArm base.choices.length place)
    (steady : outline.Everywhere (fun _ => Place.Steady) inArm place) (reads : outline.Reads scope)
    (undeclared : ∀ raw ∈ outline.render level, Declaration.read? raw = none)
    (read : draft.stepAll scope (Statement.allFrom number (outline.render level)) = .ok final) :
    Reached inArm level base final (outline.last place) := by
  induction outline generalizing inArm level number base draft place final with
  | done =>
      cases read
      exact reached
  | item header content body rest bodyIH restIH =>
      obtain ⟨admits, heads, bodyNested, restNested⟩ := nested
      obtain ⟨here, bodySteady, restSteady⟩ := steady
      obtain ⟨fills, construct, headerReads, bodyReads, restReads⟩ := reads
      rw [Outline.render] at undeclared
      obtain ⟨first, others⟩ := List.forall_mem_cons.mp undeclared
      obtain ⟨inner, outer⟩ := List.forall_mem_append.mp others
      obtain ⟨after, middle, stepped, bodyRead, restRead⟩ :=
        (stepAll_item_eq_ok_iff fills construct first).mp read
      have behind := reached.behind_body admits heads bodyNested here headerReads stepped bodyRead
        fun opened nested => bodyIH opened.reached nested bodySteady bodyReads inner bodyRead
      exact restIH behind restNested restSteady restReads outer restRead

/-- A block can be read exactly if each of its lines, and of the blocks in it, is near enough. -/
theorem Reached.exists_stepAll_iff {outline : Outline}
    (reached : Reached inArm level base draft place)
    (nested : outline.WellNested inArm base.choices.length place)
    (steady : outline.Everywhere (fun _ => Place.Steady) inArm place) (reads : outline.Reads scope)
    (undeclared : ∀ raw ∈ outline.render level, Declaration.read? raw = none) :
    (∃ final, draft.stepAll scope (Statement.allFrom number (outline.render level)) = .ok final) ↔
      outline.Everywhere Place.Near inArm place := by
  induction outline generalizing inArm level number base draft place with
  | done => exact iff_of_true ⟨draft, rfl⟩ trivial
  | item header content body rest bodyIH restIH =>
      obtain ⟨admits, heads, bodyNested, restNested⟩ := nested
      obtain ⟨here, bodySteady, restSteady⟩ := steady
      obtain ⟨fills, construct, headerReads, bodyReads, restReads⟩ := reads
      rw [Outline.render] at undeclared
      obtain ⟨first, others⟩ := List.forall_mem_cons.mp undeclared
      obtain ⟨inner, outer⟩ := List.forall_mem_append.mp others
      have step_iff : (∃ after,
          draft.step scope ⟨number, level, content, header.construct⟩ = .ok after) ↔
            place.Near inArm header := reached.exists_step_iff admits here headerReads
      have body_iff : ∀ after,
          draft.step scope ⟨number, level, content, header.construct⟩ = .ok after →
          ((∃ middle, after.stepAll scope (Statement.allFrom (number + 1)
            (body.render (level + 1))) = .ok middle) ↔
              body.Everywhere Place.Near header.isArm .opening) := by
        intro after stepped
        by_cases done : body = .done
        · subst done
          exact iff_of_true ⟨after, rfl⟩ trivial
        · obtain ⟨opened, options⟩ := reached.opened_of_step admits heads done headerReads stepped
          exact bodyIH opened.reached (options ▸ bodyNested) bodySteady bodyReads inner
      have behind : ∀ after middle,
          draft.step scope ⟨number, level, content, header.construct⟩ = .ok after →
          after.stepAll scope (Statement.allFrom (number + 1) (body.render (level + 1))) =
            .ok middle →
          Reached inArm level base middle (place.after header (body.last .opening)) := by
        intro after middle stepped bodyRead
        exact reached.behind_body admits heads bodyNested here headerReads stepped bodyRead
          fun opened nested => opened.reached.stepAll nested bodySteady bodyReads inner bodyRead
      simp only [stepAll_item_eq_ok_iff fills construct first]
      constructor
      · rintro ⟨final, after, middle, stepped, bodyRead, restRead⟩
        exact ⟨step_iff.mp ⟨after, stepped⟩, (body_iff after stepped).mp ⟨middle, bodyRead⟩,
          (restIH (behind after middle stepped bodyRead) restNested restSteady restReads outer).mp
            ⟨final, restRead⟩⟩
      · rintro ⟨near, bodyNear, restNear⟩
        obtain ⟨after, stepped⟩ := step_iff.mpr near
        obtain ⟨middle, bodyRead⟩ := (body_iff after stepped).mpr bodyNear
        obtain ⟨final, restRead⟩ := (restIH (behind after middle stepped bodyRead) restNested
          restSteady restReads outer).mpr restNear
        exact ⟨final, after, middle, stepped, bodyRead, restRead⟩

/-! ## Dialogues -/

theorem opened_beginDialogue (draft : Draft) (title : String) :
    Opened false 0 (draft.beginDialogue title) where
  keeps := {
    nested := {
      branches := List.Pairwise.nil
      choices := List.Pairwise.nil
      knownBranches := fun _ member => by cases member
      knownChoices := fun _ member => by cases member }
    titles := rfl
    branches := rfl
    choices := rfl
    lines := rfl
    complete := fun _ member => by cases member }
  titled := rfl
  starts := .dialogue rfl
  apart := fun _ _ member => by cases member
  grounded := fun some => absurd rfl some

/-- The titles declared so far are those before the dialogues were closed. -/
theorem declared_closed (draft : Draft) (indent : Nat) :
    (draft.closeDeepBranches indent).closeDialogue.declared = draft.declared := by
  have kept := (draft.closeDeepBranches indent).titles_closeDialogue
  rw [titles_closeDeepBranches] at kept
  exact congrArg Prod.snd kept

/-- A title that is new begins a dialogue. -/
theorem step_declaration_eq_ok_iff {dialogue : Dialogue}
    (titled : Outline.FillsLine dialogue.title) :
    draft.step scope ⟨number, 0, dialogue.declaration, .dialogue⟩ = .ok after ↔
      String.ofList dialogue.title ∉ draft.declared ∧
        after = (draft.closeDeepBranches 0).beginDialogue (String.ofList dialogue.title) := by
  have title : trim (dialogue.declaration.drop 1) = dialogue.title :=
    Dialogue.trim_declaration titled
  show (draft.closeDeepBranches 0).stepTitle _ = _ ↔ _
  rw [stepTitle_eq_ok_iff]
  simp only [title, declared_closed]
  constructor
  · rintro ⟨_, rfl, -, new, rfl⟩
    exact ⟨new, rfl⟩
  · rintro ⟨new, rfl⟩
    exact ⟨_, rfl, titled.solid, new, rfl⟩

variable {dialogue : Dialogue} {dialogues : List Dialogue}

/-- A dialogue with a new title can be read exactly if each of its lines is near enough. -/
theorem exists_stepAll_dialogue_iff (proper : dialogue.Proper scope)
    (steady : dialogue.Steady)
    (undeclared : ∀ raw ∈ dialogue.render, Declaration.read? raw = none)
    (new : String.ofList dialogue.title ∉ draft.declared) :
    (∃ final, draft.stepAll scope (Statement.allFrom number dialogue.render) = .ok final) ↔
      dialogue.Near := by
  have opened := (draft.closeDeepBranches 0).opened_beginDialogue (String.ofList dialogue.title)
  rw [Dialogue.allFrom_render number proper.titled]
  simp only [stepAll_cons_eq_ok_iff, step_declaration_eq_ok_iff proper.titled, new,
    not_false_eq_true, true_and, exists_eq_left]
  exact opened.reached.exists_stepAll_iff proper.nested steady proper.reads
    (List.forall_mem_cons.mp undeclared).2

/-- Behind a dialogue its title is declared, and it has a first line. -/
theorem declared_of_stepAll_dialogue (proper : dialogue.Proper scope)
    (steady : dialogue.Steady)
    (undeclared : ∀ raw ∈ dialogue.render, Declaration.read? raw = none)
    (read : draft.stepAll scope (Statement.allFrom number dialogue.render) = .ok final) :
    final.declared = String.ofList dialogue.title :: draft.declared ∧ final.HasEntry := by
  rw [Dialogue.allFrom_render number proper.titled, stepAll_cons_eq_ok_iff] at read
  obtain ⟨started, first, read⟩ := read
  obtain ⟨-, rfl⟩ := (step_declaration_eq_ok_iff proper.titled).mp first
  have opened := (draft.closeDeepBranches 0).opened_beginDialogue (String.ofList dialogue.title)
  have block := (List.forall_mem_cons.mp undeclared).2
  have reached := opened.reached.stepAll proper.nested steady proper.reads block read
  constructor
  · rw [reached.keeps.declared, ← draft.declared_closed 0]
    rfl
  · rcases outline : dialogue.block with _ | ⟨header, content, body, rest⟩
    · exact absurd outline proper.begun
    · rw [outline] at read block
      have blockReads := proper.reads
      rw [outline] at blockReads
      obtain ⟨fills, construct, -⟩ := blockReads
      rw [Outline.render] at block
      obtain ⟨after, middle, stepped, inner, others⟩ := (stepAll_item_eq_ok_iff fills construct
        (List.forall_mem_cons.mp block).1).mp read
      have has : after.HasEntry :=
        hasEntry_of_step rfl rfl rfl (by cases header <;> simp [Header.construct]) stepped
      exact (has.stepAll inner).stepAll others

/-- Dialogues with new titles can be read exactly if each of their lines is near enough. -/
theorem exists_stepAll_dialogues_iff (proper : ∀ dialogue ∈ dialogues, dialogue.Proper scope)
    (steady : ∀ dialogue ∈ dialogues, dialogue.Steady)
    (undeclared : ∀ raw ∈ dialogues.flatMap Dialogue.render, Declaration.read? raw = none)
    (distinct : (dialogues.map Dialogue.title).Nodup)
    (new : ∀ dialogue ∈ dialogues, String.ofList dialogue.title ∉ draft.declared) :
    (∃ final, draft.stepAll scope
        (Statement.allFrom number (dialogues.flatMap Dialogue.render)) = .ok final) ↔
      ∀ dialogue ∈ dialogues, dialogue.Near := by
  induction dialogues generalizing draft number with
  | nil => exact iff_of_true ⟨draft, rfl⟩ fun _ member => by cases member
  | cons dialogue dialogues ih =>
      obtain ⟨properFirst, properRest⟩ := List.forall_mem_cons.mp proper
      obtain ⟨steadyFirst, steadyRest⟩ := List.forall_mem_cons.mp steady
      obtain ⟨newFirst, newRest⟩ := List.forall_mem_cons.mp new
      rw [List.flatMap_cons] at undeclared
      obtain ⟨first, others⟩ := List.forall_mem_append.mp undeclared
      rw [List.map_cons, List.nodup_cons] at distinct
      have first_iff : (∃ middle, draft.stepAll scope (Statement.allFrom number dialogue.render) =
          .ok middle) ↔ dialogue.Near :=
        exists_stepAll_dialogue_iff properFirst steadyFirst first newFirst
      rw [List.flatMap_cons, Statement.allFrom_append, List.forall_mem_cons, ← first_iff]
      simp only [stepAll_append_eq_ok_iff]
      have rest_iff : ∀ middle,
          draft.stepAll scope (Statement.allFrom number dialogue.render) = .ok middle →
          ((∃ final, middle.stepAll scope (Statement.allFrom
            (number + dialogue.render.length) (dialogues.flatMap Dialogue.render)) = .ok final) ↔
              ∀ dialogue ∈ dialogues, dialogue.Near) := by
        intro middle read
        apply ih properRest steadyRest others distinct.2
        intro other member declared
        rw [(declared_of_stepAll_dialogue properFirst steadyFirst first read).1] at declared
        rcases List.mem_cons.mp declared with same | earlier
        · exact distinct.1 (String.ofList_injective same ▸ List.mem_map_of_mem member)
        · exact newRest other member earlier
      constructor
      · rintro ⟨final, middle, firstRead, restRead⟩
        exact ⟨⟨middle, firstRead⟩, (rest_iff middle firstRead).mp ⟨final, restRead⟩⟩
      · rintro ⟨⟨middle, firstRead⟩, near⟩
        obtain ⟨final, restRead⟩ := (rest_iff middle firstRead).mpr near
        exact ⟨final, middle, firstRead, restRead⟩

/-- A script with a dialogue has an entry. -/
theorem hasEntry_of_stepAll_dialogues (some : dialogues ≠ [])
    (proper : ∀ dialogue ∈ dialogues, dialogue.Proper scope)
    (steady : ∀ dialogue ∈ dialogues, dialogue.Steady)
    (undeclared : ∀ raw ∈ dialogues.flatMap Dialogue.render, Declaration.read? raw = none)
    (read : draft.stepAll scope
      (Statement.allFrom number (dialogues.flatMap Dialogue.render)) = .ok final) :
    final.HasEntry := by
  rcases dialogues with _ | ⟨dialogue, dialogues⟩
  · exact absurd rfl some
  · rw [List.flatMap_cons] at undeclared
    rw [List.flatMap_cons, Statement.allFrom_append, stepAll_append_eq_ok_iff] at read
    obtain ⟨middle, firstRead, restRead⟩ := read
    have first := declared_of_stepAll_dialogue (proper dialogue List.mem_cons_self)
      (steady dialogue List.mem_cons_self) (List.forall_mem_append.mp undeclared).1 firstRead
    exact first.2.stepAll restRead

end Draft

/-! ## Scripts -/

variable {σ : Type} {registry : Registry σ} {store : Store}

/-- The script of properly nested dialogues with distinct titles compiles exactly if there is a
dialogue and each line that follows an option outside an arm is at most one level above the
innermost option that is still open.  Left out are two arrangements: a terminal option behind an
option that may still get a body, and a line behind the last arm of a branch with which its block
begins, where that arm ends in a return-marked line. -/
theorem compiles_iff_near {dialogues : List Dialogue}
    (distinct : (dialogues.map Dialogue.title).Nodup)
    (proper : ∀ dialogue ∈ dialogues, dialogue.Proper (Scope.ofWorld registry store))
    (undeclared : Declaration.all (dialogues.flatMap Dialogue.render) = [])
    (steady : ∀ dialogue ∈ dialogues, dialogue.Steady) :
    (∃ graph, (compile registry store (Dialogue.script dialogues)).graph = .ok graph) ↔
      dialogues ≠ [] ∧ ∀ dialogue ∈ dialogues, dialogue.Near := by
  let lines := dialogues.flatMap Dialogue.render
  let scope := Scope.ofWorld registry store
  have none : ∀ raw ∈ lines, Declaration.read? raw = none :=
    List.filterMap_eq_nil_iff.mp undeclared
  have written : (Dialogue.script dialogues).map String.toList = lines := by
    simp [Dialogue.script, lines]
  have compiled : (compile registry store (Dialogue.script dialogues)).graph =
      graphOf scope (Statement.all lines) := by
    have declared : declare store lines = store := by
      rw [declare, undeclared]
      rfl
    simp only [compile, written, declared, scope]
  have read_iff : (∃ final, Draft.empty.stepAll scope (Statement.all lines) = .ok final) ↔
      ∀ dialogue ∈ dialogues, dialogue.Near :=
    Draft.exists_stepAll_dialogues_iff proper steady none distinct fun _ _ declared => by
      cases declared
  rw [compiled, ← read_iff]
  constructor
  · rintro ⟨graph, made⟩
    obtain ⟨final, read, finished⟩ := bind_eq_ok_iff.mp made
    refine ⟨?_, final, read⟩
    rintro rfl
    cases read
    obtain ⟨rfl, some⟩ := Draft.finish_eq_ok_iff.mp finished
    cases some
  · rintro ⟨some, final, read⟩
    have has := Draft.hasEntry_of_stepAll_dialogues some proper steady none read
    have entries : final.closeDialogue.graph.entries = final.graph.entries :=
      Draft.closeDialogue_keeps (fun draft => draft.graph.entries)
        Draft.entries_completeBranch final
    exact ⟨final.closeDialogue.graph, bind_eq_ok_iff.mpr ⟨final, read,
      Draft.finish_eq_ok_iff.mpr ⟨rfl, entries ▸ has.isEmpty_eq_false⟩⟩⟩

/-- A line, options nested in each other to a depth, and a line after them. -/
def optionsNested (depth : Nat) : Dialogue where
  title := "D".toList
  block := nested depth (.item (.speech 0) "A: end".toList .done .done)
where
  /-- A line, and an option under it if there is one, with the rest of the block. -/
  nested : Nat → Outline → Outline
    | 0, rest => .item (.speech 0) "A: root".toList .done rest
    | depth + 1, rest => .item (.speech 0) "A: root".toList .done
        (.item (.option false) "> go".toList (nested depth .done) rest)

/-- A line one level above the innermost open option compiles. -/
theorem compiles_of_options_nested_twice :
    ∃ graph, (compile hostless .empty (Dialogue.script [optionsNested 2])).graph = .ok graph :=
  (compiles_iff_near (by decide) (by decide +kernel) (by decide +kernel)
    (by decide +kernel)).mpr (by decide +kernel)

/-- A line two levels above the innermost open option does not compile, although its script is
properly nested. -/
theorem not_compiles_of_options_nested_thrice :
    (optionsNested 3).Proper (Scope.ofWorld hostless .empty) ∧ (optionsNested 3).Steady ∧
      Declaration.all (optionsNested 3).render = [] ∧
      (compile hostless .empty (Dialogue.script [optionsNested 3])).graph =
        .error ((Diagnostic.ofFault (.malformed .lineIndent)).atLine 9) := by
  refine ⟨by decide +kernel, by decide +kernel, by decide +kernel, ?_⟩
  rfl

end Parley
