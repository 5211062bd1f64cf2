import Parley.Proofs.Script.Lines

/-!
# Edits of scripts

An edit inserts an idle line, puts a comment behind a line or moves the declaration of a variable
past lines that do not declare the same variable.  A sequence of edits keeps the statements of a
script and their order, whatever their lines are numbered now, and it keeps what is declared.
-/

namespace Parley

/-! ## Entries in another order -/

namespace NameMap

variable {α : Type} {map : NameMap α} {name other : String} {value : α}

/-- Different names are inserted in any order. -/
theorem insert_insert_of_ne (different : name ≠ other) (map : NameMap α) (value held : α) :
    (map.insert name value).insert other held = (map.insert other held).insert name value := by
  ext key
  rw [get?_insert, get?_insert, get?_insert, get?_insert]
  by_cases same : key = other
  · rw [if_pos same, if_pos same, if_neg fun found => different (found.symm.trans same)]
  · rw [if_neg same, if_neg same]

theorem insertAll_insert {entries : List (String × α)}
    (apart : ∀ entry ∈ entries, name ≠ entry.1) (map : NameMap α) (value : α) :
    (map.insert name value).insertAll entries = (map.insertAll entries).insert name value := by
  induction entries generalizing map with
  | nil => rfl
  | cons entry rest ih =>
      obtain ⟨key, held⟩ := entry
      have different := apart _ List.mem_cons_self
      show ((map.insert name value).insert key held).insertAll rest = _
      rw [insert_insert_of_ne different,
        ih fun entry member => apart entry (List.mem_cons_of_mem _ member)]
      rfl

end NameMap

namespace Script

open Parley.Text

variable {before passed after first second : List Chars} {raw comment : Chars} {name : String}

/-- The declarations of a script are those of its first lines and then those of the others. -/
theorem declare_append (store : Store) (first second : List Chars) :
    declare store (first ++ second) = declare (declare store first) second := by
  rw [declare, Declaration.all, List.filterMap_append, List.map_append, NameMap.insertAll,
    List.foldl_append]
  rfl

theorem declare_cons (store : Store) (raw : Chars) (rest : List Chars) :
    declare store (raw :: rest) = declare (declare store [raw]) rest :=
  declare_append store [raw] rest

/-- The line declares a variable of this name. -/
def Declares (raw : Chars) (name : String) : Prop :=
  ∃ value, Declaration.read? raw = some ⟨name, value⟩

theorem declare_exchange (declares : Declares raw name)
    (apart : ∀ other ∈ passed, ¬ Declares other name) (store : Store) :
    declare (declare store [raw]) passed = declare (declare store passed) [raw] := by
  obtain ⟨value, found⟩ := declares
  have single : ∀ store, declare store [raw] = store.insert name value := by
    intro store
    rw [declare, Declaration.all, List.filterMap_cons, found]
    rfl
  rw [single, single]
  refine NameMap.insertAll_insert (fun entry member same => ?_) store value
  obtain ⟨⟨_, held⟩, among, rfl⟩ := List.mem_map.mp member
  obtain ⟨other, placed, foundOther⟩ := List.mem_filterMap.mp among
  exact apart other placed ⟨held, same ▸ foundOther⟩

/-- A declaration may stand on either side of lines that do not declare the same name. -/
theorem declare_moved (declares : Declares raw name)
    (apart : ∀ other ∈ passed, ¬ Declares other name) (store : Store)
    (before after : List Chars) :
    declare store (before ++ (passed ++ raw :: after)) =
      declare store (before ++ raw :: (passed ++ after)) :=
  calc
    declare store (before ++ (passed ++ raw :: after))
        = declare (declare (declare (declare store before) passed) [raw]) after := by
      rw [declare_append, declare_append, declare_cons _ raw after]
    _ = declare (declare (declare (declare store before) [raw]) passed) after := by
      rw [declare_exchange declares apart]
    _ = declare store (before ++ raw :: (passed ++ after)) := by
      rw [declare_append store before, declare_cons _ raw (passed ++ after),
        declare_append _ passed]

/-! ## Edits -/

/-- Where a line stands when another one has been inserted behind some lines. -/
def inserted (before number : Nat) : Nat :=
  if number ≤ before then number else number + 1

/-- Where a line stands when, behind some lines, two neighbouring blocks of lines have changed
places. -/
def exchanged (before first second number : Nat) : Nat :=
  if number ≤ before then number
  else if number ≤ before + first then number + second
  else if number ≤ before + first + second then number - first
  else number

/-- Lines in front stay, and the others make room. -/
theorem inserted_places (before : Nat) :
    (∀ i < before, inserted before (1 + i) = 1 + i) ∧
      ∀ i, inserted before (1 + before + i) = 1 + before + 1 + i :=
  ⟨fun i within => if_pos (by omega), fun i => (if_neg (by omega)).trans (by omega)⟩

/-- The lines of each block stay together. -/
theorem exchanged_places (before first second : Nat) :
    let place := exchanged before first second
    (∀ i < before, place (1 + i) = 1 + i) ∧
      (∀ i < first, place (1 + before + i) = 1 + before + second + i) ∧
      (∀ i < second, place (1 + before + first + i) = 1 + before + i) ∧
      ∀ i, place (1 + before + first + second + i) = 1 + before + second + first + i := by
  refine ⟨fun i within => ?_, fun i within => ?_, fun i within => ?_, fun i => ?_⟩ <;>
    dsimp only [exchanged] <;> split <;> try omega
  all_goals split <;> try omega
  all_goals split <;> omega

/-- A sequence of edits leads from one script to another and the line of each number to its
new place. -/
inductive Edits : (Nat → Nat) → List Chars → List Chars → Prop
  | keep (script : List Chars) : Edits id script script
  | insert (before after : List Chars) {raw : Chars} (idle : IsIdle raw) :
      Edits (inserted before.length) (before ++ after) (before ++ raw :: after)
  | comment (before after : List Chars) {raw comment : Chars} (oneLine : '\n' ∉ raw)
      (closed : '"' ∉ comment) (oneLineComment : '\n' ∉ comment) :
      Edits id (before ++ raw :: after) (before ++ (raw ++ ' ' :: '/' :: '/' :: comment) :: after)
  | moveDown (before passed after : List Chars) {raw : Chars} {name : String}
      (declares : Declares raw name) (apart : ∀ other ∈ passed, ¬ Declares other name) :
      Edits (exchanged before.length 1 passed.length) (before ++ raw :: (passed ++ after))
        (before ++ (passed ++ raw :: after))
  | moveUp (before passed after : List Chars) {raw : Chars} {name : String}
      (declares : Declares raw name) (apart : ∀ other ∈ passed, ¬ Declares other name) :
      Edits (exchanged before.length passed.length 1) (before ++ (passed ++ raw :: after))
        (before ++ raw :: (passed ++ after))
  | trans {place further : Nat → Nat} {script middle edited : List Chars}
      (edits : Edits place script middle) (others : Edits further middle edited) :
      Edits (further ∘ place) script edited

namespace Statement

theorem all_insert (idle : IsIdle raw) (before after : List Chars) :
    all (before ++ raw :: after) =
      (all (before ++ after)).map (renumber (inserted before.length)) := by
  have silent : readUndeclared? (1 + before.length) raw = none := by
    rw [readUndeclared?, idle.read?_declaration, idle.read?_statement]
    rfl
  obtain ⟨stay, move⟩ := inserted_places before.length
  rw [all, all, allFrom_append, allFrom_append, List.map_append, ← allFrom_renumber stay,
    ← allFrom_renumber fun i _ => move i, allFrom, silent]
  rfl

theorem all_comment (oneLine : '\n' ∉ raw) (closed : '"' ∉ comment)
    (oneLineComment : '\n' ∉ comment) (before after : List Chars) :
    all (before ++ (raw ++ ' ' :: '/' :: '/' :: comment) :: after) =
      all (before ++ raw :: after) := by
  have same : readUndeclared? (1 + before.length) (raw ++ ' ' :: '/' :: '/' :: comment) =
      readUndeclared? (1 + before.length) raw := by
    rw [readUndeclared?, readUndeclared?,
      Declaration.read?_append_comment oneLine closed oneLineComment, read?_append_comment]
  rw [all, all, allFrom_append, allFrom_append, allFrom, allFrom, same]

/-- Two neighbouring blocks, one of which has no statements, may change places. -/
theorem all_exchange (first second : List Chars)
    (silent : (∀ number, allFrom number first = []) ∨
      ∀ number, allFrom number second = []) (before after : List Chars) :
    all (before ++ (second ++ (first ++ after))) =
      (all (before ++ (first ++ (second ++ after)))).map
        (renumber (exchanged before.length first.length second.length)) := by
  obtain ⟨stay, down, up, behind⟩ :=
    exchanged_places before.length first.length second.length
  simp only [all, allFrom_append, List.map_append]
  rw [← allFrom_renumber stay, ← allFrom_renumber down, ← allFrom_renumber up,
    ← allFrom_renumber fun i _ => behind i]
  rcases silent with silent | silent
  · rw [silent]
    rfl
  · rw [silent]
    rfl

theorem allFrom_of_declares (declares : Declares raw name) (number : Nat) :
    allFrom number [raw] = [] := by
  obtain ⟨value, found⟩ := declares
  rw [allFrom, readUndeclared?, found]
  rfl

end Statement

namespace Edits

variable {place : Nat → Nat} {script edited : List Chars}

/-- The statements are the same, in the same order. -/
theorem statements (edits : Edits place script edited) :
    Statement.all edited = (Statement.all script).map (Statement.renumber place) := by
  have same : Statement.renumber id = id := rfl
  induction edits with
  | keep script => rw [same, List.map_id]
  | insert before after idle => exact Statement.all_insert idle before after
  | comment before after oneLine closed oneLineComment =>
      rw [same, List.map_id]
      exact Statement.all_comment oneLine closed oneLineComment before after
  | @moveDown before passed after raw name declares apart =>
      exact Statement.all_exchange [raw] passed
        (Or.inl (Statement.allFrom_of_declares declares)) before after
  | @moveUp before passed after raw name declares apart =>
      exact Statement.all_exchange passed [raw]
        (Or.inr (Statement.allFrom_of_declares declares)) before after
  | trans _ _ ih others =>
      rw [others, ih, List.map_map]
      rfl

/-- What is declared is the same. -/
theorem declare (edits : Edits place script edited) (store : Store) :
    declare store edited = declare store script := by
  induction edits with
  | keep => rfl
  | @insert before after raw idle =>
      have silent : Script.declare (Script.declare store before) [raw] =
          Script.declare store before := by
        rw [Script.declare, Declaration.all, List.filterMap_cons, idle.read?_declaration]
        rfl
      rw [declare_append, declare_cons, silent, declare_append]
  | @comment before after raw comment oneLine closed oneLineComment =>
      have same : Declaration.read? (raw ++ ' ' :: '/' :: '/' :: comment) = Declaration.read? raw :=
        Declaration.read?_append_comment oneLine closed oneLineComment
      simp only [Script.declare, Declaration.all, List.filterMap_append, List.filterMap_cons, same]
  | moveDown before passed after declares apart =>
      exact declare_moved declares apart store before after
  | moveUp before passed after declares apart =>
      exact (declare_moved declares apart store before after).symm
  | trans _ _ ih others => rw [others, ih]

/-- Lines that stay together are found where they have been moved. -/
theorem mem_zipIdx_moved {lines : List Chars} {number moved own : Nat}
    (places : ∀ i < lines.length, place (number + i) = moved + i)
    (member : (raw, own) ∈ lines.zipIdx number) : (raw, place own) ∈ lines.zipIdx moved := by
  obtain ⟨behind, found⟩ := List.mk_mem_zipIdx_iff_le_and_getElem?_sub.mp member
  obtain ⟨within, -⟩ := List.getElem?_eq_some_iff.mp found
  have placed := places (own - number) within
  rw [Nat.add_sub_cancel' behind] at placed
  rw [placed]
  refine List.mk_mem_zipIdx_iff_le_and_getElem?_sub.mpr ⟨Nat.le_add_right .., ?_⟩
  rwa [Nat.add_sub_cancel_left]

theorem mem_zipIdx_exchange (first second : List Chars) {number : Nat}
    (member : (raw, number) ∈ (before ++ (first ++ (second ++ after))).zipIdx 1) :
    (raw, exchanged before.length first.length second.length number) ∈
      (before ++ (second ++ (first ++ after))).zipIdx 1 := by
  obtain ⟨stay, down, up, behind⟩ :=
    exchanged_places before.length first.length second.length
  simp only [List.zipIdx_append, List.mem_append] at member ⊢
  rcases member with member | member | member | member
  · exact Or.inl (mem_zipIdx_moved stay member)
  · exact Or.inr (Or.inr (Or.inl (mem_zipIdx_moved down member)))
  · exact Or.inr (Or.inl (mem_zipIdx_moved up member))
  · exact Or.inr (Or.inr (Or.inr (mem_zipIdx_moved (fun i _ => behind i) member)))

/-- Each line is at its new place, with a comment behind it at most. -/
theorem stands (edits : Edits place script edited) {number : Nat}
    (member : (raw, number) ∈ script.zipIdx 1) :
    ∃ comments, (raw ++ comments, place number) ∈ edited.zipIdx 1 := by
  induction edits generalizing raw number with
  | keep => exact ⟨[], by rwa [List.append_nil]⟩
  | @insert before after idle =>
      obtain ⟨stay, move⟩ := inserted_places before.length
      refine ⟨[], ?_⟩
      simp only [List.append_nil, List.zipIdx_append, List.zipIdx_cons, List.mem_append,
        List.mem_cons] at member ⊢
      rcases member with member | member
      · exact Or.inl (mem_zipIdx_moved stay member)
      · exact Or.inr (Or.inr (mem_zipIdx_moved (fun i _ => move i) member))
  | @comment before after line comment =>
      simp only [List.zipIdx_append, List.zipIdx_cons, List.mem_append, List.mem_cons,
        Prod.mk.injEq] at member
      rcases member with member | ⟨rfl, rfl⟩ | member
      · refine ⟨[], ?_⟩
        simp [List.zipIdx_append, member]
      · refine ⟨' ' :: '/' :: '/' :: comment, ?_⟩
        simp [List.zipIdx_append]
      · refine ⟨[], ?_⟩
        simp [List.zipIdx_append, member]
  | @moveDown before passed after line name declares apart =>
      exact ⟨[], by rw [List.append_nil]; exact mem_zipIdx_exchange [line] passed member⟩
  | @moveUp before passed after line name declares apart =>
      exact ⟨[], by rw [List.append_nil]; exact mem_zipIdx_exchange passed [line] member⟩
  | trans _ _ ih others =>
      obtain ⟨comments, placed⟩ := ih member
      obtain ⟨further, placed⟩ := others placed
      exact ⟨comments ++ further, by rwa [← List.append_assoc]⟩

/-! ## Moves past several lines -/

/-- Behind a further line the same edits can be made. -/
theorem exists_cons (edits : Edits place script edited) (line : Chars) :
    ∃ place, Edits place (line :: script) (line :: edited) := by
  induction edits with
  | keep script => exact ⟨_, .keep _⟩
  | insert before after idle => exact ⟨_, .insert (line :: before) after idle⟩
  | comment before after oneLine closed oneLineComment =>
      exact ⟨_, .comment (line :: before) after oneLine closed oneLineComment⟩
  | moveDown before passed after declares apart =>
      exact ⟨_, .moveDown (line :: before) passed after declares apart⟩
  | moveUp before passed after declares apart =>
      exact ⟨_, .moveUp (line :: before) passed after declares apart⟩
  | trans _ _ ih others =>
      obtain ⟨place, edits⟩ := ih
      obtain ⟨further, others⟩ := others
      exact ⟨_, edits.trans others⟩

/-- A line that declares nothing moves in front of declarations. -/
theorem exists_moves_up (undeclared : Declaration.read? raw = none) {front : List Chars}
    (declarations : ∀ line ∈ front, (Declaration.read? line).isSome) (after : List Chars) :
    ∃ place, Edits place (front ++ raw :: after) (raw :: (front ++ after)) := by
  induction front with
  | nil => exact ⟨_, .keep _⟩
  | cons line front ih =>
      obtain ⟨_, edits⟩ := ih fun other member => declarations other (List.mem_cons_of_mem _ member)
      obtain ⟨_, edits⟩ := edits.exists_cons line
      obtain ⟨⟨name, value⟩, found⟩ :=
        Option.isSome_iff_exists.mp (declarations line List.mem_cons_self)
      have apart : ∀ other ∈ [raw], ¬ Declares other name := by
        rintro other member ⟨held, declared⟩
        rw [List.mem_singleton.mp member, undeclared] at declared
        cases declared
      exact ⟨_, edits.trans (.moveDown [] [raw] (front ++ after) ⟨value, found⟩ apart)⟩

end Edits

/-! ## Rearranged declarations -/

/-- The declarations of a script, which are all of different variables, in any order and at any
places among the other lines. -/
structure Rearranges (script edited : List Chars) : Prop where
  others : edited.filter (fun line => (Declaration.read? line).isNone) =
    script.filter fun line => (Declaration.read? line).isNone
  declarations : (edited.filter fun line => (Declaration.read? line).isSome).Perm
    (script.filter fun line => (Declaration.read? line).isSome)
  distinct : (Declaration.all script).Pairwise fun first second => first.name ≠ second.name

namespace Rearranges

variable {script rest : List Chars} {line : Chars}

/-- The first line that declares nothing has only declarations in front of it. -/
theorem exists_of_other (rearranges : Rearranges script (line :: rest))
    (undeclared : Declaration.read? line = none) :
    ∃ front after, script = front ++ line :: after ∧
      (∀ other ∈ front, (Declaration.read? other).isSome) ∧ Rearranges (front ++ after) rest := by
  obtain ⟨others, declarations, distinct⟩ := rearranges
  rw [List.filter_cons_of_pos (by simp [undeclared])] at others
  rw [List.filter_cons_of_neg (by simp [undeclared])] at declarations
  obtain ⟨front, after, rfl, none, -, same⟩ := List.filter_eq_cons_iff.mp others.symm
  have silent : front.filter (fun line => (Declaration.read? line).isNone) = [] :=
    List.filter_eq_nil_iff.mpr none
  have single : Declaration.all (front ++ line :: after) = Declaration.all (front ++ after) := by
    simp [Declaration.all, List.filterMap_append, undeclared]
  refine ⟨front, after, rfl, fun other member => ?_, ?_, ?_, single ▸ distinct⟩
  · simpa [Option.isSome_iff_ne_none] using none other member
  · rw [List.filter_append, silent, List.nil_append, same]
  · simpa [List.filter_append, undeclared] using declarations

/-- A declaration comes from some place behind lines that declare other variables. -/
theorem exists_of_declaration (rearranges : Rearranges script (line :: rest)) {name : String}
    {value : Value} (declared : Declaration.read? line = some ⟨name, value⟩) :
    ∃ before after, script = before ++ line :: after ∧
      (∀ other ∈ before, ¬ Declares other name) ∧ Rearranges (before ++ after) rest := by
  obtain ⟨others, declarations, distinct⟩ := rearranges
  rw [List.filter_cons_of_neg (by simp [declared])] at others
  rw [List.filter_cons_of_pos (by simp [declared])] at declarations
  have among : line ∈ script :=
    (List.mem_filter.mp (declarations.subset List.mem_cons_self)).1
  obtain ⟨before, after, rfl⟩ := List.append_of_mem among
  have split : Declaration.all (before ++ line :: after) =
      Declaration.all before ++ ⟨name, value⟩ :: Declaration.all after := by
    simp [Declaration.all, List.filterMap_append, declared]
  have joined : Declaration.all (before ++ after) =
      Declaration.all before ++ Declaration.all after := List.filterMap_append ..
  have moved : ((before ++ line :: after).filter fun line => (Declaration.read? line).isSome).Perm
      (line :: (before ++ after).filter fun line => (Declaration.read? line).isSome) := by
    rw [List.filter_append, List.filter_cons_of_pos (by simp [declared]), List.filter_append]
    exact List.perm_middle
  rw [split] at distinct
  refine ⟨before, after, rfl, ?_, ?_, (declarations.trans moved).cons_inv, ?_⟩
  · rintro other member ⟨held, again⟩
    rw [List.pairwise_append] at distinct
    exact distinct.2.2 _ (List.mem_filterMap.mpr ⟨other, member, again⟩) _ List.mem_cons_self rfl
  · simpa [List.filter_append, declared] using others
  · rw [joined]
    exact distinct.sublist (List.Sublist.append_left (List.sublist_cons_self ..) _)

/-- Declarations of different variables are rearranged by moving them one by one. -/
theorem exists_edits {edited : List Chars} (rearranges : Rearranges script edited) :
    ∃ place, Edits place script edited := by
  induction edited generalizing script with
  | nil =>
      rcases script with _ | ⟨line, rest⟩
      · exact ⟨_, .keep _⟩
      · have none := List.filter_eq_nil_iff.mp rearranges.others.symm line List.mem_cons_self
        have some := List.filter_eq_nil_iff.mp rearranges.declarations.nil_eq.symm line
          List.mem_cons_self
        cases found : Declaration.read? line <;> simp [found] at none some
  | cons line rest ih =>
      rcases found : Declaration.read? line with _ | ⟨name, value⟩
      · obtain ⟨front, after, rfl, declarations, remaining⟩ := rearranges.exists_of_other found
        obtain ⟨_, moves⟩ := Edits.exists_moves_up found declarations after
        obtain ⟨_, edits⟩ := ih remaining
        obtain ⟨_, edits⟩ := edits.exists_cons line
        exact ⟨_, moves.trans edits⟩
      · obtain ⟨before, after, rfl, apart, remaining⟩ := rearranges.exists_of_declaration found
        obtain ⟨_, edits⟩ := ih remaining
        obtain ⟨_, edits⟩ := edits.exists_cons line
        exact ⟨_, (Edits.moveUp [] before after ⟨value, found⟩ apart).trans edits⟩

end Rearranges

end Script

end Parley
