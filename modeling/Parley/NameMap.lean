/-!
# Finite maps keyed by names

Variables, dialogue entries and commands are all looked up by name, and all are
listed in the order of their names.  A `NameMap` keeps its entries strictly
increasing, so two maps with the same look-ups are equal.
-/

namespace Parley

/-- A finite map from names to values. -/
structure NameMap (α : Type) where
  /-- Names and values, by increasing name. -/
  entries : List (String × α)
  sorted : entries.Pairwise fun earlier later => earlier.1 < later.1

namespace NameMap

variable {α : Type}

/-- The value of a name in a list of entries. -/
def lookup (name : String) : List (String × α) → Option α
  | [] => none
  | (key, value) :: rest => if name = key then some value else lookup name rest

/-- Put a value at a name, replacing the value that the name had. -/
def insertInto (name : String) (value : α) : List (String × α) → List (String × α)
  | [] => [(name, value)]
  | (key, held) :: rest =>
      if name = key then (name, value) :: rest
      else if name < key then (name, value) :: (key, held) :: rest
      else (key, held) :: insertInto name value rest

theorem mem_insertInto {name : String} {value : α} {entry : String × α}
    {entries : List (String × α)} (member : entry ∈ insertInto name value entries) :
    entry = (name, value) ∨ entry ∈ entries := by
  induction entries with
  | nil => simpa [insertInto] using member
  | cons head rest ih =>
      obtain ⟨key, held⟩ := head
      simp only [insertInto] at member
      split at member
      · rcases List.mem_cons.1 member with found | found
        · exact Or.inl found
        · exact Or.inr (List.mem_cons_of_mem _ found)
      · split at member
        · rcases List.mem_cons.1 member with found | found
          · exact Or.inl found
          · exact Or.inr found
        · rcases List.mem_cons.1 member with found | found
          · exact Or.inr (found ▸ List.mem_cons_self)
          · rcases ih found with found | found
            · exact Or.inl found
            · exact Or.inr (List.mem_cons_of_mem _ found)

/-- Insertion keeps the entries strictly increasing. -/
theorem insertInto_sorted (name : String) (value : α) {entries : List (String × α)}
    (sorted : entries.Pairwise fun earlier later => earlier.1 < later.1) :
    (insertInto name value entries).Pairwise fun earlier later => earlier.1 < later.1 := by
  induction entries with
  | nil => simp [insertInto]
  | cons head rest ih =>
      obtain ⟨key, held⟩ := head
      obtain ⟨above, restSorted⟩ := List.pairwise_cons.1 sorted
      simp only [insertInto]
      split
      · rename_i same
        subst same
        exact List.pairwise_cons.2 ⟨above, restSorted⟩
      · rename_i different
        split
        · rename_i less
          refine List.pairwise_cons.2 ⟨fun entry member => ?_, sorted⟩
          rcases List.mem_cons.1 member with found | found
          · exact found ▸ less
          · exact String.lt_trans less (above entry found)
        · rename_i notLess
          refine List.pairwise_cons.2 ⟨fun entry member => ?_, ih restSorted⟩
          rcases mem_insertInto member with found | found
          · exact found ▸ Std.lt_of_le_of_ne (String.not_lt.1 notLess) (Ne.symm different)
          · exact above entry found

/-- The map without entries. -/
def empty : NameMap α := ⟨[], List.Pairwise.nil⟩

instance : Inhabited (NameMap α) := ⟨empty⟩

/-- The value of a name. -/
def get? (map : NameMap α) (name : String) : Option α :=
  lookup name map.entries

/-- Put a value at a name, replacing the value that the name had. -/
def insert (map : NameMap α) (name : String) (value : α) : NameMap α :=
  ⟨insertInto name value map.entries, insertInto_sorted name value map.sorted⟩

/-- Insert entries one after the other; of two with one name the later stays. -/
def insertAll (map : NameMap α) (entries : List (String × α)) : NameMap α :=
  entries.foldl (fun built (name, value) => built.insert name value) map

/-- The map of a list of entries, in any order. -/
def ofList (entries : List (String × α)) : NameMap α :=
  empty.insertAll entries

/-- Names and values by increasing name. -/
def toList (map : NameMap α) : List (String × α) :=
  map.entries

/-- Whether a name has a value. -/
def contains (map : NameMap α) (name : String) : Bool :=
  (map.get? name).isSome

/-- The names that have a value, increasing. -/
def names (map : NameMap α) : List String :=
  map.entries.map Prod.fst

/-- The number of names. -/
def size (map : NameMap α) : Nat :=
  map.entries.length

/-- Whether no name has a value. -/
def isEmpty (map : NameMap α) : Bool :=
  map.entries.isEmpty

theorem lookup_insertInto (name other : String) (value : α) (entries : List (String × α)) :
    lookup other (insertInto name value entries) =
      if other = name then some value else lookup other entries := by
  induction entries with
  | nil => rfl
  | cons head rest ih =>
      obtain ⟨key, held⟩ := head
      simp only [insertInto]
      split
      · rename_i same
        subst same
        simp only [lookup]
        split <;> rfl
      · rename_i different
        split
        · rfl
        · simp only [lookup, ih]
          split
          · rename_i same
            subst same
            simp [Ne.symm different]
          · rfl

@[simp]
theorem get?_empty (name : String) : (empty : NameMap α).get? name = none :=
  rfl

/-- An inserted value is found at its name, and the other names keep theirs. -/
theorem get?_insert (map : NameMap α) (name other : String) (value : α) :
    (map.insert name value).get? other = if other = name then some value else map.get? other :=
  lookup_insertInto name other value map.entries

@[simp]
theorem get?_insert_self (map : NameMap α) (name : String) (value : α) :
    (map.insert name value).get? name = some value := by
  simp [get?_insert]

theorem get?_insert_of_ne (map : NameMap α) {name other : String} (different : other ≠ name)
    (value : α) : (map.insert name value).get? other = map.get? other := by
  simp [get?_insert, different]

theorem lookup_eq_none_of_forall_lt {name : String} {entries : List (String × α)}
    (above : ∀ entry ∈ entries, name < entry.1) : lookup name entries = none := by
  induction entries with
  | nil => rfl
  | cons head rest ih =>
      obtain ⟨key, held⟩ := head
      have less : name < key := above (key, held) List.mem_cons_self
      have different : name ≠ key := fun same => String.lt_irrefl key (same ▸ less)
      simp only [lookup, different, if_false]
      exact ih fun entry member => above entry (List.mem_cons_of_mem _ member)

theorem mem_of_lookup_eq_some {name : String} {value : α} {entries : List (String × α)}
    (found : lookup name entries = some value) : (name, value) ∈ entries := by
  induction entries with
  | nil => simp [lookup] at found
  | cons head rest ih =>
      obtain ⟨key, held⟩ := head
      simp only [lookup] at found
      split at found
      · rename_i same
        subst same
        cases found
        exact List.mem_cons_self
      · exact List.mem_cons_of_mem _ (ih found)

/-- Look-ups determine strictly increasing entries. -/
theorem entries_eq_of_lookup_eq {first second : List (String × α)}
    (firstSorted : first.Pairwise fun earlier later => earlier.1 < later.1)
    (secondSorted : second.Pairwise fun earlier later => earlier.1 < later.1)
    (same : ∀ name, lookup name first = lookup name second) : first = second := by
  induction first generalizing second with
  | nil =>
      cases second with
      | nil => rfl
      | cons head rest =>
          have absent := same head.1
          simp [lookup] at absent
  | cons head rest ih =>
      obtain ⟨key, held⟩ := head
      cases second with
      | nil =>
          have absent := same key
          simp [lookup] at absent
      | cons head' rest' =>
          obtain ⟨key', held'⟩ := head'
          obtain ⟨above, restSorted⟩ := List.pairwise_cons.1 firstSorted
          obtain ⟨above', restSorted'⟩ := List.pairwise_cons.1 secondSorted
          have keysEqual : key = key' := by
            refine Classical.byContradiction fun different => ?_
            have foundRight : lookup key ((key', held') :: rest') = some held := by
              rw [← same key]
              simp [lookup]
            have foundLeft : lookup key' ((key, held) :: rest) = some held' := by
              rw [same key']
              simp [lookup]
            have inRight : (key, held) ∈ rest' := by
              rcases List.mem_cons.1 (mem_of_lookup_eq_some foundRight) with found | found
              · exact absurd (congrArg Prod.fst found) different
              · exact found
            have inLeft : (key', held') ∈ rest := by
              rcases List.mem_cons.1 (mem_of_lookup_eq_some foundLeft) with found | found
              · exact absurd (congrArg Prod.fst found).symm different
              · exact found
            exact String.lt_asymm (above _ inLeft) (above' _ inRight)
          subst keysEqual
          have heldEqual : held = held' := by
            have found := same key
            simpa [lookup] using found
          subst heldEqual
          have restEqual : rest = rest' := by
            refine ih restSorted restSorted' fun name => ?_
            by_cases atHead : name = key
            · subst atHead
              rw [lookup_eq_none_of_forall_lt above, lookup_eq_none_of_forall_lt above']
            · have found := same name
              simpa [lookup, atHead] using found
          rw [restEqual]

/-- Two maps with the same look-ups are equal. -/
@[ext]
theorem ext {first second : NameMap α}
    (same : ∀ name, first.get? name = second.get? name) : first = second := by
  obtain ⟨entries, sorted⟩ := first
  obtain ⟨entries', sorted'⟩ := second
  have equal : entries = entries' := entries_eq_of_lookup_eq sorted sorted' same
  subst equal
  rfl

instance [DecidableEq α] : DecidableEq (NameMap α) := fun first second =>
  if equal : first.entries = second.entries then
    isTrue (by
      obtain ⟨entries, sorted⟩ := first
      obtain ⟨entries', sorted'⟩ := second
      subst equal
      rfl)
  else isFalse fun same => equal (congrArg entries same)

end NameMap

end Parley
