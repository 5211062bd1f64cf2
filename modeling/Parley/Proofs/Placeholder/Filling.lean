import Parley.Outcome
import Parley.Placeholder
import Parley.Proofs.Text.Words

/-!
# Texts with placeholders

A text is divided into its placeholders and what stands between them: no placeholder stands
within a stretch between two of them.  As the name of a placeholder holds no brace, no two
placeholders overlap, and so there is one such division of each text.  Filling in a text puts a
value in the place of each placeholder and keeps the stretches as they are.
-/

namespace Parley

open Parley.Text

namespace Placeholder

/-- A name that a placeholder can have. -/
def IsName (name : String) : Prop :=
  '{' ∉ name.toList ∧ '}' ∉ name.toList

/-- The placeholder of a name, as it is written in a text. -/
def written (name : String) : Chars :=
  '{' :: '$' :: (name.toList ++ ['}'])

/-- A text in which no placeholder stands. -/
def IsPlain (text : Chars) : Prop :=
  ∀ name, IsName name → ¬ written name <:+: text

/-- Stretches of a text, each with the name of the placeholder behind it, and the last stretch. -/
structure Parted where
  stretches : List (Chars × String)
  rest : Chars

namespace Parted

/-- The names of the placeholders, in order. -/
def names (parts : Parted) : List String :=
  parts.stretches.map Prod.snd

/-- The text in which something stands in the place of each placeholder. -/
def replaced (parts : Parted) (put : String → Chars) : Chars :=
  parts.stretches.flatMap (fun (stretch, name) => stretch ++ put name) ++ parts.rest

/-- Two texts with a placeholder between them. -/
def join (first : Parted) (name : String) (second : Parted) : Parted :=
  ⟨first.stretches ++ (first.rest, name) :: second.stretches, second.rest⟩

/-- A division of a text: its placeholders are written between the stretches, and within the
stretches there are none. -/
structure Divides (parts : Parted) (text : Chars) : Prop where
  whole : parts.replaced written = text
  stretches : ∀ stretch ∈ parts.stretches, IsPlain stretch.1 ∧ IsName stretch.2
  rest : IsPlain parts.rest

/-- What comes of filling in a text: every placeholder is replaced by the value of its variable, as
it is displayed, or the first variable is to blame that is not defined. -/
inductive Filled (parts : Parted) (store : Store) : Except Fault String → Prop
  | all (put : String → Chars)
      (displays : ∀ name ∈ parts.names, ∃ value, store.get? name = some value ∧
        value.render.toList = put name) :
      Filled parts store (.ok (String.ofList (parts.replaced put)))
  | missing (earlier : List String) (name : String) (later : List String)
      (order : parts.names = earlier ++ name :: later)
      (defined : ∀ other ∈ earlier, (store.get? other).isSome)
      (undefined : store.get? name = none) :
      Filled parts store (.error (.undefinedVariable name))

/-- The pieces of a text that is divided. -/
def pieces (parts : Parted) : List Piece :=
  parts.stretches.flatMap (fun (stretch, name) => stretch.map .plain ++ [.reference name]) ++
    parts.rest.map .plain

/-- The stretches of a text that begins with a character. -/
def prepend (c : Char) : Parted → Parted
  | ⟨[], rest⟩ => ⟨[], c :: rest⟩
  | ⟨(stretch, name) :: stretches, rest⟩ => ⟨(c :: stretch, name) :: stretches, rest⟩

/-- The division that has some pieces. -/
def ofPieces : List Piece → Parted
  | [] => ⟨[], []⟩
  | .plain c :: later => (ofPieces later).prepend c
  | .reference name :: later => join ⟨[], []⟩ name (ofPieces later)

end Parted

/-! ## Placeholders as they are written -/

theorem isName_iff {name : String} : IsName name ↔ ∀ c ∈ name.toList, isNameChar c = true := by
  constructor
  · intro named c member
    have opening : c ≠ '{' := fun same => named.1 (same ▸ member)
    have closing : c ≠ '}' := fun same => named.2 (same ▸ member)
    simp [isNameChar, opening, closing]
  · intro chars
    exact ⟨fun member => by simpa [isNameChar] using chars _ member,
      fun member => by simpa [isNameChar] using chars _ member⟩

/-- A placeholder opens a text if it is written there. -/
theorem placeholder?_written {name : String} (named : IsName name) (after : Chars) :
    placeholder? (written name ++ after) = some (name.toList, after) := by
  have stops : ∀ c ∈ ('}' :: after).head?, isNameChar c = false := by simp [isNameChar]
  obtain ⟨taken, left⟩ := takeWhile_append_of_stop (isName_iff.mp named) stops
  simp only [written, List.cons_append, List.append_assoc, List.nil_append, placeholder?, taken,
    left]

/-- Only what is written opens a text. -/
theorem eq_of_placeholder? {text name after : Chars}
    (found : placeholder? text = some (name, after)) :
    text = written (String.ofList name) ++ after ∧ IsName (String.ofList name) := by
  unfold placeholder? at found
  split at found
  · split at found
    · rename_i left
      cases found
      refine ⟨?_, isName_iff.mpr ?_⟩
      · rw [written, String.toList_ofList]
        simp only [List.cons_append, List.append_assoc, List.nil_append, ← left,
          List.takeWhile_append_dropWhile]
      · rw [String.toList_ofList]
        exact List.all_eq_true.mp List.all_takeWhile
    · cases found
  · cases found

/-- A placeholder holds no brace but at its ends, so no other begins within it. -/
theorem written_ne_of_opening {name : String} (named : IsName name) (first : Char)
    (front back : Chars) : written name ≠ first :: (front ++ '{' :: back) := by
  intro split
  have within : '{' ∈ '$' :: (name.toList ++ ['}']) := by
    rw [(List.cons.inj split).2]
    simp
  simp [named.1] at within

namespace IsPlain

theorem of_suffix {text later : Chars} (plain : IsPlain text) (tail : later <:+ text) :
    IsPlain later := fun name named stands => plain name named (stands.trans tail.isInfix)

/-- Where a plain text is not over, no placeholder begins, whether it is the last stretch or
followed by a placeholder. -/
theorem placeholder?_eq_none {c : Char} {text after : Chars} (plain : IsPlain (c :: text))
    (opens : ∀ next ∈ after.head?, next = '{') : placeholder? (c :: text ++ after) = none := by
  rcases found : placeholder? (c :: text ++ after) with _ | ⟨name, behind⟩
  · rfl
  · obtain ⟨split, named⟩ := eq_of_placeholder? found
    rcases List.append_eq_append_iff.mp split with ⟨more, longer, follows⟩ | ⟨less, shorter, -⟩
    · cases more with
      | nil =>
          rw [List.append_nil] at longer
          exact absurd (longer ▸ List.infix_refl _) (plain _ named)
      | cons next more =>
          -- The placeholder would reach into what follows, which begins with a brace.
          have brace := opens next (by rw [follows]; rfl)
          subst brace
          exact absurd longer (written_ne_of_opening named c text more)
    · exact absurd (shorter ▸ (List.prefix_append _ less).isInfix) (plain _ named)

end IsPlain

/-! ## Pieces -/

theorem piecesFrom_append (passed text : Chars) :
    piecesFrom passed.length (passed ++ text) = pieces text := by
  induction passed with
  | nil => rfl
  | cons c passed ih => exact ih

theorem pieces_written_append {name : String} (named : IsName name) (after : Chars) :
    pieces (written name ++ after) = .reference name :: pieces after := by
  have found := placeholder?_written named after
  have passed := piecesFrom_append ('$' :: (name.toList ++ ['}'])) after
  simp only [List.length_cons, List.length_append, List.length_nil] at passed
  rw [written, List.cons_append] at found ⊢
  simp only [pieces, piecesFrom, found, String.ofList_toList]
  exact congrArg _ passed

theorem IsPlain.pieces_append {text after : Chars} (plain : IsPlain text)
    (opens : ∀ next ∈ after.head?, next = '{') :
    pieces (text ++ after) = text.map .plain ++ pieces after := by
  induction text with
  | nil => rfl
  | cons c text ih =>
      have none := plain.placeholder?_eq_none opens
      have others := ih (plain.of_suffix (List.suffix_cons c text))
      rw [List.cons_append] at none ⊢
      simp only [pieces, piecesFrom, none]
      exact congrArg _ others

/-! ## Divisions -/

namespace Parted

@[simp]
theorem replaced_nil (rest : Chars) (put : String → Chars) :
    replaced ⟨[], rest⟩ put = rest :=
  rfl

@[simp]
theorem replaced_cons (stretch : Chars) (name : String) (stretches : List (Chars × String))
    (rest : Chars) (put : String → Chars) :
    replaced ⟨(stretch, name) :: stretches, rest⟩ put =
      stretch ++ (put name ++ replaced ⟨stretches, rest⟩ put) := by
  simp [replaced]

@[simp]
theorem replaced_join (first second : Parted) (name : String) (put : String → Chars) :
    (first.join name second).replaced put =
      first.replaced put ++ (put name ++ second.replaced put) := by
  simp [replaced, join]

@[simp]
theorem pieces_nil (rest : Chars) : pieces ⟨[], rest⟩ = rest.map .plain :=
  rfl

@[simp]
theorem pieces_cons (stretch : Chars) (name : String) (stretches : List (Chars × String))
    (rest : Chars) : pieces ⟨(stretch, name) :: stretches, rest⟩ =
      stretch.map .plain ++ .reference name :: pieces ⟨stretches, rest⟩ := by
  simp [pieces]

namespace Divides

/-- What is read from a text are the pieces of its division. -/
theorem pieces_eq {parts : Parted} {text : Chars} (divides : parts.Divides text) :
    Placeholder.pieces text = parts.pieces := by
  obtain ⟨stretches, rest⟩ := parts
  obtain ⟨rfl, plain, last⟩ := divides
  induction stretches with
  | nil =>
      have whole : Placeholder.pieces (rest ++ []) = rest.map .plain ++ Placeholder.pieces [] :=
        last.pieces_append (by simp)
      simpa [Placeholder.pieces, piecesFrom] using whole
  | cons stretch stretches ih =>
      obtain ⟨stretch, name⟩ := stretch
      obtain ⟨⟨first, named⟩, others⟩ := List.forall_mem_cons.mp plain
      rw [replaced_cons, pieces_cons, first.pieces_append (by simp [written]),
        pieces_written_append named, ih others last]

theorem join {first second : Parted} {before after : Chars} {name : String}
    (divides : first.Divides before) (named : IsName name) (others : second.Divides after) :
    (first.join name second).Divides (before ++ (written name ++ after)) where
  whole := by rw [replaced_join, divides.whole, others.whole]
  stretches stretch member := by
    rcases List.mem_append.mp member with member | member
    · exact divides.stretches stretch member
    · rcases List.mem_cons.mp member with rfl | member
      · exact ⟨divides.rest, named⟩
      · exact others.stretches stretch member
  rest := others.rest

end Divides

/-- Every text can be divided. -/
theorem exists_divides (text : Chars) : ∃ parts : Parted, parts.Divides text := by
  by_cases plain : IsPlain text
  · exact ⟨⟨[], text⟩, rfl, by simp, plain⟩
  · -- At any placeholder there are two shorter texts to divide.
    simp only [IsPlain, Classical.not_forall, Classical.not_not] at plain
    obtain ⟨name, named, before, after, whole⟩ := plain
    have shorter : before.length < text.length ∧ after.length < text.length := by
      rw [← whole]
      simp only [written, List.length_append, List.length_cons]
      omega
    obtain ⟨first, divides⟩ := exists_divides before
    obtain ⟨second, others⟩ := exists_divides after
    rw [← whole, List.append_assoc]
    exact ⟨first.join name second, divides.join named others⟩
termination_by text.length

theorem ofPieces_plain (rest : Chars) : ofPieces (rest.map .plain) = ⟨[], rest⟩ := by
  induction rest with
  | nil => rfl
  | cons c rest ih =>
      rw [List.map_cons, ofPieces, ih]
      rfl

theorem ofPieces_plain_append (stretch : Chars) (name : String) (later : List Piece) :
    ofPieces (stretch.map .plain ++ .reference name :: later) =
      join ⟨[], stretch⟩ name (ofPieces later) := by
  induction stretch with
  | nil => rfl
  | cons c stretch ih =>
      rw [List.map_cons, List.cons_append, ofPieces, ih]
      rfl

theorem ofPieces_pieces (parts : Parted) : ofPieces parts.pieces = parts := by
  obtain ⟨stretches, rest⟩ := parts
  induction stretches with
  | nil => exact ofPieces_plain rest
  | cons stretch stretches ih =>
      rw [pieces_cons, ofPieces_plain_append, ih]
      rfl

/-- No text can be divided in two ways. -/
theorem Divides.unique {first second : Parted} {text : Chars} (divides : first.Divides text)
    (other : second.Divides text) : first = second := by
  rw [← ofPieces_pieces first, ← divides.pieces_eq, other.pieces_eq, ofPieces_pieces]

/-- Wherever a placeholder is written in a text, it is one of those between the stretches. -/
theorem Divides.eq_append_written_iff {parts : Parted} {text : Chars}
    (divides : parts.Divides text) {name : String} (named : IsName name) (before after : Chars) :
    text = before ++ (written name ++ after) ↔
      ∃ first second : Parted, parts = first.join name second ∧
        first.Divides before ∧ second.Divides after := by
  constructor
  · rintro rfl
    obtain ⟨first, dividesBefore⟩ := exists_divides before
    obtain ⟨second, dividesAfter⟩ := exists_divides after
    exact ⟨first, second, divides.unique (dividesBefore.join named dividesAfter), dividesBefore,
      dividesAfter⟩
  · rintro ⟨first, second, rfl, dividesBefore, dividesAfter⟩
    rw [← divides.whole, replaced_join, dividesBefore.whole, dividesAfter.whole]

end Parted

/-! ## Filling in -/

section Filling

variable (store : Store)

theorem fill_nil : fill store [] = .ok [] :=
  rfl

theorem fill_cons (piece : Piece) (later : List Piece) :
    fill store (piece :: later) =
      match piece.fill store with
      | .ok first => (fill store later).map (first ++ ·)
      | .error fault => .error fault := by
  simp only [fill, List.mapM_cons]
  rcases piece.fill store with _ | first
  · rfl
  · rcases later.mapM (Piece.fill store) with _ | _ <;> rfl

/-- A stretch is kept as it is. -/
theorem fill_plain_append (stretch : Chars) (later : List Piece) :
    fill store (stretch.map .plain ++ later) = (fill store later).map (stretch ++ ·) := by
  induction stretch with
  | nil =>
      rw [List.map_nil, List.nil_append]
      rcases fill store later with _ | _ <;> rfl
  | cons c stretch ih =>
      rw [List.map_cons, List.cons_append, fill_cons, ih]
      rcases fill store later with _ | _ <;> rfl

variable {store}

theorem fill_reference {name : String} {value : Value} (defined : store.get? name = some value)
    (later : List Piece) : fill store (.reference name :: later) =
      (fill store later).map (value.render.toList ++ ·) := by
  simp only [fill_cons, Piece.fill, Store.read, defined, Except.map]

theorem fill_reference_of_undefined {name : String} (undefined : store.get? name = none)
    (later : List Piece) :
    fill store (.reference name :: later) = .error (.undefinedVariable name) := by
  simp only [fill_cons, Piece.fill, Store.read, undefined, Except.map]

end Filling

namespace Parted

variable {parts : Parted} {store : Store}

theorem fill_pieces_of_displays {put : String → Chars}
    (displays : ∀ name ∈ parts.names, ∃ value, store.get? name = some value ∧
      value.render.toList = put name) :
    fill store parts.pieces = .ok (parts.replaced put) := by
  obtain ⟨stretches, rest⟩ := parts
  induction stretches with
  | nil =>
      have whole := fill_plain_append store rest []
      rw [List.append_nil, fill_nil] at whole
      simpa [Except.map] using whole
  | cons stretch stretches ih =>
      obtain ⟨stretch, name⟩ := stretch
      obtain ⟨⟨value, defined, shown⟩, others⟩ := List.forall_mem_cons.mp displays
      rw [pieces_cons, fill_plain_append, fill_reference defined, ih others, replaced_cons, shown]
      rfl

theorem fill_pieces_of_missing {earlier later : List String} {name : String}
    (order : parts.names = earlier ++ name :: later)
    (defined : ∀ other ∈ earlier, (store.get? other).isSome)
    (undefined : store.get? name = none) :
    fill store parts.pieces = .error (.undefinedVariable name) := by
  obtain ⟨stretches, rest⟩ := parts
  induction stretches generalizing earlier with
  | nil => simp [names] at order
  | cons stretch stretches ih =>
      obtain ⟨stretch, first⟩ := stretch
      rw [pieces_cons, fill_plain_append]
      cases earlier with
      | nil =>
          obtain ⟨rfl, -⟩ := List.cons.inj order
          rw [fill_reference_of_undefined undefined]
          rfl
      | cons other earlier =>
          obtain ⟨rfl, others⟩ := List.cons.inj order
          obtain ⟨known, rest⟩ := List.forall_mem_cons.mp defined
          obtain ⟨value, found⟩ := Option.isSome_iff_exists.mp known
          rw [fill_reference found, ih rest others]
          rfl

/-- Either every placeholder can be replaced, or there is a first that cannot. -/
theorem exists_filled (parts : Parted) (store : Store) :
    ∃ outcome, parts.Filled store outcome := by
  rcases found : parts.names.find? fun name => (store.get? name).isNone with _ | name
  · refine ⟨_, .all (fun name => ((store.get? name).map fun value => value.render.toList).getD [])
      fun name member => ?_⟩
    rcases read : store.get? name with _ | value
    · have known := List.find?_eq_none.mp found name member
      simp [read] at known
    · exact ⟨value, rfl, by simp⟩
  · obtain ⟨undefined, earlier, later, order, defined⟩ := List.find?_eq_some_iff_append.mp found
    refine ⟨_, .missing earlier name later order (fun other member => ?_)
      (Option.isNone_iff_eq_none.mp undefined)⟩
    simpa using defined other member

/-- Filling in succeeds exactly if every placeholder names a variable that is defined. -/
theorem Filled.isOk_iff {outcome : Except Fault String} (filled : parts.Filled store outcome) :
    outcome.isOk ↔ ∀ name ∈ parts.names, (store.get? name).isSome := by
  cases filled with
  | all put displays =>
      refine iff_of_true rfl fun name member => ?_
      obtain ⟨value, defined, -⟩ := displays name member
      simp [defined]
  | missing earlier name later order _ undefined =>
      refine iff_of_false Bool.false_ne_true fun defined => ?_
      have known := defined name (order ▸ by simp)
      rw [undefined] at known
      cases known

/-- Only the variables matter that placeholders name. -/
theorem Filled.congr {other : Store} {outcome : Except Fault String}
    (filled : parts.Filled store outcome)
    (same : ∀ name ∈ parts.names, other.get? name = store.get? name) :
    parts.Filled other outcome := by
  cases filled with
  | all put displays =>
      refine .all put fun name member => ?_
      rw [same name member]
      exact displays name member
  | missing earlier name later order defined undefined =>
      refine .missing earlier name later order (fun known member => ?_) ?_
      · rw [same known (order ▸ List.mem_append_left _ member)]
        exact defined known member
      · rw [same name (order ▸ by simp)]
        exact undefined

end Parted

end Placeholder

open Placeholder

theorem fillPlaceholders_eq_of_filled {parts : Parted} {store : Store} {text : String}
    {outcome : Except Fault String} (divides : parts.Divides text.toList)
    (filled : parts.Filled store outcome) : fillPlaceholders store text = outcome := by
  rw [fillPlaceholders, divides.pieces_eq]
  cases filled with
  | all put displays =>
      rw [Parted.fill_pieces_of_displays displays]
      rfl
  | missing earlier name later order defined undefined =>
      rw [Parted.fill_pieces_of_missing order defined undefined]
      rfl

/-- Each text is divided in one way into its placeholders and what stands between them, and every
placeholder that is written in it is one of these.  Filling it in replaces each of them by the
value of its variable and keeps the rest, and nothing that was put in is looked at again; or it
fails with the first variable that is not defined.  No other variable matters. -/
theorem fillPlaceholders_replaces (text : String) :
    ∃ parts : Parted, parts.Divides text.toList ∧
      (∀ other : Parted, other.Divides text.toList → other = parts) ∧
      (∀ before name after, IsName name →
        (text.toList = before ++ (written name ++ after) ↔
          ∃ first second : Parted, parts = first.join name second ∧
            first.Divides before ∧ second.Divides after)) ∧
      ∀ store,
        (∀ outcome, fillPlaceholders store text = outcome ↔ parts.Filled store outcome) ∧
        ((fillPlaceholders store text).isOk ↔
          ∀ name ∈ parts.names, (store.get? name).isSome) ∧
        ∀ other : Store, (∀ name ∈ parts.names, other.get? name = store.get? name) →
          fillPlaceholders other text = fillPlaceholders store text := by
  obtain ⟨parts, divides⟩ := Parted.exists_divides text.toList
  refine ⟨parts, divides, fun other also => also.unique divides,
    fun before name after named => divides.eq_append_written_iff named before after,
    fun store => ?_⟩
  obtain ⟨outcome, filled⟩ := parts.exists_filled store
  have comes := fillPlaceholders_eq_of_filled divides filled
  refine ⟨fun other => ⟨fun same => ?_, fillPlaceholders_eq_of_filled divides⟩, ?_,
    fun other same => ?_⟩
  · rwa [← same, comes]
  · rw [comes]
    exact filled.isOk_iff
  · rw [comes]
    exact fillPlaceholders_eq_of_filled divides (filled.congr same)

/-- Braces that are no placeholder are kept, and so are those of a value that was put in. -/
theorem filled_of_nested_braces :
    let text := "\x7b$a\x7b$b\x7d \x7ba\x7d \x7b$b\x7d\x7b$"
    let store : Store := NameMap.empty.insert "b" (.text "\x7b$c\x7d")
    ∃ parts : Parted, parts.Divides text.toList ∧
      parts.Filled store (.ok "\x7b$a\x7b$c\x7d \x7ba\x7d \x7b$c\x7d\x7b$") ∧
      parts.Filled .empty (.error (.undefinedVariable "b")) := by
  intro text store
  obtain ⟨parts, divides, -, -, fills⟩ := fillPlaceholders_replaces text
  exact ⟨parts, divides, ((fills store).1 _).mp (by decide +kernel),
    ((fills .empty).1 _).mp (by decide +kernel)⟩

end Parley
