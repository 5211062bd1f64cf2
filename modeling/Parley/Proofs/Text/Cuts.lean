import Mathlib.Data.List.Basic
import Parley.Proofs.Text.Splitting
import Parley.Proofs.Text.Words

/-!
# Where a text is cut

Splitting a text takes it apart at a separator or at a word.  Either way the parts give the text
back when they are joined again, and the cuts are exactly the places where the separator stands
outside quotes and parentheses, or where the word does and has blanks around it.  What stands at
those places never overlaps.
-/

namespace Parley.Text

variable {text joint : Chars}

/-- What is open behind a text, where a parenthesis that closes nothing is passed over. -/
def Nesting.after (nesting : Nesting) (text : Chars) : Nesting :=
  text.foldl Nesting.read nesting

/-- A text stands at a place of another one, outside quotes and parentheses. -/
def StandsUnnested (joint text : Chars) (place : Nat) : Prop :=
  ∃ before after, text = before ++ joint ++ after ∧ before.length = place ∧
    (Nesting.top.after before).isTop = true

/-- A text stands at a place of another one between blanks, outside quotes and parentheses. -/
def StandsAlone (word text : Chars) (place : Nat) : Prop :=
  ∃ before after, text = before ++ word ++ after ∧ before.length = place ∧
    (∃ c ∈ before.getLast?, isBlank c = true) ∧ (∃ c ∈ after.head?, isBlank c = true) ∧
    (Nesting.top.after before).isTop = true

/-- The places at which the parts of a text have been cut out of it, where the text begins at
`start` and what was taken out between two parts has a given width. -/
def cutPlaces (width start : Nat) : List Chars → List Nat
  | part :: next :: rest =>
      (start + part.length) :: cutPlaces width (start + part.length + width) (next :: rest)
  | _ => []

/-! ## Places of cuts -/

theorem le_of_mem_cutPlaces {width start place : Nat} {parts : List Chars}
    (member : place ∈ cutPlaces width start parts) : start ≤ place := by
  induction parts generalizing start with
  | nil => cases member
  | cons part rest ih =>
      cases rest with
      | nil => cases member
      | cons next rest =>
          rcases List.mem_cons.mp member with rfl | later
          · exact Nat.le_add_right _ _
          · have further := ih later
            omega

/-- What has been taken out at one cut ends in front of the next one. -/
theorem pairwise_cutPlaces (width start : Nat) (parts : List Chars) :
    (cutPlaces width start parts).Pairwise fun earlier later => earlier + width ≤ later := by
  induction parts generalizing start with
  | nil => exact List.Pairwise.nil
  | cons part rest ih =>
      cases rest with
      | nil => exact List.Pairwise.nil
      | cons next rest =>
          apply List.Pairwise.cons
          · intro later member
            exact le_of_mem_cutPlaces member
          · exact ih _

theorem cutPlaces_nil_cons {width start : Nat} {parts : List Chars} (some : parts ≠ []) :
    cutPlaces width start ([] :: parts) = start :: cutPlaces width (start + width) parts := by
  obtain ⟨part, rest, rfl⟩ := List.exists_cons_of_ne_nil some
  rfl

/-- A part that begins one character earlier is cut off at the same place. -/
theorem cutPlaces_consFirst {width start : Nat} {parts : List Chars} (some : parts ≠ [])
    (c : Char) : cutPlaces width start (consFirst c parts) = cutPlaces width (start + 1) parts := by
  obtain ⟨part, rest, rfl⟩ := List.exists_cons_of_ne_nil some
  cases rest with
  | nil => rfl
  | cons next rest =>
      have same : start + (c :: part).length = start + 1 + part.length := by
        rw [List.length_cons]
        omega
      rw [consFirst, cutPlaces, cutPlaces, same]

/-! ## Texts that fall into parts -/

/-- The spot behind a text. -/
def Spot.after (spot : Spot) (text : Chars) : Spot :=
  text.foldl Spot.next spot

theorem Spot.nesting_after (spot : Spot) (text : Chars) :
    (spot.after text).nesting = spot.nesting.after text := by
  induction text generalizing spot with
  | nil => rfl
  | cons c rest ih => exact ih (spot.next c)

/-- Behind a text that is not empty, its last character tells whether a blank came last. -/
theorem Spot.afterBlank_after_top (text : Chars) :
    ((Spot.top false).after text).afterBlank = true ↔ ∃ c ∈ text.getLast?, isBlank c = true := by
  rcases List.eq_nil_or_concat text with rfl | ⟨start, c, rfl⟩
  · simp [Spot.after, Spot.top]
  · simp [Spot.after, Spot.next]

/-- A text, read from a spot on, falls into parts: wherever `cuts` tells so, it is cut and the
joint that stands there is taken out. -/
inductive Splits (cuts : Spot → Chars → Bool) (joint : Chars) : Spot → Chars → List Chars → Prop
  | ends (spot : Spot) : Splits cuts joint spot [] [[]]
  | cut {spot : Spot} {rest : Chars} {parts : List Chars} (here : cuts spot (joint ++ rest) = true)
      (others : Splits cuts joint (spot.after joint) rest parts) :
      Splits cuts joint spot (joint ++ rest) ([] :: parts)
  | keep {spot : Spot} {c : Char} {rest : Chars} {parts : List Chars}
      (here : cuts spot (c :: rest) = false) (others : Splits cuts joint (spot.next c) rest parts) :
      Splits cuts joint spot (c :: rest) (consFirst c parts)

namespace Splits

variable {cuts : Spot → Chars → Bool} {spot : Spot} {parts : List Chars}

theorem ne_nil (splits : Splits cuts joint spot text parts) : parts ≠ [] := by
  cases splits with
  | ends => exact List.cons_ne_nil _ _
  | cut => exact List.cons_ne_nil _ _
  | keep => exact consFirst_ne_nil _ _

/-- The parts, joined again, are the text. -/
theorem intercalate (splits : Splits cuts joint spot text parts) :
    joint.intercalate parts = text := by
  induction splits with
  | ends => rfl
  | cut _ others ih =>
      obtain ⟨part, rest, rfl⟩ := List.exists_cons_of_ne_nil others.ne_nil
      rw [List.intercalate_cons_cons, ih]
      rfl
  | keep _ _ ih => rw [intercalate_consFirst, ih]

/-- A text is cut exactly where it holds the joint and `cuts` tells so, as long as that is never
the case inside of a joint. -/
theorem mem_cutPlaces_iff (splits : Splits cuts joint spot text parts) (nonempty : joint ≠ [])
    (apart : ∀ spot front back after, joint = front ++ back → front ≠ [] → back ≠ [] →
      cuts (Spot.after spot front) after = false) (start place : Nat) :
    place ∈ cutPlaces joint.length start parts ↔
      ∃ before after, text = before ++ joint ++ after ∧ start + before.length = place ∧
        cuts (spot.after before) (joint ++ after) = true := by
  induction splits generalizing start with
  | ends =>
      constructor
      · intro member
        cases member
      · rintro ⟨before, after, same, -⟩
        simp [nonempty] at same
  | @cut spot rest parts here others ih =>
      rw [cutPlaces_nil_cons others.ne_nil, List.mem_cons, ih]
      constructor
      · rintro (rfl | ⟨before, after, rfl, rfl, found⟩)
        · exact ⟨[], rest, rfl, rfl, here⟩
        · refine ⟨joint ++ before, after, by simp, ?_, ?_⟩
          · rw [List.length_append, ← Nat.add_assoc]
          · rw [Spot.after, List.foldl_append]
            exact found
      · rintro ⟨before, after, same, rfl, found⟩
        rw [List.append_assoc] at same
        rcases List.append_eq_append_iff.mp same with ⟨between, rfl, behind⟩ | ⟨back, front, behind⟩
        · -- What is found here stands behind the joint that has been taken out.
          refine Or.inr ⟨between, after, ?_, ?_, ?_⟩
          · rw [behind, List.append_assoc]
          · rw [List.length_append, Nat.add_assoc]
          · rw [Spot.after, List.foldl_append] at found
            exact found
        · -- What begins inside of that joint is the joint itself.
          by_cases starts : before = []
          · exact Or.inl (by simp [starts])
          · by_cases stops : back = []
            · rw [stops, List.append_nil] at front
              rw [stops, List.nil_append] at behind
              refine Or.inr ⟨[], after, behind.symm, by simp [front], ?_⟩
              rw [front] at found ⊢
              exact found
            · have never := apart spot before back (joint ++ after) front starts stops
              rw [found] at never
              cases never
  | @keep spot c rest parts here others ih =>
      rw [cutPlaces_consFirst others.ne_nil, ih]
      constructor
      · rintro ⟨before, after, rfl, rfl, found⟩
        refine ⟨c :: before, after, rfl, ?_, found⟩
        rw [List.length_cons]
        omega
      · rintro ⟨before, after, same, rfl, found⟩
        cases before with
        | nil =>
            have cut : cuts spot (c :: rest) = true := by
              rw [same]
              exact found
            rw [here] at cut
            cases cut
        | cons d before =>
            cases same
            refine ⟨before, after, rfl, ?_, found⟩
            rw [List.length_cons]
            omega

end Splits

/-! ## Cutting at a separator -/

section Separator

variable {separator : Char}

/-- A separator is cut out wherever it stands at top level. -/
def cutsAtSeparator (separator : Char) (spot : Spot) (text : Chars) : Bool :=
  spot.nesting.isTop && text.head? == some separator

theorem cutsAtSeparator_cons (spot : Spot) (c : Char) (rest : Chars) :
    cutsAtSeparator separator spot (c :: rest) = true ↔ c = separator ∧ spot.nesting.isTop := by
  simp [cutsAtSeparator, and_comm]

theorem splits_splitFrom (flat : isFlat separator = true) (spot : Spot) (text : Chars) :
    Splits (cutsAtSeparator separator) [separator] spot text
      (splitFrom separator spot.nesting text) := by
  induction text generalizing spot with
  | nil => exact Splits.ends spot
  | cons c rest ih =>
      rw [splitFrom]
      split
      · rename_i cuts
        have here := (cutsAtSeparator_cons spot c rest).mpr cuts
        obtain ⟨rfl, -⟩ := cuts
        have others : Splits (cutsAtSeparator c) [c] (spot.after [c]) rest
            (splitFrom c spot.nesting rest) := by
          have same : spot.after [c] = ⟨isBlank c, spot.nesting⟩ := Spot.next_of_isFlat flat spot
          rw [same]
          exact ih ⟨isBlank c, spot.nesting⟩
        exact Splits.cut here others
      · rename_i kept
        rw [← cutsAtSeparator_cons spot c rest] at kept
        exact Splits.keep (eq_false_of_ne_true kept) (ih (spot.next c))

theorem Nesting.eq_top_of_isTop {nesting : Nesting} (top : nesting.isTop = true) :
    nesting = Nesting.top := by
  obtain ⟨depth, quoted⟩ := nesting
  simpa [isTop, Nesting.top] using top

/-- No part holds the separator at top level: not the first one, read from where the text begins,
and none of the others, read on its own. -/
theorem not_isTop_of_splitFrom {nesting : Nesting} {first : Chars} {others : List Chars}
    (splits : splitFrom separator nesting text = first :: others) :
    (∀ before after, first = before ++ separator :: after →
      (nesting.after before).isTop = false) ∧
    ∀ part ∈ others, ∀ before after, part = before ++ separator :: after →
      (Nesting.top.after before).isTop = false := by
  induction text generalizing nesting first others with
  | nil =>
      cases splits
      constructor
      · intro before after same
        simp at same
      · intro part member
        cases member
  | cons c rest ih =>
      rw [splitFrom] at splits
      split at splits
      · rename_i cuts
        cases splits
        rw [Nesting.eq_top_of_isTop cuts.2]
        obtain ⟨next, parts, left⟩ :=
          List.exists_cons_of_ne_nil (splitFrom_ne_nil separator Nesting.top rest)
        obtain ⟨heads, tails⟩ := ih left
        constructor
        · intro before after same
          simp at same
        · intro part member
          rw [left] at member
          rcases List.mem_cons.mp member with rfl | member
          · exact heads
          · exact tails part member
      · rename_i kept
        obtain ⟨next, parts, left⟩ :=
          List.exists_cons_of_ne_nil (splitFrom_ne_nil separator (nesting.read c) rest)
        obtain ⟨heads, tails⟩ := ih left
        rw [left] at splits
        cases splits
        constructor
        · intro before after same
          cases before with
          | nil =>
              cases same
              exact eq_false_of_ne_true fun top => kept ⟨rfl, top⟩
          | cons d before =>
              cases same
              exact heads before after rfl
        · exact tails

theorem not_standsUnnested_of_mem {part : Chars} (member : part ∈ splitUnnested separator text)
    (place : Nat) : ¬ StandsUnnested [separator] part place := by
  rintro ⟨before, after, same, -, top⟩
  rw [List.append_assoc] at same
  obtain ⟨first, others, left⟩ :=
    List.exists_cons_of_ne_nil (splitFrom_ne_nil separator Nesting.top text)
  obtain ⟨heads, tails⟩ := not_isTop_of_splitFrom left
  have nested : (Nesting.top.after before).isTop = false := by
    rw [splitUnnested, left] at member
    rcases List.mem_cons.mp member with rfl | member
    · exact heads before after same
    · exact tails part member before after same
  rw [top] at nested
  cases nested

theorem mem_cutPlaces_splitUnnested_iff (flat : isFlat separator = true) {place : Nat} :
    place ∈ cutPlaces 1 0 (splitUnnested separator text) ↔
      StandsUnnested [separator] text place := by
  have splits := splits_splitFrom flat (Spot.top false) text
  have apart : ∀ spot front back after, [separator] = front ++ back → front ≠ [] → back ≠ [] →
      cutsAtSeparator separator (Spot.after spot front) after = false := by
    intro spot front back after parts starts stops
    have length := congrArg List.length parts
    rw [List.length_append] at length
    have first := List.length_pos_iff.mpr starts
    have second := List.length_pos_iff.mpr stops
    rw [List.length_singleton] at length
    omega
  have cuts_iff : ∀ before after, cutsAtSeparator separator ((Spot.top false).after before)
      ([separator] ++ after) = true ↔ (Nesting.top.after before).isTop = true := by
    intro before after
    rw [List.singleton_append, cutsAtSeparator_cons, Spot.nesting_after]
    exact and_iff_right rfl
  have places := splits.mem_cutPlaces_iff (List.cons_ne_nil _ _) apart 0 place
  simp only [cuts_iff, Nat.zero_add] at places
  exact places

end Separator

/-! ## Cutting at a word -/

section Word

variable {word : Chars}

/-- A word is cut out wherever it stands at top level between blanks. -/
def cutsAtWord (word : Chars) (spot : Spot) (text : Chars) : Bool :=
  spot.afterBlank && spot.nesting.isTop && wordAhead word text

theorem cutsAtWord_eq_true_iff {spot : Spot} :
    cutsAtWord word spot text = true ↔
      spot.afterBlank = true ∧ spot.nesting.isTop = true ∧ wordAhead word text = true := by
  rw [cutsAtWord, Bool.and_eq_true, Bool.and_eq_true, and_assoc]

/-- What a word is ahead of begins with it. -/
theorem exists_append_of_wordAhead (ahead : wordAhead word text = true) :
    ∃ rest, text = word ++ rest := by
  rw [wordAhead] at ahead
  split at ahead
  · rename_i rest found
    exact ⟨rest, (List.isPrefixOf?_eq_some_iff_append_eq.mp found).symm⟩
  · cases ahead

theorem wordAhead_append (word rest : Chars) :
    wordAhead word (word ++ rest) = startsBlank rest := by
  have found : word.isPrefixOf? (word ++ rest) = some rest :=
    List.isPrefixOf?_eq_some_iff_append_eq.mpr rfl
  rw [wordAhead, found]

/-- Behind a text of flat characters that are no blanks, the same is open as in front of it. -/
theorem Spot.after_of_solid {spot : Spot} (nonempty : word ≠ [])
    (flat : ∀ c ∈ word, isFlat c = true) (solid : ∀ c ∈ word, isBlank c = false) :
    spot.after word = ⟨false, spot.nesting⟩ := by
  induction word generalizing spot with
  | nil => exact absurd rfl nonempty
  | cons w ws ih =>
      have first : spot.next w = ⟨false, spot.nesting⟩ := by
        rw [Spot.next_of_isFlat (flat w List.mem_cons_self), solid w List.mem_cons_self]
      show (spot.next w).after ws = _
      rw [first]
      by_cases last : ws = []
      · rw [last]
        rfl
      · exact ih last (fun c member => flat c (List.mem_cons_of_mem w member))
          fun c member => solid c (List.mem_cons_of_mem w member)

/-- Where a word is cut out, splitting goes on behind it. -/
theorem splitAtWord_of_cuts {spot : Spot} {rest : Chars} (nonempty : word ≠ [])
    (flat : ∀ c ∈ word, isFlat c = true) (solid : ∀ c ∈ word, isBlank c = false)
    (cuts : cutsAtWord word spot (word ++ rest) = true) :
    splitAtWord word spot (word ++ rest) = [] :: splitAtWord word (spot.after word) rest := by
  obtain ⟨afterBlank, top, ahead⟩ := cutsAtWord_eq_true_iff.mp cuts
  rw [Spot.after_of_solid nonempty flat solid]
  obtain ⟨w, ws, rfl⟩ := List.exists_cons_of_ne_nil nonempty
  rw [splitAtWord, List.cons_append, splitWordFrom, if_pos ⟨afterBlank, top, ahead⟩,
    Nesting.read_of_isFlat (flat w List.mem_cons_self), solid w List.mem_cons_self]
  apply congrArg
  exact splitWordFrom_skip (fun c member => flat c (List.mem_cons_of_mem w member))
    (fun c member => solid c (List.mem_cons_of_mem w member)) _ _

theorem splits_splitAtWord (nonempty : word ≠ []) (flat : ∀ c ∈ word, isFlat c = true)
    (solid : ∀ c ∈ word, isBlank c = false) (spot : Spot) (text : Chars) :
    Splits (cutsAtWord word) word spot text (splitAtWord word spot text) := by
  -- A cut takes out a whole word, so the text gets shorter by more than its first character.
  induction length : text.length using Nat.strongRecOn generalizing spot text with
  | ind length ih =>
      subst length
      cases text with
      | nil => exact Splits.ends spot
      | cons c rest =>
          by_cases cuts : cutsAtWord word spot (c :: rest) = true
          · obtain ⟨-, -, ahead⟩ := cutsAtWord_eq_true_iff.mp cuts
            obtain ⟨behind, same⟩ := exists_append_of_wordAhead ahead
            rw [same] at cuts ih ⊢
            rw [splitAtWord_of_cuts nonempty flat solid cuts]
            apply Splits.cut cuts
            apply ih behind.length _ _ _ rfl
            rw [List.length_append]
            exact Nat.lt_add_of_pos_left (List.length_pos_iff.mpr nonempty)
          · have kept : splitAtWord word spot (c :: rest) =
                consFirst c (splitAtWord word (spot.next c) rest) := by
              rw [splitAtWord, splitWordFrom, if_neg]
              · rfl
              · exact fun found => cuts (cutsAtWord_eq_true_iff.mpr found)
            rw [kept]
            apply Splits.keep (eq_false_of_ne_true cuts)
            exact ih rest.length (Nat.lt_succ_self _) _ _ rfl

theorem mem_cutPlaces_splitUnnestedWord_iff (nonempty : word ≠ [])
    (flat : ∀ c ∈ word, isFlat c = true) (solid : ∀ c ∈ word, isBlank c = false) {place : Nat} :
    place ∈ cutPlaces word.length 0 (splitUnnestedWord word text) ↔
      StandsAlone word text place := by
  have splits := splits_splitAtWord nonempty flat solid (Spot.top false) text
  -- Inside of a word the last character is no blank.
  have apart : ∀ spot front back after, word = front ++ back → front ≠ [] → back ≠ [] →
      cutsAtWord word (Spot.after spot front) after = false := by
    intro spot front back after parts starts _
    have within : ∀ c ∈ front, c ∈ word := fun c member => parts ▸ List.mem_append_left back member
    rw [Spot.after_of_solid starts (fun c member => flat c (within c member))
      fun c member => solid c (within c member)]
    rfl
  have cuts_iff : ∀ before after, cutsAtWord word ((Spot.top false).after before)
      (word ++ after) = true ↔ (∃ c ∈ before.getLast?, isBlank c = true) ∧
        (∃ c ∈ after.head?, isBlank c = true) ∧ (Nesting.top.after before).isTop = true := by
    intro before after
    have ahead : wordAhead word (word ++ after) = true ↔ ∃ c ∈ after.head?, isBlank c = true := by
      rw [wordAhead_append]
      cases after <;> simp [startsBlank]
    rw [cutsAtWord_eq_true_iff, Spot.afterBlank_after_top, Spot.nesting_after, ahead]
    exact and_congr_right fun _ => and_comm
  have places := splits.mem_cutPlaces_iff nonempty apart 0 place
  simp only [cuts_iff, Nat.zero_add] at places
  exact places

end Word

/-! ## Both ways of splitting -/

/-- A text that is split at a separator or at a word is recovered by joining its parts.  No part
holds the separator outside quotes and parentheses.  The cuts are where the separator stands
outside quotes and parentheses, or where the word does between blanks, and no cut reaches into
the next one. -/
theorem splitUnnested_cuts_exactly (text : Chars) :
    (∀ separator, isFlat separator = true →
      [separator].intercalate (splitUnnested separator text) = text ∧
      (∀ part ∈ splitUnnested separator text, ∀ place, ¬ StandsUnnested [separator] part place) ∧
      ∀ place, place ∈ cutPlaces 1 0 (splitUnnested separator text) ↔
        StandsUnnested [separator] text place) ∧
    ∀ word, word ≠ [] → (∀ c ∈ word, isFlat c = true ∧ isBlank c = false) →
      word.intercalate (splitUnnestedWord word text) = text ∧
      (∀ place, place ∈ cutPlaces word.length 0 (splitUnnestedWord word text) ↔
        StandsAlone word text place) ∧
      (cutPlaces word.length 0 (splitUnnestedWord word text)).Pairwise fun earlier later =>
        earlier + word.length ≤ later := by
  constructor
  · intro separator flat
    refine ⟨intercalate_splitFrom separator Nesting.top text, ?_, ?_⟩
    · exact fun part member => not_standsUnnested_of_mem member
    · exact fun place => mem_cutPlaces_splitUnnested_iff flat
  · intro word nonempty plain
    have flat : ∀ c ∈ word, isFlat c = true := fun c member => (plain c member).1
    have solid : ∀ c ∈ word, isBlank c = false := fun c member => (plain c member).2
    refine ⟨?_, ?_, pairwise_cutPlaces _ _ _⟩
    · exact (splits_splitAtWord nonempty flat solid (Spot.top false) text).intercalate
    · exact fun place => mem_cutPlaces_splitUnnestedWord_iff nonempty flat solid

/-- A quoted separator is kept, and so is a word between quotes or parentheses; the others are
where these texts are cut. -/
theorem splitUnnested_cuts_exactly_of_nested :
    let calls := "Print(\"a;b\"); Give(Item(1), 2)".toList
    let conditions := "$A == \"x and y\" and Ready($B and 1) and $C".toList
    let word := "and".toList
    isFlat ';' = true ∧ word ≠ [] ∧ (∀ c ∈ word, isFlat c = true ∧ isBlank c = false) ∧
      [';'].intercalate (splitUnnested ';' calls) = calls ∧
      (∀ part ∈ splitUnnested ';' calls, ∀ place, ¬ StandsUnnested [';'] part place) ∧
      (∀ place, StandsUnnested [';'] calls place ↔ place = 12) ∧
      word.intercalate (splitUnnestedWord word conditions) = conditions ∧
      ∀ place, StandsAlone word conditions place ↔ place = 16 ∨ place = 36 := by
  intro calls conditions word
  have plain : ∀ c ∈ word, isFlat c = true ∧ isBlank c = false :=
    forall_mem_of_all (by decide)
  obtain ⟨joined, uncut, stands⟩ := (splitUnnested_cuts_exactly calls).1 ';' (by decide)
  obtain ⟨joinedWords, standsAlone, -⟩ :=
    (splitUnnested_cuts_exactly conditions).2 word (by decide) plain
  have places : cutPlaces 1 0 (splitUnnested ';' calls) = [12] := by decide
  have wordPlaces : cutPlaces word.length 0 (splitUnnestedWord word conditions) = [16, 36] := by
    decide
  rw [places] at stands
  rw [wordPlaces] at standsAlone
  refine ⟨by decide, by decide, plain, joined, uncut, fun place => ?_, joinedWords, fun place => ?_⟩
  · rw [← stands, List.mem_singleton]
  · rw [← standsAlone, List.mem_cons, List.mem_singleton]

end Parley.Text
