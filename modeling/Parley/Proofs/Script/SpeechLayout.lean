import Parley.Proofs.Text.Endings
import Parley.Proofs.Text.Words
import Parley.Script.Speech

/-!
# Spoken lines are read back

A spoken line is written with its tag behind the speaker, with its command block behind the text
and with return markers behind either.  Reading takes all of this off again, from the end to the
start, and each part is found where it was written: the markers because the text ends in none, the
block because nothing in front of it opens a group, the tag because nothing in front of it opens
one, and the speaker because no colon stands in front of the first one.
-/

namespace Parley.Script

open Parley.Text

/-- What comes of a text if one sequence of characters takes the place of another one, wherever
that occurs. -/
def Replaces (mark put text result : Chars) : Prop :=
  ∃ parts, mark.intercalate parts = text ∧ (∀ part ∈ parts, ¬ mark <:+: part) ∧
    put.intercalate parts = result

namespace Speech

/-! ## Sources -/

/-- What a spoken line is written from. -/
structure Layout where
  speaker : Chars
  tag : Option Chars
  text : Chars
  /-- The source of the command block. -/
  block : Option Chars
  /-- What stands in front of each return marker behind the text. -/
  inner : List Chars
  /-- What stands in front of each return marker behind the command block. -/
  outer : List Chars

/-- The mark that leads one level up. -/
def returnMarker : Chars := ['<', '-']

/-- Return markers, with something in front of each. -/
def markers (gaps : List Chars) : Chars :=
  gaps.flatMap fun gap => gap ++ returnMarker

/-- The source of a tag. -/
def tagSource : Option Chars → Chars
  | some tag => ' ' :: '[' :: '[' :: (tag ++ [']', ']'])
  | none => []

/-- The source of a spoken line, up to its text. -/
def Layout.spoken (layout : Layout) : Chars :=
  layout.speaker ++ (tagSource layout.tag ++ ':' :: ' ' :: layout.text)

/-- The source of a spoken line. -/
def Layout.source (layout : Layout) : Chars :=
  withFinalGroup (layout.spoken ++ markers layout.inner) layout.block ++ markers layout.outer

/-- A text that may be spoken: it is not blank, and no part of a line begins in it. -/
structure IsPhrase (text : Chars) : Prop where
  nonempty : text ≠ []
  trimmed : IsTrimmed text
  flat : ∀ c ∈ text, isFlat c = true
  untagged : ¬ ['[', '['] <:+: text

/-- A tag that can be written: it fits between its brackets. -/
structure IsTag (tag : Chars) : Prop where
  nonempty : tag ≠ []
  trimmed : IsTrimmed tag
  flat : ∀ c ∈ tag, isFlat c = true
  oneLine : '\n' ∉ tag
  unclosed : ¬ [']', ']'] <:+: tag
  open_ : tag.getLast? ≠ some ']'

/-- A spoken line that can be written. -/
structure Layout.IsWritable (layout : Layout) : Prop where
  speaker : IsPhrase layout.speaker
  noColon : ':' ∉ layout.speaker
  tag : ∀ tag ∈ layout.tag, IsTag tag
  text : IsPhrase layout.text
  unmarked : ¬ returnMarker <:+ layout.text
  block : ∀ block ∈ layout.block, Balanced block
  gaps : ∀ gap ∈ layout.inner ++ layout.outer, ∀ c ∈ gap, isBlank c = true

/-! ## Return markers -/

theorem dropMarkersReversed_marker (rest : Chars) :
    dropMarkersReversed ('-' :: '<' :: rest) =
      ((dropMarkersReversed rest).1, (dropMarkersReversed rest).2 + 1) :=
  rfl

theorem dropMarkersReversed_cons {c : Char} {rest : Chars}
    (other : ∀ after, c = '-' → rest = '<' :: after → False) :
    dropMarkersReversed (c :: rest) =
      if isBlank c then dropMarkersReversed rest else (c :: rest, 0) := by
  conv => lhs; unfold dropMarkersReversed
  split
  · rename_i empty
    cases empty
  · rename_i after marked
    obtain ⟨first, second⟩ := List.cons.inj marked
    exact (other after first second).elim
  · rename_i whole
    cases whole
    rfl

theorem dropMarkersReversed_blanks {blanks : Chars} (each : ∀ c ∈ blanks, isBlank c = true)
    (text : Chars) : dropMarkersReversed (blanks ++ text) = dropMarkersReversed text := by
  induction blanks with
  | nil => rfl
  | cons c blanks ih =>
      have blank := each c List.mem_cons_self
      have noDash : c ≠ '-' := by
        rintro rfl
        cases blank
      rw [List.cons_append, dropMarkersReversed_cons fun _ same => absurd same noDash, if_pos blank]
      exact ih fun d member => each d (List.mem_cons_of_mem c member)

/-- One return marker, and the blanks in front of it. -/
theorem takeMarkers_append_marker {gap : Chars} (blanks : ∀ c ∈ gap, isBlank c = true)
    (text : Chars) :
    takeMarkers (text ++ (gap ++ returnMarker)) =
      ((takeMarkers text).1, (takeMarkers text).2 + 1) := by
  have reversed : ∀ c ∈ gap.reverse, isBlank c = true :=
    fun c member => blanks c (List.mem_reverse.mp member)
  have marker : (text ++ (gap ++ returnMarker)).reverse =
      '-' :: '<' :: (gap.reverse ++ text.reverse) := by
    simp [returnMarker]
  simp only [takeMarkers, marker, dropMarkersReversed_marker,
    dropMarkersReversed_blanks reversed]

/-- Markers end in no blank. -/
theorem solid_append_markers {text : Chars} (solid : ∀ c ∈ text.getLast?, isBlank c = false)
    (gaps : List Chars) : ∀ c ∈ (text ++ markers gaps).getLast?, isBlank c = false := by
  induction gaps generalizing text with
  | nil => simpa [markers] using solid
  | cons gap gaps ih =>
      have marked : ∀ c ∈ (text ++ (gap ++ returnMarker)).getLast?, isBlank c = false := by
        intro c member
        simp only [returnMarker, List.getLast?_append, List.getLast?_cons_cons] at member
        cases member
        rfl
      rw [markers, List.flatMap_cons, ← List.append_assoc]
      exact ih marked

theorem flat_markers {gaps : List Chars} (blanks : ∀ gap ∈ gaps, ∀ c ∈ gap, isBlank c = true) :
    ∀ c ∈ markers gaps, isFlat c = true := by
  intro c member
  obtain ⟨gap, among, member⟩ := List.mem_flatMap.mp member
  rcases List.mem_append.mp member with member | member
  · exact isFlat_of_isBlank (blanks gap among c member)
  · exact forall_mem_of_all (p := fun c => isFlat c = true) (by decide) c member

theorem takeMarkers_append_markers {gaps : List Chars}
    (blanks : ∀ gap ∈ gaps, ∀ c ∈ gap, isBlank c = true) (text : Chars) :
    takeMarkers (text ++ markers gaps) =
      ((takeMarkers text).1, (takeMarkers text).2 + gaps.length) := by
  induction gaps generalizing text with
  | nil => simp [markers]
  | cons gap gaps ih =>
      have first := takeMarkers_append_marker (blanks gap List.mem_cons_self) text
      have others := ih (fun other member => blanks other (List.mem_cons_of_mem gap member))
        (text ++ (gap ++ returnMarker))
      rw [markers, List.flatMap_cons, ← List.append_assoc, ← markers, others, first,
        List.length_cons, Nat.add_assoc, Nat.add_comm 1]

/-- A text that ends neither in a blank nor in a return marker keeps its end. -/
structure EndsUnmarked (text : Chars) : Prop where
  solid : ∀ c ∈ text.getLast?, isBlank c = false
  unmarked : ¬ returnMarker <:+ text

namespace EndsUnmarked

variable {text : Chars} (ends : EndsUnmarked text)

include ends

theorem takeMarkers_eq : takeMarkers text = (text, 0) := by
  have solid := ends.solid
  have unmarked := ends.unmarked
  rw [← List.reverse_prefix] at unmarked
  rw [← List.head?_reverse] at solid
  suffices kept : dropMarkersReversed text.reverse = (text.reverse, 0) by
    simp only [takeMarkers, kept, List.reverse_reverse]
  generalize text.reverse = reversed at solid unmarked ⊢
  rcases reversed with _ | ⟨c, rest⟩
  · rfl
  · have other : ∀ after, c = '-' → rest = '<' :: after → False := by
      rintro after rfl rfl
      exact unmarked ⟨after, rfl⟩
    rw [dropMarkersReversed_cons other, if_neg (by simp [solid c rfl])]

/-- Return markers are taken off and counted. -/
theorem takeMarkers_append {gaps : List Chars}
    (blanks : ∀ gap ∈ gaps, ∀ c ∈ gap, isBlank c = true) :
    takeMarkers (text ++ markers gaps) = (text, gaps.length) := by
  rw [takeMarkers_append_markers blanks, ends.takeMarkers_eq, Nat.zero_add]

end EndsUnmarked

/-- What a phrase ends in is all that counts, if a blank stands in front of it. -/
theorem IsPhrase.endsUnmarked {text : Chars} (phrase : IsPhrase text)
    (unmarked : ¬ returnMarker <:+ text) (front : Chars) :
    EndsUnmarked (front ++ ' ' :: text) where
  solid c member := by
    have last : (front ++ ' ' :: text).getLast? = text.getLast? := by
      rw [← List.singleton_append, ← List.append_assoc, List.getLast?_append,
        List.getLast?_eq_some_getLast phrase.nonempty]
      rfl
    exact phrase.trimmed.last c (last ▸ member)
  unmarked := not_suffix_of_blank (by decide) unmarked front

/-! ## Tags -/

theorem leadingTag?_eq_none {text : Chars} (apart : ¬ ['[', '['] <+: text) :
    leadingTag? text = none := by
  unfold leadingTag?
  split
  · exact absurd ⟨_, rfl⟩ apart
  · rfl

/-- No tag begins in front of a character that opens none. -/
theorem findTag?_append {front : Chars} (apart : ¬ ['[', '['] <:+: front) {c : Char}
    (other : c ≠ '[') (rest : Chars) :
    findTag? (front ++ c :: rest) =
      (findTag? rest).map fun (before, inner, after) => (front ++ c :: before, inner, after) := by
  induction front with
  | nil =>
      have none : leadingTag? (c :: rest) = none :=
        leadingTag?_eq_none fun opens => other (List.cons_prefix_cons.mp opens).1.symm
      rw [List.nil_append, findTag?, none]
      rfl
  | cons d front ih =>
      have none : leadingTag? (d :: (front ++ c :: rest)) = none := by
        refine leadingTag?_eq_none fun opens => ?_
        obtain ⟨rfl, follows⟩ := List.cons_prefix_cons.mp opens
        cases front with
        | nil => exact other (List.cons_prefix_cons.mp follows).1.symm
        | cons e front =>
            obtain ⟨rfl, -⟩ := List.cons_prefix_cons.mp follows
            exact apart ⟨[], front, rfl⟩
      have others := ih fun within => apart (within.trans (List.suffix_cons d front).isInfix)
      rw [List.cons_append, findTag?, none, others, Option.map_map]
      rfl

theorem findTag?_eq_none {text : Chars} (apart : ¬ ['[', '['] <:+: text) :
    findTag? text = none := by
  induction text with
  | nil => rfl
  | cons c rest ih =>
      have none : leadingTag? (c :: rest) = none :=
        leadingTag?_eq_none fun opens => apart opens.isInfix
      rw [findTag?, none, ih fun within => apart (within.trans (List.suffix_cons c rest).isInfix)]
      rfl

theorem closeTag_cons {c : Char} {rest : Chars}
    (other : ∀ after, c = ']' → rest = ']' :: after → False) (sameLine : c ≠ '\n') :
    closeTag (c :: rest) =
      (closeTag rest).map fun (inner, after) => (c :: inner, after) := by
  conv => lhs; unfold closeTag
  split
  · rename_i empty
    cases empty
  · rename_i after closes
    obtain ⟨first, second⟩ := List.cons.inj closes
    exact (other after first second).elim
  · rename_i whole
    cases whole
    exact if_neg sameLine

theorem closeTag_append {tag : Chars} (oneLine : '\n' ∉ tag) (unclosed : ¬ [']', ']'] <:+: tag)
    (ends : tag.getLast? ≠ some ']') (after : Chars) :
    closeTag (tag ++ ']' :: ']' :: after) = some (tag, after) := by
  induction tag with
  | nil => rfl
  | cons c rest ih =>
      have closes : ∀ later, c = ']' → rest ++ ']' :: ']' :: after = ']' :: later → False := by
        rintro later rfl follows
        cases rest with
        | nil => exact ends rfl
        | cons d rest =>
            obtain ⟨rfl, -⟩ := List.cons.inj follows
            exact unclosed ⟨[], rest, rfl⟩
      have last : rest.getLast? ≠ some ']' := by
        cases rest with
        | nil => simp
        | cons d rest => simpa using ends
      have others := ih (fun member => oneLine (List.mem_cons_of_mem c member))
        (fun within => unclosed (within.trans (List.suffix_cons c rest).isInfix)) last
      have sameLine : c ≠ '\n' := fun same => oneLine (same ▸ List.mem_cons_self)
      rw [List.cons_append, closeTag_cons closes sameLine, others]
      rfl

/-- A tag is taken out of a line, and the speaker is left with a blank behind the name. -/
theorem takeTag_spoken {speaker text : Chars} {tag : Option Chars} (named : IsPhrase speaker)
    (spoken : IsPhrase text) (fits : ∀ name ∈ tag, IsTag name) :
    ∃ gap, (gap = [] ∨ gap = [' ']) ∧
      takeTag (speaker ++ (tagSource tag ++ ':' :: ' ' :: text)) =
        (speaker ++ gap ++ ':' :: ' ' :: text, (tag.map String.ofList).getD neutral) := by
  cases tag with
  | none =>
      refine ⟨[], Or.inl rfl, ?_⟩
      have none : findTag? (speaker ++ ':' :: ' ' :: text) = none := by
        have behind : findTag? ([] ++ ' ' :: text) = none := by
          rw [findTag?_append (by simp) (by decide), findTag?_eq_none spoken.untagged]
          rfl
        rw [findTag?_append named.untagged (by decide), ← List.nil_append (' ' :: text), behind]
        rfl
      rw [tagSource, List.nil_append, List.append_nil, takeTag, none]
      rfl
  | some name =>
      have writable := fits name rfl
      refine ⟨[' '], Or.inr rfl, ?_⟩
      have closes : closeTag (name ++ ']' :: ']' :: ':' :: ' ' :: text) =
          some (name, ':' :: ' ' :: text) :=
        closeTag_append writable.oneLine writable.unclosed writable.open_ _
      have found :
          findTag? (speaker ++ ' ' :: '[' :: '[' :: (name ++ ']' :: ']' :: ':' :: ' ' :: text)) =
            some (speaker ++ [' '], name, ':' :: ' ' :: text) := by
        rw [findTag?_append named.untagged (by decide), findTag?, leadingTag?, closes]
        rfl
      have source : speaker ++ (tagSource (some name) ++ ':' :: ' ' :: text) =
          speaker ++ ' ' :: '[' :: '[' :: (name ++ ']' :: ']' :: ':' :: ' ' :: text) := by
        simp [tagSource]
      simp only [takeTag, source, found, writable.trimmed.trim_eq, if_neg writable.nonempty]
      rfl

/-! ## Line feeds -/

/-- Every backslash with an `n` behind it becomes a line feed, and nothing else changes. -/
theorem replaces_unescape (text : Chars) : Replaces ['\\', 'n'] ['\n'] text (unescape text) := by
  suffices divided : ∃ first others, ['\\', 'n'].intercalate (first :: others) = text ∧
      (∀ part ∈ first :: others, ¬ ['\\', 'n'] <:+: part) ∧
      ['\n'].intercalate (first :: others) = unescape text by
    obtain ⟨first, others, whole⟩ := divided
    exact ⟨first :: others, whole⟩
  fun_induction unescape text with
  | case1 => exact ⟨[], [], rfl, by simp, rfl⟩
  | case2 rest ih =>
      obtain ⟨first, others, whole, plain, result⟩ := ih
      refine ⟨[], first :: others, ?_, ?_, ?_⟩
      · rw [List.intercalate_cons_cons, whole]
        rfl
      · exact List.forall_mem_cons.mpr ⟨by simp, plain⟩
      · rw [List.intercalate_cons_cons, result]
        rfl
  | case3 c rest other ih =>
      obtain ⟨first, others, whole, plain, result⟩ := ih
      have prepend : ∀ joint : Chars, joint.intercalate ((c :: first) :: others) =
          c :: joint.intercalate (first :: others) := by
        intro joint
        cases others with
        | nil => simp
        | cons next others => simp [List.intercalate_cons_cons]
      refine ⟨c :: first, others, ?_, ?_, ?_⟩
      · rw [prepend, whole]
      · obtain ⟨head, tail⟩ := List.forall_mem_cons.mp plain
        refine List.forall_mem_cons.mpr ⟨fun within => ?_, tail⟩
        rcases List.infix_cons_iff.mp within with opens | within
        · obtain ⟨rfl, follows⟩ := List.cons_prefix_cons.mp opens
          obtain ⟨later, rfl⟩ := follows
          cases others with
          | nil => exact other later rfl (by simpa using whole.symm)
          | cons next others =>
              rw [List.intercalate_cons_cons] at whole
              exact other _ rfl whole.symm
        · exact head within
      · rw [prepend, result]

/-! ## Reading -/

namespace Layout.IsWritable

variable {layout : Layout} (writable : layout.IsWritable)

include writable

theorem flat_spoken : ∀ c ∈ layout.spoken, isFlat c = true := by
  have tagFlat : ∀ c ∈ tagSource layout.tag, isFlat c = true := by
    intro c member
    rcases tagged : layout.tag with _ | tag
    · rw [tagged] at member
      cases member
    · have flat := (writable.tag tag tagged).flat
      simp only [tagged, tagSource, List.mem_cons, List.mem_append, List.not_mem_nil,
        or_false] at member
      rcases member with rfl | rfl | rfl | member | rfl | rfl
      · rfl
      · rfl
      · rfl
      · exact flat c member
      · rfl
      · rfl
  intro c member
  simp only [spoken, List.mem_append, List.mem_cons] at member
  rcases member with member | member | rfl | rfl | member
  · exact writable.speaker.flat c member
  · exact tagFlat c member
  · rfl
  · rfl
  · exact writable.text.flat c member

theorem spoken_ne_nil : layout.spoken ≠ [] :=
  List.append_ne_nil_of_left_ne_nil writable.speaker.nonempty _

theorem endsUnmarked_spoken : EndsUnmarked layout.spoken := by
  have whole : layout.spoken =
      (layout.speaker ++ (tagSource layout.tag ++ [':'])) ++ ' ' :: layout.text := by
    simp [spoken]
  rw [whole]
  exact writable.text.endsUnmarked writable.unmarked _

omit writable in
/-- Where a group ends the line, no marker does. -/
theorem endsUnmarked_withFinalGroup (text block : Chars) :
    EndsUnmarked (withFinalGroup text (some block)) := by
  have last : (withFinalGroup text (some block)).getLast? = some ')' := by
    rw [withFinalGroup, ← List.cons_append, ← List.cons_append, ← List.append_assoc,
      List.getLast?_concat]
  constructor
  · intro c member
    cases last.symm.trans member
    rfl
  · rintro ⟨front, same⟩
    rw [← same, List.getLast?_append] at last
    cases last

/-- Markers and the block are taken off, and every marker is counted once. -/
theorem exists_takeMarkers :
    ∃ marked inside trailing inner, takeMarkers layout.source = (marked, trailing) ∧
      takeFinalGroup marked = (inside, layout.block) ∧
      takeMarkers inside = (layout.spoken, inner) ∧
      trailing + inner = layout.inner.length + layout.outer.length := by
  have ends := writable.endsUnmarked_spoken
  have blanks := writable.gaps
  have blanksInner : ∀ gap ∈ layout.inner, ∀ c ∈ gap, isBlank c = true :=
    fun gap member => blanks gap (List.mem_append_left _ member)
  have blanksOuter : ∀ gap ∈ layout.outer, ∀ c ∈ gap, isBlank c = true :=
    fun gap member => blanks gap (List.mem_append_right _ member)
  have flat : ∀ c ∈ layout.spoken ++ markers layout.inner, isFlat c = true := fun c member =>
    (List.mem_append.mp member).elim (writable.flat_spoken c) (flat_markers blanksInner c)
  rcases grouped : layout.block with _ | block
  · have whole : layout.source = layout.spoken ++ markers (layout.inner ++ layout.outer) := by
      simp [source, grouped, withFinalGroup, markers]
    refine ⟨layout.spoken, layout.spoken, (layout.inner ++ layout.outer).length, 0, ?_, ?_,
      ends.takeMarkers_eq, ?_⟩
    · rw [whole]
      exact ends.takeMarkers_append blanks
    · have last := exists_last_of_flat writable.spoken_ne_nil writable.flat_spoken ends.solid
      have ungrouped : ∀ inner ∈ (none : Option Chars), Balanced inner := by simp
      exact takeFinalGroup_withFinalGroup (Balanced.of_flat writable.flat_spoken) last ungrouped
    · rw [List.length_append, Nat.add_zero]
  · refine ⟨withFinalGroup (layout.spoken ++ markers layout.inner) (some block),
      layout.spoken ++ markers layout.inner, layout.outer.length, layout.inner.length,
      ?_, ?_, ends.takeMarkers_append blanksInner, Nat.add_comm ..⟩
    · rw [source, grouped]
      exact (endsUnmarked_withFinalGroup _ block).takeMarkers_append blanksOuter
    · have nonempty : layout.spoken ++ markers layout.inner ≠ [] :=
        List.append_ne_nil_of_left_ne_nil writable.spoken_ne_nil _
      have last := exists_last_of_flat nonempty flat (solid_append_markers ends.solid _)
      exact takeFinalGroup_withFinalGroup (Balanced.of_flat flat) last
        fun inner same => writable.block inner (grouped.trans same)

end Layout.IsWritable

/-- A spoken line is read back from its source: its speaker, its tag or the neutral expression, its
command block and the number of its return markers, wherever they stand, and its text, in which
every backslash with an `n` behind it has become a line feed. -/
theorem reads_back_spoken_line {layout : Layout} (writable : layout.IsWritable) :
    read layout.source = .ok {
        speaker := String.ofList layout.speaker
        text := String.ofList (unescape layout.text)
        expression := (layout.tag.map String.ofList).getD neutral
        block := layout.block
        returnDepth := layout.inner.length + layout.outer.length } ∧
      Replaces ['\\', 'n'] ['\n'] layout.text (unescape layout.text) := by
  refine ⟨?_, replaces_unescape layout.text⟩
  obtain ⟨marked, inside, trailing, inner, first, block, second, count⟩ :=
    writable.exists_takeMarkers
  obtain ⟨gap, blank, plain⟩ := takeTag_spoken writable.speaker writable.text writable.tag
  have colon : ':' ∉ layout.speaker ++ gap := by
    rcases blank with rfl | rfl
    · simpa using writable.noColon
    · simpa using writable.noColon
  have speaker : trim (layout.speaker ++ gap) = layout.speaker := by
    rcases blank with rfl | rfl
    · rw [List.append_nil, writable.speaker.trimmed.trim_eq]
    · rw [trim_append_blank rfl, writable.speaker.trimmed.trim_eq]
  have text : trim (' ' :: layout.text) = layout.text := by
    rw [trim_cons_blank rfl, writable.text.trimmed.trim_eq]
  simp only [read, first, block, second]
  rw [Layout.spoken, plain]
  simp only [cutAt?_append colon, speaker, text, count]
  rw [if_neg fun empty => empty.elim writable.speaker.nonempty writable.text.nonempty]

/-- Single brackets, further colons, a marker in the middle of the text and parentheses between
quotes are no parts of their own, and markers stand on both sides of the block. -/
theorem reads_back_line_with_marks_inside :
    read ("Guard [2] [[half: [asleep]d]]: Who: [he]?\\nNo <- go. <- " ++
        "(Print(\")\"); $met = true)<-  <-").toList =
      .ok ⟨"Guard [2]", "Who: [he]?\nNo <- go.", "half: [asleep]d",
        some "Print(\")\"); $met = true".toList, 3⟩ := by
  let layout : Layout := {
    speaker := "Guard [2]".toList
    tag := some "half: [asleep]d".toList
    text := "Who: [he]?\\nNo <- go.".toList
    block := some "Print(\")\"); $met = true".toList
    inner := [[' ']]
    outer := [[], [' ', ' ']] }
  have phrase : IsPhrase layout.speaker ∧ IsPhrase layout.text :=
    ⟨⟨by decide +kernel, isTrimmed_of_trim (by decide +kernel),
        List.all_eq_true.mp (by decide +kernel), by decide +kernel⟩,
      ⟨by decide +kernel, isTrimmed_of_trim (by decide +kernel),
        List.all_eq_true.mp (by decide +kernel), by decide +kernel⟩⟩
  have tag : IsTag "half: [asleep]d".toList :=
    ⟨by decide +kernel, isTrimmed_of_trim (by decide +kernel),
      List.all_eq_true.mp (by decide +kernel), by decide +kernel, by decide +kernel,
      by decide +kernel⟩
  have blanks : (layout.inner ++ layout.outer).all (fun gap => gap.all isBlank) = true := by
    decide +kernel
  have writable : layout.IsWritable := {
    speaker := phrase.1
    noColon := by decide +kernel
    tag := by
      rintro _ ⟨⟩
      exact tag
    text := phrase.2
    unmarked := by decide +kernel
    block := by
      rintro _ ⟨⟩
      decide +kernel
    gaps := fun gap member => List.all_eq_true.mp (List.all_eq_true.mp blanks gap member) }
  have found := (reads_back_spoken_line writable).1
  have source : layout.source = ("Guard [2] [[half: [asleep]d]]: Who: [he]?\\nNo <- go. <- " ++
      "(Print(\")\"); $met = true)<-  <-").toList := by decide +kernel
  exact (congrArg read source.symm).trans (found.trans (by decide +kernel))

end Speech

end Parley.Script
