import Parley.Proofs.Text.Groups
import Parley.Proofs.Text.Trimming

/-!
# Splitting at the top level

A text is split at a separator or at a word, in each case only outside quotes and
parentheses.  Splitting reads the text character by character, and it keeps a character
wherever it does not cut.  So whatever is passed over in one place can be followed
by anything: it belongs to the part that begins in front of it.  A list of texts that
are passed over is recovered from the text in which they are joined.
-/

namespace Parley.Text

/-! ## Parts -/

theorem foldr_consFirst (text part : Chars) (parts : List Chars) :
    text.foldr consFirst (part :: parts) = (text ++ part) :: parts := by
  induction text with
  | nil => rfl
  | cons c rest ih =>
      rw [List.foldr_cons, ih]
      rfl

theorem map_trim_consFirst_blank {c : Char} (blank : isBlank c = true) {parts : List Chars}
    (some : parts ≠ []) : (consFirst c parts).map trim = parts.map trim := by
  cases parts with
  | nil => exact absurd rfl some
  | cons part rest =>
      rw [consFirst, List.map_cons, trim_cons_blank blank]
      rfl

theorem consFirst_ne_nil (c : Char) (parts : List Chars) : consFirst c parts ≠ [] := by
  cases parts <;> simp [consFirst]

theorem splitFrom_ne_nil (separator : Char) (nesting : Nesting) (text : Chars) :
    splitFrom separator nesting text ≠ [] := by
  cases text with
  | nil => simp [splitFrom]
  | cons c rest =>
      rw [splitFrom]
      split
      · simp
      · exact consFirst_ne_nil _ _

theorem intercalate_consFirst (separator : Chars) (c : Char) (parts : List Chars) :
    separator.intercalate (consFirst c parts) = c :: separator.intercalate parts := by
  match parts with
  | [] => rfl
  | [part] => simp [consFirst]
  | part :: next :: rest =>
      rw [consFirst, List.intercalate_cons_cons, List.intercalate_cons_cons]
      rfl

/-- Splitting loses the separators and nothing else. -/
theorem intercalate_splitFrom (separator : Char) (nesting : Nesting) (text : Chars) :
    [separator].intercalate (splitFrom separator nesting text) = text := by
  induction text generalizing nesting with
  | nil => rfl
  | cons c rest ih =>
      rw [splitFrom]
      split
      · rename_i cut
        obtain ⟨first, others, parts⟩ :=
          List.exists_cons_of_ne_nil (splitFrom_ne_nil separator nesting rest)
        have joined := ih nesting
        rw [parts] at joined ⊢
        rw [List.intercalate_cons_cons, joined, cut.1]
        rfl
      · rw [intercalate_consFirst, ih]

/-! ## What is passed over -/

/-- Where splitting stands: whether the last character is a blank, and what is open. -/
structure Spot where
  afterBlank : Bool
  nesting : Nesting

namespace Spot

/-- The place behind a character. -/
def next (spot : Spot) (c : Char) : Spot :=
  ⟨isBlank c, spot.nesting.read c⟩

/-- A place where nothing is open. -/
def top (afterBlank : Bool) : Spot :=
  ⟨afterBlank, Nesting.top⟩

theorem next_of_isFlat {c : Char} (flat : isFlat c = true) (spot : Spot) :
    spot.next c = ⟨isBlank c, spot.nesting⟩ := by
  rw [next, Nesting.read_of_isFlat flat]

end Spot

/-- A way of splitting that cuts nowhere but at the top level. -/
structure SplitsUnnested (split : Spot → Chars → List Chars) : Prop where
  ends : ∀ spot, split spot [] = [[]]
  keeps : ∀ spot c rest, spot.nesting.isTop = false →
    split spot (c :: rest) = consFirst c (split (spot.next c) rest)

/-- From one place to another, a text belongs to the first part of whatever follows it. -/
def Passes (split : Spot → Chars → List Chars) (before : Spot) (text : Chars)
    (after : Spot) : Prop :=
  ∀ rest, split before (text ++ rest) = text.foldr consFirst (split after rest)

section Passes

variable {split : Spot → Chars → List Chars} {before middle after : Spot}
  {text first second : Chars} {c : Char}

theorem Passes.trans (passes : Passes split before first middle)
    (others : Passes split middle second after) :
    Passes split before (first ++ second) after := by
  intro rest
  rw [List.append_assoc, passes, others, List.foldr_append]

theorem Passes.single
    (kept : ∀ rest, split before (c :: rest) = consFirst c (split (before.next c) rest)) :
    Passes split before [c] (before.next c) :=
  kept

/-- What is passed over in front of a cut is a part. -/
theorem Passes.cut (passes : Passes split before text after) {rest : Chars}
    {parts : List Chars} (cuts : split after rest = [] :: parts) :
    split before (text ++ rest) = text :: parts := by
  rw [passes, cuts, foldr_consFirst, List.append_nil]

/-- What is passed over to the end is the only part. -/
theorem Passes.whole (passes : Passes split before text after)
    (splits : SplitsUnnested split) : split before text = [text] := by
  have ended := passes.cut (splits.ends after)
  rwa [List.append_nil] at ended

/-- A run of characters is passed over if each of them is. -/
theorem Passes.run {spot : Spot} (each : ∀ c ∈ text, Passes split spot [c] spot) :
    Passes split spot text spot := by
  induction text with
  | nil => exact fun _ => rfl
  | cons c rest ih =>
      have first := each c List.mem_cons_self
      exact first.trans (ih fun d member => each d (List.mem_cons_of_mem _ member))

variable (splits : SplitsUnnested split)

include splits

theorem passes_nested (afterBlank : Bool) {nesting : Nesting} (nested : nesting.isTop = false)
    (c : Char) : Passes split ⟨afterBlank, nesting⟩ [c] ⟨isBlank c, nesting.read c⟩ :=
  Passes.single fun rest => splits.keeps ⟨afterBlank, nesting⟩ c rest nested

/-- Between parentheses everything is passed over. -/
theorem passes_deeper {nesting ended : Nesting} (reads : nesting.readAll? text = some ended)
    (afterBlank : Bool) :
    ∃ blank, Passes split ⟨afterBlank, nesting.deeper 1⟩ text ⟨blank, ended.deeper 1⟩ := by
  induction text generalizing nesting afterBlank with
  | nil =>
      cases reads
      exact ⟨afterBlank, fun _ => rfl⟩
  | cons c rest ih =>
      obtain ⟨next, first, others⟩ := Option.bind_eq_some_iff.mp reads
      have nested : (nesting.deeper 1).isTop = false := by
        simp [Nesting.isTop, Nesting.deeper]
      have read := (Nesting.read?_eq_some_iff.mp (Nesting.read?_deeper 1 first)).2
      have passed := passes_nested splits afterBlank nested c
      rw [read] at passed
      obtain ⟨blank, passes⟩ := ih others (isBlank c)
      exact ⟨blank, passed.trans passes⟩

theorem passes_quoted (closed : '"' ∉ text) (afterBlank : Bool) :
    ∃ blank, Passes split ⟨afterBlank, ⟨0, true⟩⟩ text ⟨blank, ⟨0, true⟩⟩ := by
  induction text generalizing afterBlank with
  | nil => exact ⟨afterBlank, fun _ => rfl⟩
  | cons c rest ih =>
      have other : c ≠ '"' := fun same => closed (same ▸ List.mem_cons_self)
      have read : (Nesting.mk 0 true).read c = ⟨0, true⟩ := by
        rw [Nesting.read, if_neg other, if_pos rfl]
      have nested : (Nesting.mk 0 true).isTop = false := rfl
      have passed := passes_nested splits afterBlank nested c
      rw [read] at passed
      obtain ⟨blank, passes⟩ :=
        ih (fun member => closed (List.mem_cons_of_mem c member)) (isBlank c)
      exact ⟨blank, passed.trans passes⟩

/-- A quoted text is passed over if its first quote is. -/
theorem Passes.quotes {spot : Spot} (opens : Passes split spot ['"'] ⟨false, ⟨0, true⟩⟩)
    (closed : '"' ∉ text) :
    Passes split spot ('"' :: (text ++ ['"'])) (Spot.top false) := by
  obtain ⟨blank, passes⟩ := passes_quoted splits closed false
  have nested : (Nesting.mk 0 true).isTop = false := rfl
  have closes := passes_nested splits blank nested '"'
  exact opens.trans (passes.trans closes)

/-- A group is passed over if everything up to its first parenthesis is. -/
theorem Passes.group {spot : Spot} {head : Chars}
    (opens : Passes split spot (head ++ ['(']) ⟨false, ⟨1, false⟩⟩) (balanced : Balanced text) :
    Passes split spot (head ++ '(' :: (text ++ [')'])) (Spot.top false) := by
  obtain ⟨blank, passes⟩ := passes_deeper splits balanced false
  have nested : (Nesting.mk 1 false).isTop = false := rfl
  have closes := passes_nested splits blank nested ')'
  have whole := opens.trans (passes.trans closes)
  rwa [List.append_assoc] at whole

end Passes

/-! ## Joined texts -/

/-- What stands between two texts, so that splitting parts them: it cuts there, and it leaves
blanks at most to either of them. -/
def Joins (split : Spot → Chars → List Chars) (joint : Chars) : Prop :=
  ∃ tail, (∀ part, trim (part ++ tail) = trim part) ∧
    ∀ text, split (Spot.top false) (joint ++ text) =
      tail :: consFirst ' ' (split (Spot.top true) text)

/-- Joined texts are parted again if each of them is passed over. -/
theorem Joins.map_trim_intercalate {split : Spot → Chars → List Chars} {joint : Chars}
    (joins : Joins split joint) (splits : SplitsUnnested split)
    (some : ∀ spot text, split spot text ≠ []) {parts : List Chars} (nonempty : parts ≠ [])
    (each : ∀ part ∈ parts, ∀ blank, Passes split (Spot.top blank) part (Spot.top false))
    (afterBlank : Bool) :
    (split (Spot.top afterBlank) (joint.intercalate parts)).map trim = parts.map trim := by
  induction parts generalizing afterBlank with
  | nil => exact absurd rfl nonempty
  | cons part rest ih =>
      have first := each part List.mem_cons_self afterBlank
      cases rest with
      | nil =>
          rw [List.intercalate_singleton, first.whole splits]
      | cons next rest =>
          have others := ih (List.cons_ne_nil _ _)
            (fun part member => each part (List.mem_cons_of_mem _ member)) true
          obtain ⟨tail, trims, cuts⟩ := joins
          rw [List.intercalate_cons_cons, List.append_assoc, first, cuts, foldr_consFirst,
            List.map_cons, trims, map_trim_consFirst_blank (c := ' ') rfl (some _ _), others]
          rfl

/-! ## Splitting at a separator -/

section Separator

variable {separator c : Char}

/-- Splitting at a separator, as a way of splitting. -/
def splitAt (separator : Char) (spot : Spot) (text : Chars) : List Chars :=
  splitFrom separator spot.nesting text

theorem splitsUnnested_splitAt (separator : Char) : SplitsUnnested (splitAt separator) where
  ends _ := rfl
  keeps spot c rest nested := by
    rw [splitAt, splitFrom, if_neg (by simp [nested])]
    rfl

/-- Everything but the separator is passed over. -/
theorem passes_splitAt (spot : Spot) (other : c ≠ separator) :
    Passes (splitAt separator) spot [c] (spot.next c) :=
  Passes.single fun rest => by
    rw [splitAt, splitFrom, if_neg fun cuts => other cuts.1]
    rfl

theorem joins_splitAt (other : ' ' ≠ separator) : Joins (splitAt separator) [separator, ' '] := by
  refine ⟨[], fun part => by rw [List.append_nil], fun text => ?_⟩
  have cuts : splitAt separator (Spot.top false) (separator :: ' ' :: text) =
      [] :: splitAt separator (Spot.top false) (' ' :: text) := by
    rw [splitAt, splitFrom, if_pos ⟨rfl, rfl⟩]
    rfl
  refine cuts.trans (congrArg _ ?_)
  exact passes_splitAt (Spot.top false) other text

/-- A list of texts is recovered from the texts, joined by a separator and a blank. -/
theorem map_trim_splitUnnested (other : ' ' ≠ separator) {parts : List Chars}
    (nonempty : parts ≠ [])
    (each : ∀ part ∈ parts, ∀ blank,
      Passes (splitAt separator) (Spot.top blank) part (Spot.top false)) :
    (splitUnnested separator ([separator, ' '].intercalate parts)).map trim =
      parts.map trim :=
  (joins_splitAt other).map_trim_intercalate (splitsUnnested_splitAt separator)
    (fun _ _ => splitFrom_ne_nil _ _ _) nonempty each false

end Separator

/-! ## Splitting at a word -/

section Word

variable {word : Chars} {c : Char} {spot : Spot}

/-- Splitting at a word, as a way of splitting. -/
def splitAtWord (word : Chars) (spot : Spot) (text : Chars) : List Chars :=
  splitWordFrom word 0 spot.afterBlank spot.nesting text

theorem splitWordFrom_ne_nil (word : Chars) (skipping : Nat) (afterBlank : Bool)
    (nesting : Nesting) (text : Chars) :
    splitWordFrom word skipping afterBlank nesting text ≠ [] := by
  induction text generalizing skipping afterBlank nesting with
  | nil => simp [splitWordFrom]
  | cons c rest ih =>
      unfold splitWordFrom
      split
      · exact ih _ _ _
      · split
        · simp
        · exact consFirst_ne_nil _ _

theorem splitsUnnested_splitAtWord (word : Chars) : SplitsUnnested (splitAtWord word) where
  ends _ := rfl
  keeps spot c rest nested := by
    rw [splitAtWord, splitWordFrom, if_neg (by simp [nested])]
    rfl

/-- No word begins inside another one. -/
theorem passes_splitAtWord_of_solid (solid : spot.afterBlank = false) :
    Passes (splitAtWord word) spot [c] (spot.next c) :=
  Passes.single fun rest => by
    rw [splitAtWord, splitWordFrom, if_neg (by simp [solid])]
    rfl

/-- A word is read character by character. -/
theorem wordAhead_cons_cons (w : Char) (ws : Chars) (c : Char) (rest : Chars) :
    wordAhead (w :: ws) (c :: rest) = ((w == c) && wordAhead ws rest) := by
  have unfolded : (w :: ws).isPrefixOf? (c :: rest) =
      if w == c then ws.isPrefixOf? rest else none := rfl
  rw [wordAhead, unfolded]
  cases w == c <;> rfl

/-- What the word does not begin with is passed over. -/
theorem passes_splitAtWord_of_head (other : word.head? ≠ some c) (nonempty : word ≠ []) :
    Passes (splitAtWord word) spot [c] (spot.next c) :=
  Passes.single fun rest => by
    have ahead : wordAhead word (c :: rest) = false := by
      obtain ⟨w, ws, rfl⟩ := List.exists_cons_of_ne_nil nonempty
      have different : (w == c) = false := by simpa using other
      rw [wordAhead_cons_cons, different, Bool.false_and]
    rw [splitAtWord, splitWordFrom, if_neg (by simp [ahead])]
    rfl

/-- A word is not ahead of a longer one. -/
theorem wordAhead_append_eq_false {token rest : Chars} (solid : ∀ c ∈ token, isBlank c = false)
    (stop : isBlank c = false) (other : c ∉ word) :
    wordAhead word (token ++ c :: rest) = false := by
  induction token generalizing word with
  | nil =>
      cases word with
      | nil => exact stop
      | cons w ws =>
          have different : (w == c) = false := beq_false_of_ne fun same =>
            other (same ▸ List.mem_cons_self)
          rw [List.nil_append, wordAhead_cons_cons, different, Bool.false_and]
  | cons t token ih =>
      cases word with
      | nil => exact solid t List.mem_cons_self
      | cons w ws =>
          have shorter : wordAhead ws (token ++ c :: rest) = false :=
            ih (fun d member => solid d (List.mem_cons_of_mem _ member))
              fun member => other (List.mem_cons_of_mem _ member)
          rw [List.cons_append, wordAhead_cons_cons, shorter, Bool.and_false]

/-- A word does not begin where a longer one does. -/
theorem splitAtWord_append_of_longer {rest : Chars} {stop : Char}
    (solid : ∀ d ∈ c :: rest, isBlank d = false) (solidStop : isBlank stop = false)
    (other : stop ∉ word) (text : Chars) :
    splitAtWord word spot (c :: (rest ++ stop :: text)) =
      consFirst c (splitAtWord word (spot.next c) (rest ++ stop :: text)) := by
  have ahead : wordAhead word (c :: (rest ++ stop :: text)) = false := by
    rw [← List.cons_append]
    exact wordAhead_append_eq_false solid solidStop other
  rw [splitAtWord, splitWordFrom, if_neg (by simp [ahead])]
  rfl

theorem wordAhead_append_blank (blank : isBlank c = true) (word rest : Chars) :
    wordAhead word (word ++ c :: rest) = true := by
  induction word with
  | nil => exact blank
  | cons w ws ih =>
      rw [List.cons_append, wordAhead_cons_cons, beq_self_eq_true, ih]
      rfl

/-- The rest of a word that has been cut is skipped. -/
theorem splitWordFrom_skip {skipped : Chars} (flat : ∀ c ∈ skipped, isFlat c = true)
    (solid : ∀ c ∈ skipped, isBlank c = false) (nesting : Nesting) (text : Chars) :
    splitWordFrom word skipped.length false nesting (skipped ++ text) =
      splitWordFrom word 0 false nesting text := by
  induction skipped with
  | nil => rfl
  | cons c rest ih =>
      have first := flat c List.mem_cons_self
      rw [List.cons_append, List.length_cons, splitWordFrom, Nesting.read_of_isFlat first,
        solid c List.mem_cons_self]
      exact ih (fun d member => flat d (List.mem_cons_of_mem _ member))
        fun d member => solid d (List.mem_cons_of_mem _ member)

theorem joins_splitAtWord (nonempty : word ≠ []) (flat : ∀ c ∈ word, isFlat c = true)
    (solid : ∀ c ∈ word, isBlank c = false) :
    Joins (splitAtWord word) (' ' :: (word ++ [' '])) := by
  have blankPasses : ∀ blank, Passes (splitAtWord word) (Spot.top blank) [' ']
      (Spot.top true) := by
    intro blank
    refine passes_splitAtWord_of_head (fun begins => ?_) nonempty
    have first := solid ' ' (List.mem_of_mem_head? begins)
    cases first
  refine ⟨[' '], fun part => trim_append_blank rfl part, fun text => ?_⟩
  obtain ⟨w, ws, rfl⟩ := List.exists_cons_of_ne_nil nonempty
  have cuts : splitAtWord (w :: ws) (Spot.top true) ((w :: ws) ++ ' ' :: text) =
      [] :: splitAtWord (w :: ws) (Spot.top false) (' ' :: text) := by
    have ahead := wordAhead_append_blank (c := ' ') rfl (w :: ws) text
    rw [splitAtWord, List.cons_append, splitWordFrom, if_pos ⟨rfl, rfl, ahead⟩,
      Nesting.read_of_isFlat (flat w List.mem_cons_self), solid w List.mem_cons_self]
    refine congrArg _ ?_
    exact splitWordFrom_skip (fun c member => flat c (List.mem_cons_of_mem _ member))
      (fun c member => solid c (List.mem_cons_of_mem _ member)) _ _
  calc
    splitAtWord (w :: ws) (Spot.top false) (' ' :: (w :: ws ++ [' ']) ++ text)
        = splitAtWord (w :: ws) (Spot.top false) ([' '] ++ (w :: ws ++ ' ' :: text)) := by simp
    _ = [' '] :: splitAtWord (w :: ws) (Spot.top false) (' ' :: text) :=
      (blankPasses false).cut cuts
    _ = [' '] :: consFirst ' ' (splitAtWord (w :: ws) (Spot.top true) text) :=
      congrArg _ (blankPasses false text)

/-- A list of texts is recovered from the texts, joined by a word between blanks. -/
theorem map_trim_splitUnnestedWord (some : word ≠ []) (flat : ∀ c ∈ word, isFlat c = true)
    (solid : ∀ c ∈ word, isBlank c = false) {parts : List Chars} (nonempty : parts ≠ [])
    (each : ∀ part ∈ parts, ∀ blank,
      Passes (splitAtWord word) (Spot.top blank) part (Spot.top false)) :
    (splitUnnestedWord word ((' ' :: (word ++ [' '])).intercalate parts)).map trim =
      parts.map trim :=
  (joins_splitAtWord some flat solid).map_trim_intercalate (splitsUnnested_splitAtWord word)
    (fun _ _ => splitWordFrom_ne_nil _ _ _ _ _) nonempty each false

end Word

end Parley.Text
