import Parley.Text.Nesting

/-!
# Groups

A text is balanced if every parenthesis in it is closed and every quote is paired.  What
is balanced can stand side by side, between quotes or between parentheses, and it can be
read at any depth.  A group is found exactly if the text up to a closing parenthesis is
balanced: the parenthesis that ends a group is the one that closes it.
-/

namespace Parley.Text

namespace Nesting

variable {nesting after : Nesting} {c : Char} {text : Chars}

/-- The same with further parentheses open around it. -/
def deeper (more : Nat) (nesting : Nesting) : Nesting :=
  { nesting with depth := nesting.depth + more }

theorem read?_eq_some_iff :
    nesting.read? c = some after ↔
      ¬ (c = ')' ∧ nesting.quoted = false ∧ nesting.depth = 0) ∧ nesting.read c = after := by
  unfold read?
  split <;> simp_all

/-- What can be read can be read deeper. -/
theorem read?_deeper (more : Nat) (reads : nesting.read? c = some after) :
    (nesting.deeper more).read? c = some (after.deeper more) := by
  obtain ⟨opened, rfl⟩ := read?_eq_some_iff.mp reads
  refine read?_eq_some_iff.mpr ⟨fun closes => opened ⟨closes.1, closes.2.1, ?_⟩, ?_⟩
  · exact Nat.eq_zero_of_add_eq_zero_right closes.2.2
  · obtain ⟨depth, quoted⟩ := nesting
    unfold read deeper
    split
    · rfl
    · split
      · rfl
      · rename_i unquoted
        split
        · exact congrArg (Nesting.mk · quoted) (Nat.add_right_comm depth more 1)
        · split
          · rename_i closing
            have positive : depth ≠ 0 := fun zero => opened ⟨closing, by simpa using unquoted, zero⟩
            exact congrArg (Nesting.mk · quoted) (by dsimp only; omega)
          · rfl

end Nesting

/-! ## Balanced texts -/

/-- Whether a character is neither a quote nor a parenthesis. -/
def isFlat (c : Char) : Bool :=
  c != '"' && c != '(' && c != ')'

theorem isFlat_iff {c : Char} : isFlat c = true ↔ c ≠ '"' ∧ c ≠ '(' ∧ c ≠ ')' := by
  simp [isFlat, and_assoc]

/-- A flat character changes nothing. -/
theorem Nesting.read_of_isFlat {c : Char} (flat : isFlat c = true) (nesting : Nesting) :
    nesting.read c = nesting := by
  obtain ⟨noQuote, noOpen, noClose⟩ := isFlat_iff.mp flat
  simp [Nesting.read, noQuote, noOpen, noClose]

theorem Nesting.readAll?_of_flat {text : Chars} (flat : ∀ c ∈ text, isFlat c = true)
    (nesting : Nesting) : nesting.readAll? text = some nesting := by
  induction text with
  | nil => rfl
  | cons c rest ih =>
      have first := flat c List.mem_cons_self
      have reads : nesting.read? c = some nesting :=
        Nesting.read?_eq_some_iff.mpr
          ⟨fun closes => (isFlat_iff.mp first).2.2 closes.1, nesting.read_of_isFlat first⟩
      rw [readAll?, reads]
      exact ih fun c member => flat c (List.mem_cons_of_mem _ member)

/-- Between quotes, everything but a quote is passed over. -/
theorem Nesting.readAll?_of_quoted {text : Chars} (closed : '"' ∉ text) (depth : Nat) :
    (Nesting.mk depth true).readAll? text = some ⟨depth, true⟩ := by
  induction text with
  | nil => rfl
  | cons c rest ih =>
      have other : c ≠ '"' := fun same => closed (same ▸ List.mem_cons_self)
      rw [readAll?, read?, if_neg (by simp), read, if_neg other, if_pos rfl]
      exact ih fun member => closed (List.mem_cons_of_mem c member)

namespace Balanced

variable {first second inner : Chars}

theorem nil : Balanced [] :=
  rfl

theorem append (balanced : Balanced first) (other : Balanced second) :
    Balanced (first ++ second) := by
  rw [Balanced, Nesting.readAll?_append, balanced]
  exact other

theorem of_flat (flat : ∀ c ∈ inner, isFlat c = true) : Balanced inner :=
  Nesting.readAll?_of_flat flat _

theorem quoted (closed : '"' ∉ inner) : Balanced ('"' :: (inner ++ ['"'])) := by
  show (Nesting.mk 0 true).readAll? (inner ++ ['"']) = some Nesting.top
  rw [Nesting.readAll?_append, Nesting.readAll?_of_quoted closed]
  rfl

theorem intercalate {joint : Chars} (between : Balanced joint) {parts : List Chars}
    (each : ∀ part ∈ parts, Balanced part) : Balanced (joint.intercalate parts) := by
  induction parts with
  | nil => exact nil
  | cons part rest ih =>
      have first := each part List.mem_cons_self
      have others := ih fun part member => each part (List.mem_cons_of_mem _ member)
      cases rest with
      | nil => simpa using first
      | cons next rest =>
          rw [List.intercalate_cons_cons]
          exact (first.append between).append others

/-- What is not balanced holds a quote or a parenthesis. -/
theorem exists_not_isFlat (unbalanced : ¬ Balanced inner) : ∃ c ∈ inner, isFlat c = false := by
  refine Classical.byContradiction fun none => unbalanced (of_flat fun c member => ?_)
  rcases flat : isFlat c with _ | _
  · exact absurd ⟨c, member, flat⟩ none
  · rfl

end Balanced

/-! ## Finding groups -/

/-- The rest of a group ends at the first parenthesis before which everything that is
opened is closed. -/
theorem closeFrom_eq_some_iff {depth : Nat} {quoted : Bool} {text inner after : Chars} :
    closeFrom ⟨depth + 1, quoted⟩ text = some (inner, after) ↔
      text = inner ++ ')' :: after ∧
        (Nesting.mk depth quoted).readAll? inner = some Nesting.top := by
  induction text generalizing depth quoted inner with
  | nil => simp [closeFrom]
  | cons c rest ih =>
      rw [closeFrom]
      split
      · rename_i ends
        obtain ⟨rfl, unquoted, shallow⟩ := ends
        obtain rfl : quoted = false := unquoted
        obtain rfl : depth = 0 := by
          have : depth + 1 ≤ 1 := shallow
          omega
        constructor
        · intro found
          cases found
          exact ⟨rfl, rfl⟩
        · rintro ⟨same, reads⟩
          cases inner with
          | nil =>
              cases same
              rfl
          | cons d inner =>
              cases same
              cases reads
      · rename_i goesOn
        have reads : (Nesting.mk depth quoted).read? c =
            some ((Nesting.mk depth quoted).read c) := by
          refine Nesting.read?_eq_some_iff.mpr ⟨fun closes => goesOn ?_, rfl⟩
          exact ⟨closes.1, closes.2.1, Nat.succ_le_succ (Nat.le_of_eq closes.2.2)⟩
        have deeper : (Nesting.mk (depth + 1) quoted).read c =
            ((Nesting.mk depth quoted).read c).deeper 1 :=
          (Nesting.read?_eq_some_iff.mp (Nesting.read?_deeper 1 reads)).2
        rw [deeper]
        constructor
        · intro found
          obtain ⟨⟨kept, behind⟩, foundRest, same⟩ := Option.map_eq_some_iff.mp found
          cases same
          obtain ⟨rfl, readsRest⟩ := ih.mp foundRest
          refine ⟨rfl, ?_⟩
          rw [Nesting.readAll?, reads]
          exact readsRest
        · rintro ⟨same, readsInner⟩
          cases inner with
          | nil =>
              cases same
              cases readsInner
              exact absurd ⟨rfl, rfl, Nat.le_refl 1⟩ goesOn
          | cons d inner =>
              cases same
              rw [Nesting.readAll?, reads] at readsInner
              exact Option.map_eq_some_iff.mpr ⟨(inner, after), ih.mpr ⟨rfl, readsInner⟩, rfl⟩

/-- A text opens with a group exactly if what follows its parenthesis is balanced up to a
closing one. -/
theorem leadingGroup?_eq_some_iff {text inner after : Chars} :
    leadingGroup? text = some (inner, after) ↔
      text = '(' :: (inner ++ ')' :: after) ∧ Balanced inner := by
  unfold leadingGroup?
  split
  · rename_i rest
    rw [closeFrom_eq_some_iff, List.cons.injEq, and_iff_right rfl]
    rfl
  · rename_i other
    constructor
    · intro found
      cases found
    · rintro ⟨rfl, -⟩
      exact absurd rfl (other _)

end Parley.Text
