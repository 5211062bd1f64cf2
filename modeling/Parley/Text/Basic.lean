/-!
# Characters, blanks and trimming

Scripts are scanned as lists of characters.  A blank is a character with the
Unicode property White_Space; trimming removes blanks from the ends of a text
and nothing else.  The other functions take a fixed text off one end or cut at
the first occurrence of a character.
-/

namespace Parley.Text

/-- A text while it is scanned. -/
abbrev Chars := List Char

/-- The characters with the Unicode property White_Space. -/
def isBlank (c : Char) : Bool :=
  let code := c.toNat
  (9 ≤ code && code ≤ 13) || code == 0x20 || code == 0x85 || code == 0xA0 ||
    code == 0x1680 || (0x2000 ≤ code && code ≤ 0x200A) || code == 0x2028 ||
    code == 0x2029 || code == 0x202F || code == 0x205F || code == 0x3000

/-- Remove the blanks at the start. -/
def trimStart (text : Chars) : Chars :=
  text.dropWhile isBlank

/-- Remove the blanks at the end. -/
def trimEnd (text : Chars) : Chars :=
  (text.reverse.dropWhile isBlank).reverse

/-- Remove the blanks at both ends. -/
def trim (text : Chars) : Chars :=
  trimEnd (trimStart text)

@[simp]
theorem trimStart_nil : trimStart [] = [] :=
  rfl

@[simp]
theorem trimEnd_nil : trimEnd [] = [] :=
  rfl

@[simp]
theorem trim_nil : trim [] = [] :=
  rfl

/-- A trailing blank does not survive trimming at the end. -/
theorem trimEnd_append_blank (text : Chars) {c : Char} (blank : isBlank c = true) :
    trimEnd (text ++ [c]) = trimEnd text := by
  simp [trimEnd, blank]

/-- A text that ends in another character is kept as it is. -/
theorem trimEnd_append_of_not_blank (text : Chars) {c : Char} (solid : isBlank c = false) :
    trimEnd (text ++ [c]) = text ++ [c] := by
  simp [trimEnd, solid]

/-- Cut at the first occurrence of `mark`, which belongs to neither part. -/
def cutAt? (mark : Char) : Chars → Option (Chars × Chars)
  | [] => none
  | c :: rest =>
      if c = mark then some ([], rest)
      else (cutAt? mark rest).map fun (before, after) => (c :: before, after)

/-- A cut loses the mark and nothing else, and the mark is the first one. -/
theorem eq_of_cutAt? {mark : Char} {text before after : Chars}
    (found : cutAt? mark text = some (before, after)) :
    text = before ++ mark :: after ∧ mark ∉ before := by
  induction text generalizing before with
  | nil => simp [cutAt?] at found
  | cons c rest ih =>
      simp only [cutAt?] at found
      split at found
      · rename_i same
        cases found
        exact ⟨by simp [same], by simp⟩
      · rename_i different
        obtain ⟨⟨before', after'⟩, inner, equal⟩ := Option.map_eq_some_iff.1 found
        cases equal
        obtain ⟨split, absent⟩ := ih inner
        refine ⟨by simp [split], fun member => ?_⟩
        rcases List.mem_cons.1 member with same | member
        · exact different same.symm
        · exact absent member

/-- A text is cut where the mark stands for the first time. -/
theorem cutAt?_append {mark : Char} {before : Chars} (absent : mark ∉ before) (after : Chars) :
    cutAt? mark (before ++ mark :: after) = some (before, after) := by
  induction before with
  | nil => simp [cutAt?]
  | cons c rest ih =>
      have other : c ≠ mark := fun same => absent (same ▸ List.mem_cons_self)
      simp [cutAt?, other, ih fun member => absent (List.mem_cons_of_mem c member)]

/-- Remove `tail` from the end of a text that ends in it. -/
def dropEnd? (tail text : Chars) : Option Chars :=
  tail.isSuffixOf? text

/-- Remove every repetition of `head` from the start.  A text of `n` characters
has at most `n` of them. -/
def dropRepeated (head text : Chars) : Chars :=
  go text.length text
where
  go : Nat → Chars → Chars
    | 0, rest => rest
    | fuel + 1, rest =>
        match head.isPrefixOf? rest with
        | some shorter => go fuel shorter
        | none => rest

end Parley.Text
