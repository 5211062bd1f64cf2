import Parley.Compilation
import Parley.Proofs.Script.Lines

/-!
# Outlines of scripts

An outline is a script as it is meant: each line together with the lines that are one
level deeper and belong to it.  Rendering an outline writes one line after the other, each
after as many tabs as its level, and what is rendered is read back as the statements of the
outline.

Whether a line may stand at its place in an outline is a matter of what stands before it in
its block and of the block that it heads, not of indentations: those follow from the
rendering.
-/

namespace Parley.Script

open Parley.Text

/-- What a line of an outline is. -/
inductive Header where
  /-- Something said, with a number of return markers. -/
  | speech (marks : Nat)
  /-- An option, which ends the dialogue if it is terminal. -/
  | option (terminal : Bool)
  /-- The first arm of a branch. -/
  | ifArm
  /-- A further arm, with or without a condition. -/
  | elseArm (guarded : Bool)
  deriving DecidableEq, Repr

/-- A block of lines.  Each line heads a block one level deeper. -/
inductive Outline where
  | done
  | item (header : Header) (content : Chars) (body rest : Outline)
  deriving DecidableEq, Repr

namespace Header

/-- The construct that a line of an outline holds. -/
def construct : Header → Construct
  | speech _ => .speech
  | option _ => .option
  | ifArm => .ifArm
  | elseArm _ => .elseArm

/-- Whether the block that a line heads is an arm of a branch. -/
def isArm : Header → Bool
  | speech _ | option _ => false
  | ifArm | elseArm _ => true

/-- How many options a line adds around the block that it heads. -/
def options : Header → Nat
  | option _ => 1
  | speech _ | ifArm | elseArm _ => 0

/-- Which blocks a line may head: an arm is never empty, and only an arm or an option that
is not terminal has a body. -/
def Heads (header : Header) (body : Outline) : Prop :=
  match header with
  | speech _ => body = .done
  | option terminal => terminal = true → body = .done
  | ifArm | elseArm _ => body ≠ .done

/-- A text can be read as an arm line, with or without a condition. -/
def ReadsArm (scope : Scope) (content : Chars) (guarded : Bool) : Prop :=
  ∃ source, ArmLine.read content = .ok source ∧ source.isSome = guarded ∧
    ∃ conditions, Draft.readGuard scope source = .ok conditions

/-- A text is what a line of an outline says it is, and its conditions and commands can be
read. -/
def Reads (scope : Scope) (content : Chars) : Header → Prop
  | speech marks => ∃ speech, Speech.read content = .ok speech ∧ speech.returnDepth = marks ∧
      ∃ commands, Draft.readBlock scope speech.block = .ok commands
  | option terminal => ∃ option, OptionLine.read content = .ok option ∧
      option.terminal = terminal ∧
      (∃ commands, Draft.readBlock scope option.block = .ok commands) ∧
      ∃ conditions, Draft.readGuard scope option.condition = .ok conditions
  | ifArm => ReadsArm scope content true
  | elseArm guarded => ReadsArm scope content guarded

end Header

/-- What stands before a line in its block. -/
inductive Place where
  /-- Nothing: the line is the first. -/
  | opening
  /-- A line without return markers. -/
  | line
  /-- A line with return markers. -/
  | marked
  /-- An option and its body.  `overhang` levels of options are still open, its own included;
  `unended` says that the innermost came last and may still get a body. -/
  | option (overhang : Nat) (unended : Bool)
  /-- An arm with a condition; the block begins with its branch if that is `lone`. -/
  | arm (lone : Bool)
  /-- An arm without condition.  Options at its end are still open as behind an option. -/
  | otherwise (overhang : Nat) (unended : Bool)
  /-- An arm without condition that ends in a return-marked line, of a branch with which the
  block begins. -/
  | spent
  deriving DecidableEq, Repr

namespace Place

/-- How many levels of options are still open. -/
def overhang : Place → Nat
  | option overhang _ | otherwise overhang _ => overhang
  | opening | line | marked | arm _ | spent => 0

/-- Whether an option came last and may still get a body.  Where a body opens, it is the
option of that body. -/
def unended : Place → Bool
  | opening => true
  | option _ unended | otherwise _ unended => unended
  | line | marked | arm _ | spent => false

/-- The overhang of a block as seen from the level of the branch that it belongs to. -/
def lift (overhang : Nat) : Nat :=
  if overhang = 0 then 0 else overhang + 1

/-- The place behind a line and the block that it heads, which ends at a place of its own.  An
arm with a condition is completed, which leaves the options in it. -/
def after (place : Place) (header : Header) (inner : Place) : Place :=
  match header with
  | .speech marks => if marks = 0 then line else marked
  | .option true => option 0 false
  | .option false => option (inner.overhang + 1) inner.unended
  | .ifArm => arm (place = opening)
  | .elseArm true => place
  | .elseArm false =>
      if place = arm true ∧ inner = marked then spent
      else otherwise (lift inner.overhang) inner.unended

/-- The lines that may follow at a place: at the beginning of a block, unless that is an arm,
a branch may stand without a line of its own; options follow a line or each other; and a
return-marked line, with at most as many marks as there are options around it, is the last. -/
def Admits (inArm : Bool) (enclosing : Nat) (place : Place) : Header → Prop
  | .speech marks => place ≠ marked ∧ marks ≤ enclosing
  | .option _ => place = line ∨ ∃ overhang unended, place = option overhang unended
  | .ifArm => place = line ∨ place = opening ∧ inArm = false
  | .elseArm _ => ∃ lone, place = arm lone

/-- A line that follows an option is near what is open: it stands in an arm, or at most one
level above the innermost option that is still open. -/
def Near (inArm : Bool) (place : Place) : Header → Prop
  | .speech _ =>
      match place with
      | option overhang _ => inArm = true ∨ overhang ≤ 2
      | opening | line | marked | arm _ | otherwise _ _ | spent => True
  | .option _ | .ifArm | .elseArm _ => True

/-- Two arrangements are not steady: a line behind the arm without condition of a branch that
begins the block, where the arm ends in a return-marked line; and a terminal option behind an
option that may still get a body. -/
def Steady (place : Place) : Header → Prop
  | .speech _ => place ≠ spent
  | .option terminal => terminal = true → place.unended = false
  | .ifArm | .elseArm _ => True

end Place

namespace Outline

/-- The place at the end of a block. -/
def last : Place → Outline → Place
  | place, done => place
  | place, item header _ body rest => rest.last (place.after header (body.last .opening))

/-- A block is properly nested: each line may stand at its place and heads a block that is
properly nested. -/
def WellNested : Bool → Nat → Place → Outline → Prop
  | _, _, _, done => True
  | inArm, enclosing, place, item header _ body rest =>
      place.Admits inArm enclosing header ∧ header.Heads body ∧
        body.WellNested header.isArm (enclosing + header.options) .opening ∧
        rest.WellNested inArm enclosing (place.after header (body.last .opening))

/-- A rule, which may depend on whether the block is an arm, holds at every line of a block and of
the blocks in it. -/
def Everywhere (rule : Bool → Place → Header → Prop) : Bool → Place → Outline → Prop
  | _, _, done => True
  | inArm, place, item header _ body rest =>
      rule inArm place header ∧ body.Everywhere rule header.isArm .opening ∧
        rest.Everywhere rule inArm (place.after header (body.last .opening))

/-- A text that fills a line: it is not blank, blanks neither begin nor end it, and no part of it
is a comment. -/
structure FillsLine (content : Chars) : Prop where
  solid : content ≠ []
  trimmed : trim content = content
  uncommented : Statement.dropComment content = content

/-- Every line of a block is read as what it is. -/
def Reads (scope : Scope) : Outline → Prop
  | done => True
  | item header content body rest =>
      FillsLine content ∧ Construct.ofContent content = header.construct ∧
        header.Reads scope content ∧ body.Reads scope ∧ rest.Reads scope

/-- A text after as many tabs as its level. -/
def indented (level : Nat) (content : Chars) : Chars :=
  List.replicate level '\t' ++ content

/-- The lines of a block at a level. -/
def render : Nat → Outline → List Chars
  | _, done => []
  | level, item _ content body rest =>
      indented level content :: (body.render (level + 1) ++ rest.render level)

end Outline

/-- A titled block. -/
structure Dialogue where
  title : Chars
  block : Outline
  deriving DecidableEq, Repr

namespace Dialogue

/-- A dialogue whose title and lines are read as what they are, and whose block is properly nested
and not empty. -/
structure Proper (scope : Scope) (dialogue : Dialogue) : Prop where
  titled : Outline.FillsLine dialogue.title
  begun : dialogue.block ≠ .done
  nested : dialogue.block.WellNested false 0 .opening
  reads : dialogue.block.Reads scope

/-- Every line of a dialogue is near enough to what is open. -/
def Near (dialogue : Dialogue) : Prop :=
  dialogue.block.Everywhere Place.Near false .opening

/-- Every line of a dialogue stands at a steady place. -/
def Steady (dialogue : Dialogue) : Prop :=
  dialogue.block.Everywhere (fun _ => Place.Steady) false .opening

/-- The line that declares a dialogue. -/
def declaration (dialogue : Dialogue) : Chars :=
  '-' :: ' ' :: dialogue.title

/-- The lines of a dialogue. -/
def render (dialogue : Dialogue) : List Chars :=
  dialogue.declaration :: dialogue.block.render 0

/-- The script of a list of dialogues. -/
def script (dialogues : List Dialogue) : List String :=
  (dialogues.flatMap render).map String.ofList

end Dialogue

/-! ## Decisions -/

instance decidableExistsOk {ε α : Type} (outcome : Except ε α) :
    Decidable (∃ result, outcome = .ok result) :=
  match outcome with
  | .ok result => isTrue ⟨result, rfl⟩
  | .error _ => isFalse (by simp)

instance decidableExistsOkAnd {ε α : Type} (outcome : Except ε α) (property : α → Prop)
    [DecidablePred property] : Decidable (∃ result, outcome = .ok result ∧ property result) :=
  match outcome with
  | .ok result => decidable_of_iff (property result) (by simp)
  | .error _ => isFalse (by simp)

instance Header.decidableReads (scope : Scope) (content : Chars) :
    (header : Header) → Decidable (header.Reads scope content)
  | .speech _ => inferInstanceAs (Decidable (∃ speech, _ = Except.ok speech ∧ _))
  | .option _ => inferInstanceAs (Decidable (∃ option, _ = Except.ok option ∧ _))
  | .ifArm | .elseArm _ => inferInstanceAs (Decidable (∃ source, _ = Except.ok source ∧ _))

instance Header.decidableHeads (body : Outline) :
    (header : Header) → Decidable (header.Heads body)
  | .speech _ => inferInstanceAs (Decidable (body = .done))
  | .option terminal => inferInstanceAs (Decidable (terminal = true → body = .done))
  | .ifArm | .elseArm _ => inferInstanceAs (Decidable (body ≠ .done))

instance Place.decidableIsOption (place : Place) :
    Decidable (∃ overhang unended, place = option overhang unended) :=
  match place with
  | option overhang unended => isTrue ⟨overhang, unended, rfl⟩
  | opening | line | marked | arm _ | otherwise _ _ | spent => isFalse (by simp)

instance Place.decidableIsArm (place : Place) : Decidable (∃ lone, place = arm lone) :=
  match place with
  | arm lone => isTrue ⟨lone, rfl⟩
  | opening | line | marked | option _ _ | otherwise _ _ | spent => isFalse (by simp)

instance Place.decidableAdmits (inArm : Bool) (enclosing : Nat) (place : Place) :
    (header : Header) → Decidable (place.Admits inArm enclosing header)
  | .speech marks => inferInstanceAs (Decidable (place ≠ marked ∧ marks ≤ enclosing))
  | .option _ => inferInstanceAs
      (Decidable (place = line ∨ ∃ overhang unended, place = option overhang unended))
  | .ifArm => inferInstanceAs (Decidable (place = line ∨ place = opening ∧ inArm = false))
  | .elseArm _ => inferInstanceAs (Decidable (∃ lone, place = arm lone))

instance Place.decidableNear (inArm : Bool) (place : Place) :
    (header : Header) → Decidable (place.Near inArm header)
  | .speech _ =>
      match place with
      | option overhang _ => inferInstanceAs (Decidable (inArm = true ∨ overhang ≤ 2))
      | opening | line | marked | arm _ | otherwise _ _ | spent => isTrue trivial
  | .option _ | .ifArm | .elseArm _ => isTrue trivial

instance Place.decidableSteady (place : Place) :
    (header : Header) → Decidable (place.Steady header)
  | .speech _ => inferInstanceAs (Decidable (place ≠ spent))
  | .option terminal => inferInstanceAs (Decidable (terminal = true → place.unended = false))
  | .ifArm | .elseArm _ => isTrue trivial

namespace Outline

instance decidableWellNested : (inArm : Bool) → (enclosing : Nat) → (place : Place) →
    (outline : Outline) → Decidable (outline.WellNested inArm enclosing place)
  | _, _, _, done => isTrue trivial
  | inArm, enclosing, place, item header _ body rest =>
      have := decidableWellNested header.isArm (enclosing + header.options) .opening body
      have := decidableWellNested inArm enclosing (place.after header (body.last .opening)) rest
      inferInstanceAs (Decidable (_ ∧ _ ∧ _ ∧ _))

instance decidableEverywhere (rule : Bool → Place → Header → Prop)
    [decides : ∀ inArm place header, Decidable (rule inArm place header)] :
    (inArm : Bool) → (place : Place) → (outline : Outline) →
      Decidable (outline.Everywhere rule inArm place)
  | _, _, done => isTrue trivial
  | inArm, place, item header _ body rest =>
      have := decides inArm place header
      have := decidableEverywhere rule header.isArm .opening body
      have := decidableEverywhere rule inArm (place.after header (body.last .opening)) rest
      inferInstanceAs (Decidable (_ ∧ _ ∧ _))

instance decidableFillsLine (content : Chars) : Decidable (FillsLine content) :=
  decidable_of_iff (content ≠ [] ∧ trim content = content ∧
      Statement.dropComment content = content)
    ⟨fun ⟨solid, trimmed, uncommented⟩ => ⟨solid, trimmed, uncommented⟩,
      fun fills => ⟨fills.solid, fills.trimmed, fills.uncommented⟩⟩

instance decidableReads (scope : Scope) : (outline : Outline) → Decidable (outline.Reads scope)
  | done => isTrue trivial
  | item _ _ body rest =>
      have := decidableReads scope body
      have := decidableReads scope rest
      inferInstanceAs (Decidable (_ ∧ _ ∧ _ ∧ _ ∧ _))

end Outline

namespace Dialogue

instance decidableProper (scope : Scope) (dialogue : Dialogue) :
    Decidable (dialogue.Proper scope) :=
  decidable_of_iff (Outline.FillsLine dialogue.title ∧ dialogue.block ≠ .done ∧
      dialogue.block.WellNested false 0 .opening ∧ dialogue.block.Reads scope)
    ⟨fun ⟨titled, begun, nested, reads⟩ => ⟨titled, begun, nested, reads⟩,
      fun proper => ⟨proper.titled, proper.begun, proper.nested, proper.reads⟩⟩

instance decidableNear (dialogue : Dialogue) : Decidable dialogue.Near :=
  inferInstanceAs (Decidable (Outline.Everywhere _ _ _ _))

instance decidableSteady (dialogue : Dialogue) : Decidable dialogue.Steady :=
  inferInstanceAs (Decidable (Outline.Everywhere _ _ _ _))

end Dialogue

/-! ## Reading what is rendered -/

namespace Statement

theorem dropComment_indented (level : Nat) (content : Chars) :
    dropComment (Outline.indented level content) =
      Outline.indented level (dropComment content) := by
  induction level with
  | zero => rfl
  | succ level ih =>
      have apart : ¬('\t' = '/' ∧ (Outline.indented level content).head? = some '/') := by
        rintro ⟨slash, -⟩
        exact absurd slash (by decide)
      show dropComment ('\t' :: Outline.indented level content) = _
      rw [dropComment, if_neg apart, ih]
      rfl

/-- A text that fills its line does not begin with a tab. -/
theorem dropWhile_isTab_of_fillsLine {content : Chars} (fills : Outline.FillsLine content) :
    content.dropWhile isTab = content ∧ content.takeWhile isTab = [] := by
  rcases content with _ | ⟨first, rest⟩
  · exact absurd rfl fills.solid
  · have solid : isTab first = false := by
      rcases tab : isTab first with _ | _
      · rfl
      · have same : first = '\t' := by simpa [isTab] using tab
        have notBlank := (isTrimmed_of_trim fills.trimmed).head first rfl
        rw [same] at notBlank
        exact absurd notBlank (by decide)
    simp [solid]

/-- An indented text that fills its line is read back. -/
theorem read?_indented (number level : Nat) {content : Chars} (fills : Outline.FillsLine content) :
    read? number (Outline.indented level content) =
      some ⟨number, level, content, Construct.ofContent content⟩ := by
  obtain ⟨dropped, taken⟩ := dropWhile_isTab_of_fillsLine fills
  have tabs : ∀ c ∈ List.replicate level '\t', isTab c = true := by
    intro c member
    rw [List.eq_of_mem_replicate member]
    rfl
  have kept : (Outline.indented level content).dropWhile isTab = content :=
    (List.dropWhile_append_of_pos tabs).trans dropped
  have cut : (Outline.indented level content).takeWhile isTab = List.replicate level '\t' := by
    rw [Outline.indented, List.takeWhile_append_of_pos tabs, taken, List.append_nil]
  unfold read?
  rw [dropComment_indented, fills.uncommented]
  simp only [kept, cut, fills.trimmed, if_neg fills.solid, List.length_replicate]

/-- The first line of a rendered block is read as the first statement. -/
theorem allFrom_cons_indented (number level : Nat) {content : Chars} (rest : List Chars)
    (fills : Outline.FillsLine content)
    (undeclared : Declaration.read? (Outline.indented level content) = none) :
    allFrom number (Outline.indented level content :: rest) =
      ⟨number, level, content, Construct.ofContent content⟩ :: allFrom (number + 1) rest := by
  rw [allFrom, readUndeclared?, undeclared, read?_indented number level fills]
  rfl

end Statement

namespace Dialogue

variable {dialogue : Dialogue}

/-- The title of a declaration is read back. -/
theorem trim_declaration (titled : Outline.FillsLine dialogue.title) :
    trim (dialogue.declaration.drop 1) = dialogue.title := by
  have blank : trimStart (' ' :: dialogue.title) = trimStart dialogue.title :=
    List.dropWhile_cons_of_pos (by decide)
  calc
    trim (' ' :: dialogue.title) = trimEnd (trimStart dialogue.title) := by rw [trim, blank]
    _ = dialogue.title := titled.trimmed

/-- A declaration fills its line if the title does. -/
theorem fillsLine_declaration (titled : Outline.FillsLine dialogue.title) :
    Outline.FillsLine dialogue.declaration where
  solid := List.cons_ne_nil _ _
  trimmed := by
    have start : trimStart dialogue.declaration = dialogue.declaration :=
      List.dropWhile_cons_of_neg (by decide)
    rw [trim, start]
    have kept := trimEnd_of_trim titled.trimmed
    have solid : trimEnd dialogue.title ≠ [] := by rw [kept]; exact titled.solid
    exact (trimEnd_append_of_solid solid ['-', ' ']).trans (congrArg _ kept)
  uncommented := by
    rw [declaration, Statement.dropComment, if_neg (by simp), Statement.dropComment,
      if_neg (by simp), titled.uncommented]

/-- A title declares no variable. -/
theorem read?_declaration (titled : Outline.FillsLine dialogue.title) :
    Declaration.read? dialogue.declaration = none := by
  rw [Declaration.read?, trimEnd_of_trim (fillsLine_declaration titled).trimmed]
  rfl

/-- The first line of a dialogue is read as the statement that begins it. -/
theorem allFrom_render (number : Nat) (titled : Outline.FillsLine dialogue.title) :
    Statement.allFrom number dialogue.render =
      ⟨number, 0, dialogue.declaration, .dialogue⟩ ::
        Statement.allFrom (number + 1) (dialogue.block.render 0) :=
  Statement.allFrom_cons_indented number 0 _ (fillsLine_declaration titled)
    (read?_declaration titled)

end Dialogue

end Parley.Script
