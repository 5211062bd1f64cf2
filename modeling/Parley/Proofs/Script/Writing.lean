import Parley.Proofs.Number.Integer
import Parley.Proofs.Script.CallSyntax
import Parley.Proofs.Text.Splitting
import Parley.Proofs.Value.Literal

/-!
# Written calls

A call is written with its name in front of its arguments, or between the two of them where its
name is an operator.  Texts are written between quotes, so that what separates calls and arguments
can stand in them.

The three ways of splitting that reading a list involves have the same needs.  Each of them has to
pass over blanks, quotes, names in front of parentheses and tokens; then it passes over every
operand and over every call.
-/

namespace Parley

open Parley.Text Parley.Script

/-! ## Sources -/

/-- The source of a value. -/
def Value.source : Value → Chars
  | .integer number => Number.integerText number.toInt
  | .float number => floatText number
  | .boolean verdict => if verdict then "true".toList else "false".toList
  | .text content => '"' :: (content.toList ++ ['"'])

/-- The source of an argument. -/
def Argument.source : Argument → Chars
  | .literal value => value.source
  | .reference name => '$' :: name.toList

namespace Call

/-- The source of the arguments between parentheses. -/
def argumentSource (arguments : List Argument) : Chars :=
  [',', ' '].intercalate (arguments.map Argument.source)

/-- The source of a call: an operator stands between its operands. -/
def source (call : Call) : Chars :=
  match call.arguments with
  | [left, right] =>
      if call.name ∈ Command.assignName :: CallSyntax.operators then
        left.source ++ ' ' :: (call.name.toList ++ ' ' :: right.source)
      else call.name.toList ++ '(' :: (argumentSource [left, right] ++ [')'])
  | arguments => call.name.toList ++ '(' :: (argumentSource arguments ++ [')'])

/-- The source of a command block. -/
def commandSource (calls : List Call) : Chars :=
  [';', ' '].intercalate (calls.map source)

/-- The source of a condition. -/
def conditionSource (conditions : List Call) : Chars :=
  (' ' :: (Scope.andWord ++ [' '])).intercalate (conditions.map source)

end Call

/-! ## What can be written -/

/-- A name of word characters. -/
def IsName (name : String) : Prop :=
  name.toList ≠ [] ∧ ∀ c ∈ name.toList, isWord c = true

instance (name : String) : Decidable (IsName name) :=
  decidable_of_iff (name.toList ≠ [] ∧ name.toList.all isWord = true) (by simp [IsName])

/-- A value that has a source: a text of one line without quotes, or no text and no
floating-point number. -/
def Value.IsWritable : Value → Prop
  | .integer _ | .boolean _ => True
  | .float _ => False
  | .text content => '"' ∉ content.toList ∧ '\n' ∉ content.toList

instance : (value : Value) → Decidable value.IsWritable
  | .integer _ | .boolean _ => isTrue trivial
  | .float _ => isFalse id
  | .text _ => inferInstanceAs (Decidable (_ ∧ _))

/-- An argument that has a source. -/
def Argument.IsWritable : Argument → Prop
  | .literal value => value.IsWritable
  | .reference name => IsName name

instance : (argument : Argument) → Decidable argument.IsWritable
  | .literal value => inferInstanceAs (Decidable value.IsWritable)
  | .reference name => inferInstanceAs (Decidable (IsName name))

namespace Call

/-- A call of a name with any arguments. -/
structure IsApplication (call : Call) : Prop where
  named : IsName call.name
  writable : ∀ argument ∈ call.arguments, argument.IsWritable

/-- An assignment or a call of a name. -/
inductive IsCommand : Call → Prop
  | assignment {target : String} {argument : Argument} (named : IsName target)
      (writable : argument.IsWritable) :
      IsCommand ⟨Command.assignName, [.reference target, argument]⟩
  | application {call : Call} (applies : call.IsApplication) : IsCommand call

/-- A comparison or a call of a name. -/
inductive IsCondition : Call → Prop
  | comparison {operator : String} {left right : Argument}
      (compares : operator ∈ CallSyntax.operators) (writableLeft : left.IsWritable)
      (writableRight : right.IsWritable) : IsCondition ⟨operator, [left, right]⟩
  | application {call : Call} (applies : call.IsApplication) : IsCondition call

/-- No operator is a name. -/
theorem IsApplication.source_eq {call : Call} (applies : call.IsApplication) :
    call.source = call.name.toList ++ '(' :: (argumentSource call.arguments ++ [')']) := by
  obtain ⟨name, arguments⟩ := call
  have other : name ∉ Command.assignName :: CallSyntax.operators := by
    intro member
    have marked : ∀ operator ∈ Command.assignName :: CallSyntax.operators,
        operator.toList.all isWord = false := by
      decide +kernel
    have words := List.all_eq_true.mpr applies.named.2
    rw [marked name member] at words
    cases words
  unfold source
  split
  · rename_i same
    rw [if_neg other, show arguments = _ from same]
  · rfl

end Call

/-! ## Values and arguments -/

section Operands

open CallSyntax (IsOperand)

variable {value : Value} {argument : Argument}

theorem Value.isOperand_source (writable : value.IsWritable) : IsOperand value.source := by
  match value, writable with
  | .integer number, _ =>
      refine .bare (Number.integerText_ne_nil _) (fun c member => ?_) (fun c member => ?_)
      · rcases Number.mem_integerText member with rfl | digit
        · rfl
        · exact isBlank_eq_false_of_isDigit digit
      · rcases Number.mem_integerText member with rfl | digit
        · decide
        · exact not_mem_separators_of_isDigit digit
  | .boolean verdict, _ =>
      cases verdict <;>
        exact .bare (by decide) (forall_mem_of_all (by decide)) (forall_mem_of_all (by decide))
  | .text _, writable => exact .quoted writable.1 writable.2

theorem Argument.isOperand_source (writable : argument.IsWritable) :
    IsOperand argument.source := by
  match argument, writable with
  | .literal _, writable => exact Value.isOperand_source writable
  | .reference name, named =>
      refine .bare (List.cons_ne_nil _ _) (fun c member => ?_) (fun c member => ?_)
      · rcases List.mem_cons.mp member with rfl | member
        · rfl
        · exact isBlank_eq_false_of_isWord (named.2 c member)
      · rcases List.mem_cons.mp member with rfl | member
        · decide
        · exact not_mem_separators_of_isWord (named.2 c member)

/-- No value begins as a variable or as the word between conditions. -/
theorem Value.head_source (writable : value.IsWritable) :
    ∀ c ∈ value.source.head?, c ∉ '$' :: Scope.andWord := by
  intro c begins
  match value, writable with
  | .integer number, _ =>
      have letters : ∀ d ∈ '$' :: Scope.andWord, d ≠ '-' ∧ d.isDigit = false :=
        forall_mem_of_all (by decide)
      intro member
      obtain ⟨noMinus, noDigit⟩ := letters c member
      rcases Number.mem_integerText (List.mem_of_mem_head? begins) with minus | digit
      · exact noMinus minus
      · rw [noDigit] at digit
        cases digit
  | .boolean verdict, _ => cases verdict <;> cases begins <;> decide
  | .text _, _ =>
      cases begins
      decide

theorem Argument.head_source (writable : argument.IsWritable) :
    ∀ c ∈ argument.source.head?, c ∉ Scope.andWord := by
  intro c begins
  match argument, writable with
  | .literal _, writable =>
      exact fun member => Value.head_source writable c begins (List.mem_cons_of_mem _ member)
  | .reference _, _ =>
      cases begins
      decide

theorem Value.read_source (writable : value.IsWritable) : Literal.read value.source = value := by
  have trimmed := (Value.isOperand_source writable).isTrimmed.trim_eq
  match value, writable with
  | .integer number, _ =>
      have read : Number.readInt64? (Value.source (.integer number)) = some number :=
        Number.readInt64?_integerText number
      simp only [Literal.read, trimmed, read]
  | .boolean verdict, _ => cases verdict <;> decide +kernel
  | .text content, _ => rw [Value.source, Literal.read_quoted, String.ofList_toList]

end Operands

/-! ## What is passed over -/

namespace Script

/-- A run of characters that opens nothing, separates nothing and does not begin as the word
between conditions does. -/
structure IsToken (text : Chars) : Prop where
  nonempty : text ≠ []
  solid : ∀ c ∈ text, isBlank c = false
  plain : ∀ c ∈ text, isFlat c = true ∧ c ≠ ',' ∧ c ≠ ';'
  head : ∀ c ∈ text.head?, c ∉ Scope.andWord

/-- A way of splitting that passes over what calls are made of. -/
structure PassesCalls (split : Spot → Chars → List Chars) : Prop where
  splits : SplitsUnnested split
  blank : ∀ before, Passes split (Spot.top before) [' '] (Spot.top true)
  quote : ∀ before, Passes split (Spot.top before) ['"'] ⟨false, ⟨0, true⟩⟩
  token : ∀ {text}, IsToken text → ∀ before,
    Passes split (Spot.top before) text (Spot.top false)
  name : ∀ {name}, IsName name → ∀ before,
    Passes split (Spot.top before) (name.toList ++ ['(']) ⟨false, ⟨1, false⟩⟩

section Splits

theorem next_top {c : Char} (solid : isBlank c = false) (flat : isFlat c = true)
    (before : Bool) : (Spot.top before).next c = Spot.top false := by
  rw [Spot.next_of_isFlat flat, solid]
  rfl

/-- Semicolons and commas part calls and arguments and nothing within them. -/
theorem passesCalls_splitAt {separator : Char} (separates : separator ∈ [',', ';']) :
    PassesCalls (splitAt separator) := by
  have other : ∀ mark ∈ [' ', '"', '('], mark ≠ separator := by
    rintro mark member rfl
    have apart : ∀ mark ∈ [',', ';'], mark ∉ [' ', '"', '('] := by simp
    exact apart mark separates member
  have run : ∀ text : Chars, text ≠ [] →
      (∀ c ∈ text, isBlank c = false ∧ isFlat c = true ∧ c ≠ separator) →
      ∀ before, Passes (splitAt separator) (Spot.top before) text (Spot.top false) := by
    intro text nonempty each before
    have single : ∀ c ∈ text, ∀ before,
        Passes (splitAt separator) (Spot.top before) [c] (Spot.top false) := by
      intro c member before
      obtain ⟨solid, flat, different⟩ := each c member
      have passes := passes_splitAt (Spot.top before) different
      rwa [next_top solid flat] at passes
    obtain ⟨c, rest, rfl⟩ := List.exists_cons_of_ne_nil nonempty
    exact (single c List.mem_cons_self before).trans
      (Passes.run fun d member => single d (List.mem_cons_of_mem _ member) false)
  have marks : ∀ mark ∈ [',', ';'], mark ∈ separators := by simp [separators]
  refine ⟨splitsUnnested_splitAt separator, fun before => ?_, fun before => ?_,
    fun {text} token before => ?_, fun {name} named before => ?_⟩
  · exact passes_splitAt (Spot.top before) (other ' ' (by decide))
  · exact passes_splitAt (Spot.top before) (other '"' (by decide))
  · refine run text token.nonempty (fun c member => ?_) before
    obtain ⟨flat, noComma, noSemicolon⟩ := token.plain c member
    refine ⟨token.solid c member, flat, ?_⟩
    rintro rfl
    simp [noComma, noSemicolon] at separates
  · have passes := run name.toList named.1 (fun c member => ?_) before
    · exact passes.trans (passes_splitAt (Spot.top false) (other '(' (by decide)))
    · have word := named.2 c member
      refine ⟨isBlank_eq_false_of_isWord word, isFlat_of_isWord word, ?_⟩
      rintro rfl
      exact not_mem_separators_of_isWord word (marks c separates)

/-- The word `and` parts conditions and nothing within them: no token begins with it, and a name
that does goes on up to its parenthesis. -/
theorem passesCalls_splitAtWord : PassesCalls (splitAtWord Scope.andWord) := by
  have run : ∀ text : Chars, (∀ c ∈ text, isBlank c = false ∧ isFlat c = true) →
      Passes (splitAtWord Scope.andWord) (Spot.top false) text (Spot.top false) := by
    intro text each
    refine Passes.run fun c member => ?_
    have passes : Passes (splitAtWord Scope.andWord) (Spot.top false) [c]
        ((Spot.top false).next c) := passes_splitAtWord_of_solid rfl
    rwa [next_top (each c member).1 (each c member).2] at passes
  have head : ∀ c before, c ∉ Scope.andWord →
      Passes (splitAtWord Scope.andWord) (Spot.top before) [c] ((Spot.top before).next c) := by
    intro c before other
    refine passes_splitAtWord_of_head (fun begins => other ?_) (by decide)
    exact List.mem_of_mem_head? begins
  refine ⟨splitsUnnested_splitAtWord _, fun before => ?_, fun before => ?_,
    fun {text} token before => ?_, fun {name} named before => ?_⟩
  · exact head ' ' before (by decide)
  · exact head '"' before (by decide)
  · obtain ⟨nonempty, solid, plain, begins⟩ := token
    obtain ⟨c, rest, rfl⟩ := List.exists_cons_of_ne_nil nonempty
    have first := head c before (begins c rfl)
    rw [next_top (solid c List.mem_cons_self) (plain c List.mem_cons_self).1] at first
    refine first.trans (run rest fun d member => ?_)
    have among := List.mem_cons_of_mem c member
    exact ⟨solid d among, (plain d among).1⟩
  · obtain ⟨nonempty, words⟩ := named
    obtain ⟨c, rest, same⟩ := List.exists_cons_of_ne_nil nonempty
    rw [same] at words ⊢
    have solid : ∀ d ∈ c :: rest, isBlank d = false ∧ isFlat d = true :=
      fun d member =>
        ⟨isBlank_eq_false_of_isWord (words d member), isFlat_of_isWord (words d member)⟩
    have opens : Passes (splitAtWord Scope.andWord) (Spot.top false) (rest ++ ['('])
        ⟨false, ⟨1, false⟩⟩ :=
      (run rest fun d member => solid d (List.mem_cons_of_mem _ member)).trans
        (passes_splitAtWord_of_solid rfl)
    intro text
    have longer : splitAtWord Scope.andWord (Spot.top before) (c :: (rest ++ '(' :: text)) =
        consFirst c (splitAtWord Scope.andWord ((Spot.top before).next c) (rest ++ '(' :: text)) :=
      splitAtWord_append_of_longer (fun d member => (solid d member).1) rfl (by decide) text
    have first := solid c List.mem_cons_self
    rw [next_top first.1 first.2] at longer
    have others := opens text
    simp only [List.append_assoc, List.cons_append, List.nil_append] at others longer ⊢
    rw [longer, others]
    simp

end Splits

namespace PassesCalls

variable {split : Spot → Chars → List Chars} (passes : PassesCalls split)

include passes

theorem operand {text : Chars} (operand : CallSyntax.IsOperand text)
    (head : ∀ c ∈ text.head?, c ∉ Scope.andWord) (before : Bool) :
    Passes split (Spot.top before) text (Spot.top false) := by
  cases operand with
  | bare nonempty solid apart =>
      refine passes.token ⟨nonempty, solid, fun c member => ?_, head⟩ before
      have other := apart c member
      refine ⟨isFlat_of_not_mem_separators other, ?_, ?_⟩ <;> rintro rfl <;>
        exact other (by decide)
  | quoted closed => exact Passes.quotes passes.splits (passes.quote before) closed

theorem argument {argument : Argument} (writable : argument.IsWritable) (before : Bool) :
    Passes split (Spot.top before) argument.source (Spot.top false) :=
  passes.operand (Argument.isOperand_source writable) (Argument.head_source writable) before

/-- Two arguments with an operator between them. -/
theorem between {left right : Argument} {operator : Chars} (writable : left.IsWritable)
    (writableRight : right.IsWritable) (token : IsToken operator) (before : Bool) :
    Passes split (Spot.top before) (left.source ++ ' ' :: (operator ++ ' ' :: right.source))
      (Spot.top false) :=
  (passes.argument writable before).trans ((passes.blank false).trans
    ((passes.token token true).trans ((passes.blank false).trans
      (passes.argument writableRight true))))

theorem application {call : Call} (applies : call.IsApplication) (before : Bool) :
    Passes split (Spot.top before) call.source (Spot.top false) := by
  rw [applies.source_eq]
  refine Passes.group passes.splits (passes.name applies.named before) ?_
  refine Balanced.intercalate (by decide) fun part member => ?_
  obtain ⟨argument, among, rfl⟩ := List.mem_map.mp member
  exact (Argument.isOperand_source (applies.writable argument among)).balanced

end PassesCalls

theorem isToken_operator {operator : String}
    (member : operator ∈ Command.assignName :: CallSyntax.operators) :
    IsToken operator.toList := by
  have marked : ∀ operator ∈ Command.assignName :: CallSyntax.operators, operator.toList ≠ [] ∧
      operator.toList.all (fun c => isBlank c = false ∧
        (isFlat c = true ∧ c ≠ ',' ∧ c ≠ ';') ∧ c ∉ Scope.andWord) = true := by
    decide +kernel
  obtain ⟨nonempty, all⟩ := marked operator member
  have each := forall_mem_of_all all
  exact ⟨nonempty, fun c among => (each c among).1, fun c among => (each c among).2.1,
    fun c begins => (each c (List.mem_of_mem_head? begins)).2.2⟩

end Script

namespace Call

variable {call : Call} {target operator : String} {left right : Argument}

theorem source_eq_of_operator (among : operator ∈ Command.assignName :: CallSyntax.operators) :
    source ⟨operator, [left, right]⟩ =
      left.source ++ ' ' :: (operator.toList ++ ' ' :: right.source) :=
  if_pos among

/-- A command is passed over. -/
theorem IsCommand.passes {split : Spot → Chars → List Chars} (command : call.IsCommand)
    (passes : PassesCalls split) (before : Bool) :
    Passes split (Spot.top before) call.source (Spot.top false) := by
  cases command with
  | @assignment target argument named writable =>
      have reference : (Argument.reference target).IsWritable := named
      rw [source_eq_of_operator List.mem_cons_self]
      exact passes.between reference writable (isToken_operator List.mem_cons_self) before
  | application applies => exact passes.application applies before

theorem IsCondition.passes {split : Spot → Chars → List Chars} (condition : call.IsCondition)
    (passes : PassesCalls split) (before : Bool) :
    Passes split (Spot.top before) call.source (Spot.top false) := by
  cases condition with
  | comparison compares writable writableRight =>
      have among := List.mem_cons_of_mem Command.assignName compares
      rw [source_eq_of_operator among]
      exact passes.between writable writableRight (isToken_operator among) before
  | application applies => exact passes.application applies before

/-! ## Trimmed sources -/

theorem isTrimmed_of_operands (writable : left.IsWritable) (writableRight : right.IsWritable)
    (joint : Chars) : IsTrimmed (left.source ++ ' ' :: (joint ++ ' ' :: right.source)) ∧
      left.source ++ ' ' :: (joint ++ ' ' :: right.source) ≠ [] := by
  have operand := Argument.isOperand_source writable
  have other := Argument.isOperand_source writableRight
  have joined := operand.isTrimmed.join other.isTrimmed operand.ne_nil other.ne_nil
    (' ' :: (joint ++ [' ']))
  exact ⟨by simpa using joined, by simp⟩

theorem IsApplication.isTrimmed (applies : call.IsApplication) :
    IsTrimmed call.source ∧ call.source ≠ [] := by
  have name : IsTrimmed call.name.toList :=
    ⟨fun c member => isBlank_eq_false_of_isWord (applies.named.2 c (List.mem_of_mem_head? member)),
      fun c member => isBlank_eq_false_of_isWord
        (applies.named.2 c (List.mem_of_mem_getLast? member))⟩
  have close : IsTrimmed [')'] := .single rfl
  have joined := name.join close applies.named.1 (by decide) ('(' :: argumentSource call.arguments)
  rw [applies.source_eq]
  exact ⟨by simpa using joined, by simp⟩

theorem IsCommand.isTrimmed (command : call.IsCommand) :
    IsTrimmed call.source ∧ call.source ≠ [] := by
  cases command with
  | @assignment target argument named writable =>
      have reference : (Argument.reference target).IsWritable := named
      rw [source_eq_of_operator List.mem_cons_self]
      exact isTrimmed_of_operands reference writable _
  | application applies => exact applies.isTrimmed

theorem IsCondition.isTrimmed (condition : call.IsCondition) :
    IsTrimmed call.source ∧ call.source ≠ [] := by
  cases condition with
  | comparison compares writable writableRight =>
      rw [source_eq_of_operator (List.mem_cons_of_mem _ compares)]
      exact isTrimmed_of_operands writable writableRight _
  | application applies => exact applies.isTrimmed

end Call

end Parley
