import Parley.Value

/-!
# What can go wrong

A `Fault` is a cause: it names what is wrong with a script, a call or a session,
and its wording is a function of it.  A `Diagnostic` adds the line of the script
that a fault is blamed on, where there is one.  Faults of a script's structure and of
the use of a session have causes of their own; both leave room for a description
by a host that checks more than this library does.
-/

namespace Parley

/-- What is wrong with the structure of a script. -/
inductive Malformation where
  | missingTitle
  | duplicateTitle (title : String)
  | outsideDialogue
  | misplacedOption
  | optionIndent
  | optionNotClosed (body : String)
  | optionConditionEmpty (body : String)
  | optionTextEmpty (content : String)
  | misplacedBranch
  | branchIndent
  | bareIf
  | branchNotGrouped (content : String)
  | branchConditionEmpty (content : String)
  | elseWithoutIf
  | misplacedElse
  | elseAfterElse
  | lineIndent
  | noOpenOption
  | noOpenBranch
  | speakerMissing (content : String)
  | speechEmpty (content : String)
  | returnTooFar (depth available : Nat)
  | invalidCommand (source : String)
  | invalidCondition (source : String)
  | emptyArgument
  | described (text : String)
  deriving DecidableEq, Repr

/-- The wording of a structural fault. -/
def Malformation.message : Malformation → String
  | missingTitle => "dialogue declaration has no identifier"
  | duplicateTitle title => s!"dialogue `{title}` is declared twice"
  | outsideDialogue => "dialogue declaration is missing"
  | misplacedOption => "an option must follow a line or another option"
  | optionIndent => "an option must be indented like the line it belongs to"
  | optionNotClosed body => s!"condition of option `{body}` is not closed"
  | optionConditionEmpty body => s!"option `{body}` has an empty condition"
  | optionTextEmpty content => s!"option `{content}` has no text"
  | misplacedBranch => "a branch must follow a declaration, a line or an option"
  | branchIndent => "branch is not indented correctly"
  | bareIf => "`(if)` is missing its condition"
  | branchNotGrouped content => s!"`{content}` must be a single parenthesised branch"
  | branchConditionEmpty content => s!"`{content}` is missing its condition"
  | elseWithoutIf => "`(else)` has no open `(if)` at its indentation"
  | misplacedElse => "`(else)` must follow a line or an option"
  | elseAfterElse => "`(else)` follows an unconditional `(else)`"
  | lineIndent => "line is not indented correctly"
  | noOpenOption => "no open option at this indentation"
  | noOpenBranch => "no open branch at this indentation"
  | speakerMissing content => s!"`{content}` is not formatted as `speaker: text`"
  | speechEmpty content => s!"`{content}` needs both a speaker and a text"
  | returnTooFar depth available =>
      s!"return marker goes {depth} option level(s) up but only {available} are open"
  | invalidCommand source => s!"`{source}` is not a valid command"
  | invalidCondition source => s!"`{source}` is not a valid condition"
  | emptyArgument => "empty command argument"
  | described text => text

/-- What is wrong with a request to a session. -/
inductive Misuse where
  | notStarted
  | noChoicePending
  | choiceOutOfRange (index available : Nat)
  | described (text : String)
  deriving DecidableEq, Repr

/-- The wording of a misused session. -/
def Misuse.message : Misuse → String
  | notStarted => "no dialogue has been started"
  | noChoicePending => "no choice is pending"
  | choiceOutOfRange index available =>
      s!"choice index {index} is out of range ({available} available)"
  | described text => text

/-- The cause of a failure in compiling or playing a script. -/
inductive Fault where
  | malformed (cause : Malformation)
  | emptyScript
  | unknownCommand (name : String)
  | signatureMismatch (name expected found : String)
  | nonBooleanCondition (name found : String)
  | undefinedVariable (name : String)
  | commandFailed (name message : String)
  | unknownDialogue (name : String)
  | noApplicableArm
  | walkTooLong (count : Nat)
  | session (cause : Misuse)
  deriving DecidableEq, Repr

namespace Fault

/-- The wording of a fault. -/
def message : Fault → String
  | malformed cause => cause.message
  | emptyScript => "script does not declare any dialogue"
  | unknownCommand name => s!"command `{name}` is not registered"
  | signatureMismatch name expected found =>
      s!"command `{name}` expects ({expected}) but got ({found})"
  | nonBooleanCondition name found =>
      s!"condition `{name}` must return boolean but returns {found}"
  | undefinedVariable name => s!"variable `${name}` is not defined"
  | commandFailed name message => s!"command `{name}` failed: {message}"
  | unknownDialogue name => s!"dialogue `{name}` does not exist"
  | noApplicableArm => "branch has no applicable arm"
  | walkTooLong count => s!"traversal passed {count} relay lines without reaching text"
  | session cause => cause.message

/-- The stable code of a fault, for programs that react to it. -/
def code : Fault → String
  | malformed _ => "SCRIPT_STRUCTURE"
  | emptyScript => "SCRIPT_EMPTY"
  | unknownCommand _ => "COMMAND_UNKNOWN"
  | signatureMismatch _ _ _ => "COMMAND_SIGNATURE_MISMATCH"
  | nonBooleanCondition _ _ => "CONDITION_NOT_BOOLEAN"
  | undefinedVariable _ => "VARIABLE_UNDEFINED"
  | commandFailed _ _ => "COMMAND_FAILED"
  | unknownDialogue _ => "DIALOGUE_NOT_FOUND"
  | noApplicableArm => "BRANCH_NO_ARM"
  | walkTooLong _ => "TRAVERSAL_GUARD_EXCEEDED"
  | session _ => "SESSION_STATE"

end Fault

/-- A fault with the line of the script it is blamed on, counted from one. -/
structure Diagnostic where
  fault : Fault
  line : Option Nat
  deriving DecidableEq, Repr

namespace Diagnostic

/-- A fault that no line is blamed for. -/
def ofFault (fault : Fault) : Diagnostic := ⟨fault, none⟩

/-- Blame a line, unless one is blamed already. -/
def atLine (diagnostic : Diagnostic) (line : Nat) : Diagnostic :=
  { diagnostic with line := some (diagnostic.line.getD line) }

/-- The wording of a diagnostic, which names the line first. -/
def message (diagnostic : Diagnostic) : String :=
  match diagnostic.line with
  | some line => s!"line {line}: {diagnostic.fault.message}"
  | none => diagnostic.fault.message

/-- The code of the fault. -/
def code (diagnostic : Diagnostic) : String :=
  diagnostic.fault.code

/-- The first line blamed is kept. -/
@[simp]
theorem atLine_atLine (diagnostic : Diagnostic) (first second : Nat) :
    (diagnostic.atLine first).atLine second = diagnostic.atLine first := by
  simp [atLine]

@[simp]
theorem line_atLine_ofFault (fault : Fault) (line : Nat) :
    ((ofFault fault).atLine line).line = some line :=
  rfl

end Diagnostic

end Parley
