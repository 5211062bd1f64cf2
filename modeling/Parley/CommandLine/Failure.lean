import Parley.Fault

/-!
# Failures of the command line

Whatever stops a command is reported in the same way: a code for programs and a
message for people.  Failures of a script carry the script's label where more
than one script may be meant.
-/

namespace Parley.CommandLine

/-- The cause of a failed command. -/
inductive Failure where
  | notFound (path : String)
  | notFile (path : String)
  | notDirectory (path : String)
  | noScripts (path extension : String)
  | notText
  | invalidOverride (raw : String)
  | overrideType (name : String) (declared given : DataType)
  /-- A script cannot be compiled. -/
  | script (label : String) (diagnostic : Diagnostic)
  /-- A dialogue cannot be started or played on. -/
  | dialogue (fault : Fault)
  deriving DecidableEq

namespace Failure

/-- The stable code of a failure. -/
def code : Failure → String
  | notFound _ => "CLI_SOURCE_NOT_FOUND"
  | notFile _ => "CLI_SOURCE_NOT_FILE"
  | notDirectory _ => "CLI_SOURCE_NOT_DIR"
  | noScripts _ _ => "CLI_SOURCE_EMPTY"
  | notText => "CLI_SOURCE_READ"
  | invalidOverride _ | overrideType _ _ _ => "CLI_VAR_INVALID"
  | script _ diagnostic => diagnostic.code
  | dialogue fault => fault.code

/-- The wording of a failure. -/
def message : Failure → String
  | notFound path => s!"path does not exist: {path}"
  | notFile path => s!"script is not a file: {path}"
  | notDirectory path => s!"scripts-dir is not a directory: {path}"
  | noScripts path extension => s!"No .{extension} files under {path}"
  | notText => "stream did not contain valid UTF-8"
  | invalidOverride raw => s!"expected NAME=LITERAL but got `{raw}`"
  | overrideType name declared given =>
      s!"`{name}` is declared as {declared.name} but the override is {given.name}"
  | script label diagnostic => s!"{label}: {diagnostic.message}"
  | dialogue fault => fault.message

end Failure

end Parley.CommandLine
