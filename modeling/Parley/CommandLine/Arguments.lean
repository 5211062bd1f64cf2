import Parley.Text.Basic

/-!
# Arguments

The first argument names what to do, and the others are options with values,
`--name value` or `--name=value`.  A value that is an argument of its own may not
look like an option; a lone `-` does not.  An option is given at most once, unless
it may be repeated.  The arguments may end in a lone `--`.

Arguments that cannot be understood are misused, and there is nothing to do.
Asking for help is no misuse; there is nothing to do either.
-/

namespace Parley.CommandLine

open Parley.Text

/-- What the command line is asked to do. -/
inductive Request where
  /-- Compile one script and list its dialogues. -/
  | checkScript (script : String)
  /-- Compile the scripts below a directory and list their dialogues. -/
  | checkDirectory (directory : String)
  /-- Print the graph of a script. -/
  | dump (script : String)
  /-- Play a dialogue of a script with overridden variables. -/
  | play (script dialogue : String) (overrides : List String)
  deriving DecidableEq

/-- Why there is nothing to do. -/
inductive Unusable where
  | help
  | misuse
  deriving DecidableEq

/-- The exit code when there is nothing to do. -/
def Unusable.exitCode : Unusable → Nat
  | help => 0
  | misuse => 2

namespace Arguments

/-- An option that a command takes. -/
structure OptionSpec where
  name : String
  repeatable : Bool

/-- Options in the order in which they were given. -/
abbrev Given := List (String × String)

/-- Add an option, unless it was given before and may not be repeated. -/
def addOption (spec : OptionSpec) (value : String) (given : Given) : Except Unusable Given :=
  if spec.repeatable || !given.any fun (name, _) => name == spec.name then
    .ok (given ++ [(spec.name, value)])
  else .error .misuse

/-- Whether an argument looks like an option or an end of options. -/
def looksLikeOption (argument : String) : Bool :=
  argument.startsWith "-" && argument != "-"

/-- The name and the attached value of a long option. -/
def longOption? (argument : String) : Option (String × Option String) :=
  match "--".toList.isPrefixOf? argument.toList with
  | some body =>
      match cutAt? '=' body with
      | some (name, value) => some (String.ofList name, some (String.ofList value))
      | none => some (String.ofList body, none)
  | none => none

/-- What to answer to an argument that is no option of the command. -/
def unknownOption (name : String) (attached : Option String) : Unusable :=
  if name = "help" ∧ attached = none then .help else .misuse

/-- What to answer to an argument that is no long option. -/
def otherArgument (argument : String) : Unusable :=
  if argument.startsWith "-h" then .help else .misuse

/-- Read the options of a command. -/
def readOptions (specs : List OptionSpec) (given : Given) : List String → Except Unusable Given
  | [] => .ok given
  | argument :: rest =>
      if argument = "--" then
        if rest = [] then .ok given else .error .misuse
      else
        match longOption? argument with
        | none => .error (otherArgument argument)
        | some (name, attached) =>
            match specs.find? fun spec => spec.name == name with
            | none => .error (unknownOption name attached)
            | some spec =>
                match attached with
                | some value => do readOptions specs (← addOption spec value given) rest
                | none =>
                    match rest with
                    | [] => .error .misuse
                    | value :: remaining =>
                        if looksLikeOption value then .error .misuse
                        else do readOptions specs (← addOption spec value given) remaining

/-- The values of an option, in order. -/
def valuesOf (name : String) (given : Given) : List String :=
  (given.filter fun (key, _) => key == name).map Prod.snd

/-- The value of an option that is given at most once. -/
def valueOf? (name : String) (given : Given) : Option String :=
  (valuesOf name given).head?

/-- The option that names a script. -/
def scriptOption : OptionSpec := ⟨"script", false⟩

/-- The option that names a directory of scripts. -/
def directoryOption : OptionSpec := ⟨"scripts-dir", false⟩

/-- The option that names a dialogue. -/
def dialogueOption : OptionSpec := ⟨"dialogue", false⟩

/-- The option that overrides a variable. -/
def overrideOption : OptionSpec := ⟨"var", true⟩

/-- Read the arguments of `check`, which takes a script or a directory. -/
def readCheck (arguments : List String) : Except Unusable Request := do
  let given ← readOptions [scriptOption, directoryOption] [] arguments
  match valueOf? scriptOption.name given, valueOf? directoryOption.name given with
  | some script, none => return .checkScript script
  | none, some directory => return .checkDirectory directory
  | _, _ => throw .misuse

/-- Read the arguments of `dump`, which takes a script. -/
def readDump (arguments : List String) : Except Unusable Request := do
  let given ← readOptions [scriptOption] [] arguments
  match valueOf? scriptOption.name given with
  | some script => return .dump script
  | none => throw .misuse

/-- Read the arguments of `play`, which takes a script, a dialogue and any
number of overrides. -/
def readPlay (arguments : List String) : Except Unusable Request := do
  let given ← readOptions [scriptOption, dialogueOption, overrideOption] [] arguments
  match valueOf? scriptOption.name given, valueOf? dialogueOption.name given with
  | some script, some dialogue =>
      return .play script dialogue (valuesOf overrideOption.name given)
  | _, _ => throw .misuse

/-- Whether the arguments of `help` name something that there is help on. -/
def isHelpTopic : List String → Bool
  | [] => true
  | [topic] => ["check", "dump", "play", "help"].contains topic
  | _ => false

/-- Read the arguments of the program. -/
def read : List String → Except Unusable Request
  | [] => .error .misuse
  | command :: rest =>
      if command = "check" then readCheck rest
      else if command = "dump" then readDump rest
      else if command = "play" then readPlay rest
      else if command = "help" then
        if isHelpTopic rest then .error .help else .error .misuse
      else if command = "--help" ∨ command.startsWith "-h" then .error .help
      else .error .misuse

end Arguments

end Parley.CommandLine
