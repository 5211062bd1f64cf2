import Parley.CommandLine.Arguments
import Parley.CommandLine.Failure
import Parley.CommandLine.Files
import Parley.CommandLine.Override
import Parley.CommandLine.Player
import Parley.Json.Graph
import Parley.Text.Lines

/-!
# Responses

What the program prints and its exit code, as a function of the request, of what
is found at the path that the request names, and of the input.  A failure prints
a report, after whatever was printed before it, and ends with code one.
-/

namespace Parley.CommandLine

open Parley.Text

/-- What the program prints and its exit code. -/
structure Response where
  exitCode : Nat
  output : String
  deriving DecidableEq

/-- A script as it is read from a file. -/
structure ScriptFile where
  /-- How reports name the script. -/
  label : String
  lines : List String
  deriving DecidableEq

namespace ScriptFile

/-- Read a script, whose bytes have to be UTF-8. -/
def ofBytes (label : String) (content : ByteArray) : Except Failure ScriptFile :=
  match String.fromUTF8? content with
  | some text => .ok ⟨label, linesOf text⟩
  | none => .error .notText

/-- The label of a script below a directory; backslashes count as slashes. -/
def pathLabel (path : List String) : String :=
  String.ofList (("/".intercalate path).toList.map fun c => if c = '\\' then '/' else c)

/-- Read scripts in order, up to the first that cannot be read. -/
def ofFiles (files : List (List String × ByteArray)) : Except Failure (List ScriptFile) :=
  files.mapM fun (path, content) => ofBytes (pathLabel path) content

/-- The script at a path, where `found` is the entry there. -/
def ofEntry (raw path : String) (found : Option Entry) : Except Failure ScriptFile :=
  match found with
  | none => .error (.notFound path)
  | some (.directory _) | some .special => .error (.notFile path)
  | some (.file content) => ofBytes raw content

/-- The scripts below a path, where `found` is the entry there. -/
def allOfEntry (path : String) (found : Option Entry) : Except Failure (List ScriptFile) :=
  match found with
  | none => .error (.notFound path)
  | some (.file _) | some .special => .error (.notDirectory path)
  | some (.directory entries) => do
      match ← ofFiles (Entry.directory entries).scripts with
      | [] => throw (.noScripts path Entry.extension)
      | scripts => return scripts

/-- Compile a script on its own. -/
def compile (script : ScriptFile) : Except Failure (Graph × Store) := do
  let compilation := Parley.compile Player.commands .empty script.lines
  let graph ← compilation.graph.mapError (.script script.label)
  return (graph, compilation.store)

end ScriptFile

namespace Response

/-- A response that prints lines and succeeds. -/
def success (lines : List String) : Response :=
  ⟨0, String.join (lines.map (· ++ "\n"))⟩

/-- The report of a failure. -/
def report (failure : Failure) : List String :=
  ["RESULT:ERROR",
    "ERROR_CODE:" ++ failure.code,
    "ERROR_MSG_JSON:" ++ (Json.text failure.message).compact]

/-- A response that prints what was printed before a failure and its report. -/
def failed (printed : String) (failure : Failure) : Response :=
  ⟨1, printed ++ (success (report failure)).output⟩

/-- The response of a command that prints nothing before it has succeeded. -/
def ofOutcome : Except Failure (List String) → Response
  | .error failure => failed "" failure
  | .ok lines => success lines

/-- The titles of the dialogues of a graph. -/
def titlesJson (graph : Graph) : Json :=
  .list (graph.titles.map .text)

/-- The lines that list the dialogues of a script. -/
def checkLines (script : ScriptFile) : Except Failure (List String) := do
  let (graph, _) ← script.compile
  return ["SCRIPT:" ++ script.label, "DIALOGUES_JSON:" ++ (titlesJson graph).compact]

/-- The response to compiling scripts, up to the first that cannot be compiled. -/
def check (loaded : Except Failure (List ScriptFile)) : Response :=
  ofOutcome do
    let lines ← (← loaded).mapM checkLines
    return "RESULT:OK" :: lines.flatten

/-- The response to dumping a script. -/
def dump (loaded : Except Failure ScriptFile) : Response :=
  ofOutcome do
    let (graph, store) ← (← loaded).compile
    return [(Json.record [
      ("dialogues", titlesJson graph),
      ("variables", Store.toJson store),
      ("graph", graph.toJson)]).indented]

/-- A session of a script with overridden variables, in which nothing has been
started. -/
def sessionOf (script : ScriptFile) (rawOverrides : List String) :
    Except Failure (Session Transcript) := do
  let overrides ← Override.readAll rawOverrides
  let session ← (Session.ofScript script.lines Player.commands ⟨.empty, ""⟩ none).mapError
    (.script script.label)
  let store ← Override.applyAll overrides session.world.store
  return { session with world := { session.world with store := store } }

/-- The first stage of playing a dialogue. -/
def firstStage (loaded : Except Failure ScriptFile) (dialogue : String)
    (rawOverrides : List String) : Except Failure Stage := do
  let session ← sessionOf (← loaded) rawOverrides
  match session.start dialogue with
  | (.error fault, _) => throw (.dialogue fault)
  | (.ok (), started) => return Player.begin started

/-- The response of a player that gets no more input. -/
def ofStage (stage : Stage) : Response :=
  match stage.fault? with
  | some fault => failed stage.printed (.dialogue fault)
  | none => ⟨0, stage.printed⟩

/-- The response to playing a dialogue with the lines of an input. -/
def play (first : Except Failure Stage) (input : String) : Response :=
  match first with
  | .error failure => failed "" failure
  | .ok stage => ofStage ((lines input.toList).foldl Stage.receive stage)

end Response

namespace Request

/-- The path that a request names. -/
def rawPath : Request → String
  | checkScript script | dump script | play script _ _ => script
  | checkDirectory directory => directory

/-- The response to a request, where `found` is the entry at its path. -/
def respond (request : Request) (workingDirectory : String) (found : Option Entry)
    (input : String) : Response :=
  let path := absolutePath workingDirectory request.rawPath
  match request with
  | checkScript script =>
      Response.check ((ScriptFile.ofEntry script path found).map fun loaded => [loaded])
  | checkDirectory _ => Response.check (ScriptFile.allOfEntry path found)
  | dump script => Response.dump (ScriptFile.ofEntry script path found)
  | play script dialogue overrides =>
      Response.play
        (Response.firstStage (ScriptFile.ofEntry script path found) dialogue overrides) input

end Request

/-- The response to arguments in a tree of files. -/
def run (arguments : List String) (root : Entry) (workingDirectory input : String) : Response :=
  match Arguments.read arguments with
  | .error unusable => ⟨unusable.exitCode, ""⟩
  | .ok request =>
      request.respond workingDirectory
        (root.find? (absolutePath workingDirectory request.rawPath)) input

end Parley.CommandLine
