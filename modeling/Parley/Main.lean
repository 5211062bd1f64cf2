import Parley.CommandLine.Response

/-!
# The program

Reads the entry at the requested path, passes input line by line to the player
and prints what the responses say.  Everything else is decided elsewhere.
-/

namespace Parley.CommandLine

/-- What stands on standard error when the arguments cannot be used. -/
def usage : String :=
  "usage: check (--script FILE | --scripts-dir DIR) | dump --script FILE | " ++
    "play --script FILE --dialogue TITLE [--var NAME=LITERAL]..."

/-- Read the directories and the scripts below a directory.  Links are passed over. -/
partial def readBelow (directory : String) : IO (List (String × Entry)) := do
  let mut entries := []
  for child in ← ((← IO.currentDir) / directory).readDir do
    match (← child.path.symlinkMetadata).type with
    | .dir =>
        let below ← readBelow child.path.toString
        entries := (child.fileName, .directory below) :: entries
    | .file =>
        if Entry.isScriptName child.fileName then
          entries := (child.fileName, .file (← IO.FS.readBinFile child.path)) :: entries
    | _ => pure ()
  return entries

/-- Read the entry at an absolute path, if there is one.  A directory is looked
into only if the request asks for the scripts below it. -/
def findEntry (request : Request) (path : String) : IO (Option Entry) := do
  let place := (← IO.currentDir) / path
  if ← place.pathExists then
    match (← place.metadata).type, request with
    | .dir, .checkDirectory _ => return some (.directory (← readBelow path))
    | .dir, _ => return some (.directory [])
    | .file, _ => return some (.file (← IO.FS.readBinFile place))
    | _, _ => return some .special
  else
    return none

/-- Print a text at once. -/
def emit (text : String) : IO Unit := do
  let output ← IO.getStdout
  output.putStr text
  output.flush

/-- Print a response and give its exit code. -/
def emitResponse (response : Response) : IO UInt32 := do
  emit response.output
  return response.exitCode.toUInt32

/-- Play on from a stage, line by line, until the player stops or the input
ends. -/
partial def converse (stage : Stage) : IO UInt32 := do
  if stage.isWaiting then
    emit stage.printed
    let line ← (← IO.getStdin).getLine
    if line.isEmpty then
      return 0
    else
      converse (stage.clear.receive line.toList)
  else
    emitResponse (Response.ofStage stage)

/-- Do what the arguments ask for. -/
def perform (request : Request) : IO UInt32 := do
  let directory := (← IO.currentDir).toString
  let path := absolutePath directory request.rawPath
  let found ← findEntry request path
  match request with
  | .play script dialogue overrides =>
      match Response.firstStage (ScriptFile.ofEntry script path found) dialogue overrides with
      | .error failure => emitResponse (Response.failed "" failure)
      | .ok stage => converse stage
  | _ => emitResponse (request.respond directory found "")

end Parley.CommandLine

/-- Run the program. -/
def main (arguments : List String) : IO UInt32 := do
  match Parley.CommandLine.Arguments.read arguments with
  | .ok request => Parley.CommandLine.perform request
  | .error unusable =>
      IO.eprintln Parley.CommandLine.usage
      return unusable.exitCode.toUInt32
