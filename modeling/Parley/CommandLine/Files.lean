import Parley.Text.Basic

/-!
# File trees

The command line reads scripts from a tree of files and directories.  A path is
followed one component at a time from the root of the tree; only a directory has
anything below it, not even itself by way of `.`.  A path that is too long leads
nowhere.  All scripts below a directory are listed in the order of their paths,
compared component by component.
-/

namespace Parley.CommandLine

/-- A file with its bytes, a directory with its named entries, or something that is
neither, such as a device. -/
inductive Entry where
  | file (content : ByteArray)
  | directory (entries : List (String × Entry))
  | special

namespace Entry

/-- The entry of a name in a directory. -/
def named? (name : String) : List (String × Entry) → Option Entry
  | [] => none
  | (key, entry) :: rest => if key = name then some entry else named? name rest

/-- Follow the components of a path from an entry whose enclosing directories
are given, the nearest first.  The root encloses itself. -/
def descend (enclosing : List Entry) (current : Entry) : List String → Option Entry
  | [] => some current
  | component :: rest =>
      match current with
      | file _ | special => none
      | directory entries =>
          if component = "" ∨ component = "." then descend enclosing current rest
          else if component = ".." then
            match enclosing with
            | parent :: outer => descend outer parent rest
            | [] => descend [] current rest
          else
            match named? component entries with
            | some entry => descend (current :: enclosing) entry rest
            | none => none

/-- The number of bytes from which on a path is too long to lead anywhere. -/
def pathLimit : Nat := 4096

/-- The entry at an absolute path of a tree, unless the path is too long. -/
def find? (root : Entry) (path : String) : Option Entry :=
  if path.utf8ByteSize < pathLimit then descend [] root (path.splitOn "/") else none

mutual

/-- The files below an entry, with the components of their paths. -/
def files : Entry → List (List String × ByteArray)
  | file content => [([], content)]
  | directory entries => filesOfAll entries
  | special => []

/-- The files below the entries of a directory. -/
def filesOfAll : List (String × Entry) → List (List String × ByteArray)
  | [] => []
  | (name, entry) :: rest =>
      entry.files.map (fun (path, content) => (name :: path, content)) ++ filesOfAll rest

end

/-- What the name of a script ends in. -/
def extension : String := "dlg"

/-- Whether a file name is that of a script: something, a point and the
extension. -/
def isScriptName (name : String) : Bool :=
  match Text.dropEnd? ('.' :: extension.toList) name.toList with
  | some stem => !stem.isEmpty
  | none => false

/-- Whether a path leads to a script. -/
def isScriptPath (path : List String) : Bool :=
  match path.getLast? with
  | some name => isScriptName name
  | none => false

/-- The scripts below an entry, in the order of their paths. -/
def scripts (entry : Entry) : List (List String × ByteArray) :=
  (entry.files.filter fun (path, _) => isScriptPath path).mergeSort
    fun first second => !second.1.lex first.1 fun left right => left < right

end Entry

/-- An absolute path, where a relative one starts at the working directory. -/
def absolutePath (workingDirectory raw : String) : String :=
  if raw.startsWith "/" then raw
  else if workingDirectory.endsWith "/" then workingDirectory ++ raw
  else workingDirectory ++ "/" ++ raw

end Parley.CommandLine
