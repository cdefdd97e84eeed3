import ScriptBundle.Bytes
import ScriptBundle.Path

/-!
# Files and directories

A file system holds files and directories under their locations, which are
lists of names counted from the root.  Paths are followed name by name from the
working directory; following fails where a directory is missing or is a file.
The operations are those a packer needs, each with the causes for which it is
refused.
-/

namespace ScriptBundle

/-- Why a file operation is refused. -/
inductive FileError where
  | notFound
  | exists
  | notADirectory
  | isADirectory
  | nameTooLong
  /-- A path holds the character NUL. -/
  | nulInName
  /-- The source of a copy is no file. -/
  | notAFile
  deriving DecidableEq, Repr

namespace FileError

def message : FileError → String
  | .notFound => "No such file or directory (os error 2)"
  | .exists => "File exists (os error 17)"
  | .notADirectory => "Not a directory (os error 20)"
  | .isADirectory => "Is a directory (os error 21)"
  | .nameTooLong => "File name too long (os error 36)"
  | .nulInName => "file name contained an unexpected NUL byte"
  | .notAFile => "the source path is neither a regular file nor a symlink to a regular file"

end FileError

/-- What stands at a location. -/
inductive Node where
  | file (content : Bytes) (executable : Bool)
  | directory
  deriving DecidableEq, Repr, Inhabited

/-- The names that lead from the root to a node. -/
abbrev Location := List String

structure FileSystem where
  nodes : List (Location × Node)
  workingDirectory : Location
  deriving Inhabited

namespace FileSystem

/-- The longest name of a single node, in bytes. -/
def maxNameLength : Nat := 255

/-- The longest path, in bytes. -/
def maxPathLength : Nat := 4095

/-- A file system that holds the directories down to `workingDirectory`. -/
def empty (workingDirectory : Location) : FileSystem :=
  { nodes := (beginnings workingDirectory).map fun location => (location, .directory)
    workingDirectory }
where
  /-- The nonempty beginnings of a location. -/
  beginnings : Location → List Location
    | [] => []
    | name :: names => [name] :: (beginnings names).map (name :: ·)

/-- The path of a location. -/
def absolutePath (location : Location) : Path :=
  ⟨"/" ++ "/".intercalate location⟩

def workingPath (system : FileSystem) : Path :=
  absolutePath system.workingDirectory

/-- The node at a location.  The root is a directory. -/
def node? (system : FileSystem) (location : Location) : Option Node :=
  if location = [] then some .directory else system.nodes.lookup location

/-- Puts a node at a location, in place of what stood there. -/
def put (system : FileSystem) (location : Location) (node : Node) : FileSystem :=
  { system with nodes := (location, node) :: system.nodes.filter fun entry => entry.1 ≠ location }

/-- Removes the node at a location. -/
def erase (system : FileSystem) (location : Location) : FileSystem :=
  { system with nodes := system.nodes.filter fun entry => entry.1 ≠ location }

/-- Follows one segment of a path. -/
def step (system : FileSystem) (location : Location) (segment : Path.Segment) :
    Except FileError Location :=
  match system.node? location with
  | none => .error .notFound
  | some (.file ..) => .error .notADirectory
  | some .directory =>
      if Path.isIdle segment then .ok location
      else if segment = ['.', '.'] then .ok location.dropLast
      else
        let name := String.ofList segment
        if maxNameLength < name.utf8ByteSize then .error .nameTooLong
        else .ok (location ++ [name])

/-- Follows segments from the place where `path` starts. -/
def follow (system : FileSystem) (path : Path) (segments : List Path.Segment) :
    Except FileError Location :=
  if path.text = "" then .error .notFound
  else if path.text.toList.contains (Char.ofNat 0) then .error .nulInName
  else if maxPathLength < path.text.utf8ByteSize then .error .nameTooLong
  else segments.foldlM system.step (if path.isAbsolute then [] else system.workingDirectory)

/-- Where `path` leads.  Its last name may be missing. -/
def locate (system : FileSystem) (path : Path) : Except FileError Location :=
  system.follow path path.segments

/-- The node that `path` leads to. -/
def find (system : FileSystem) (path : Path) : Except FileError (Location × Node) := do
  let location ← system.locate path
  match system.node? location with
  | some node => return (location, node)
  | none => throw .notFound

def pathExists (system : FileSystem) (path : Path) : Bool :=
  match system.find path with
  | .ok _ => true
  | .error _ => false

def isFile (system : FileSystem) (path : Path) : Bool :=
  match system.find path with
  | .ok (_, .file ..) => true
  | _ => false

def isDirectory (system : FileSystem) (path : Path) : Bool :=
  match system.find path with
  | .ok (_, .directory) => true
  | _ => false

/-- The content of the file that `path` leads to. -/
def read (system : FileSystem) (path : Path) : Except FileError Bytes := do
  match (← system.find path).2 with
  | .file content _ => return content
  | .directory => throw .isADirectory

/-- The location of a file that is opened for writing from its start, made if it
is missing.  A path that does not end in a name can only lead to a directory. -/
def locateForWriting (system : FileSystem) (path : Path) : Except FileError Location := do
  let trimmed := (path.segments.reverse.dropWhile (· = [])).reverse
  let plain := trimmed.length = path.segments.length ∧
    trimmed.getLast? ≠ some ['.'] ∧ trimmed.getLast? ≠ some ['.', '.']
  if plain then
    let location ← system.locate path
    if system.node? location = some .directory then throw .isADirectory
    return location
  else
    let above ← system.follow path trimmed.dropLast
    match system.node? above with
    | none => throw .notFound
    | some (.file ..) => throw .notADirectory
    | some .directory => throw .isADirectory

/-- Replaces the content of a file, or makes the file. -/
def write (system : FileSystem) (path : Path) (content : Bytes) :
    Except FileError FileSystem := do
  let location ← system.locateForWriting path
  match system.node? location with
  | some (.file _ executable) => return system.put location (.file content executable)
  | _ => return system.put location (.file content false)

/-- Copies a file.  The target is emptied before the source is read, so a file
that is copied onto itself ends up empty. -/
def copy (system : FileSystem) (source target : Path) : Except FileError FileSystem := do
  let (origin, node) ← system.find source
  match node with
  | .directory => throw .notAFile
  | .file _ executable =>
      let destination ← system.locateForWriting target
      let emptied := system.put destination (.file [] executable)
      match emptied.node? origin with
      | some (.file content _) => return emptied.put destination (.file content executable)
      | _ => return emptied

/-- Marks a file as executable. -/
def setExecutable (system : FileSystem) (path : Path) : FileSystem :=
  match system.find path with
  | .ok (location, .file content _) => system.put location (.file content true)
  | _ => system

/-- Removes the file that `path` leads to. -/
def removeFile (system : FileSystem) (path : Path) : Except FileError FileSystem := do
  let (location, node) ← system.find path
  match node with
  | .directory => throw .isADirectory
  | .file .. => return system.erase location

/-- Makes a directory in a directory. -/
def createDirectory (system : FileSystem) (path : Path) : Except FileError FileSystem := do
  let location ← system.follow path (Path.trimIdle path.segments)
  match system.node? location with
  | some _ => throw .exists
  | none => return system.put location .directory

/-- Makes a directory unless it is there already. -/
def ensureDirectory (system : FileSystem) (path : Path) : Except FileError Unit × FileSystem :=
  match system.createDirectory path with
  | .ok system => (.ok (), system)
  | .error .exists => (if system.isDirectory path then .ok () else .error .exists, system)
  | .error error => (.error error, system)

/-- Makes the first directory of a list that goes outwards, and those further out
that it needs.  What was made stays also if a later step fails. -/
def ensureFirst (system : FileSystem) : List Path → Except FileError Unit × FileSystem
  | [] => (.ok (), system)
  | path :: above =>
      match system.ensureDirectory path with
      | (.error .notFound, system) =>
          match system.ensureFirst above with
          | (.ok (), system) => system.ensureDirectory path
          | failed => failed
      | result => result

/-- Makes a directory and those above it that are missing. -/
def createDirectories (system : FileSystem) (path : Path) : Except FileError Unit × FileSystem :=
  system.ensureFirst
    (path.ancestors.filter fun ancestor => ancestor.text ≠ "" ∧ ancestor.parent?.isSome)

/-- The order of a walk: by name within a directory, and a directory before what
is in it. -/
def precedes : Location → Location → Bool
  | [], _ => true
  | _ :: _, [] => false
  | left :: lefts, right :: rights =>
      if left = right then precedes lefts rights else decide (left < right)

/-- The files at and below a path, in the order of a walk that takes the nodes
of each directory by name, which is the order of their locations. -/
def walk (system : FileSystem) (path : Path) : Except FileError (List Path) := do
  let (top, _) ← system.find path
  let below := system.nodes.filter fun entry =>
    top.isPrefixOf entry.1 ∧ entry.2 ≠ .directory
  let sorted := below.mergeSort fun left right => precedes left.1 right.1
  return sorted.map fun entry => (entry.1.drop top.length).foldl (· / ·) path

end FileSystem

end ScriptBundle
