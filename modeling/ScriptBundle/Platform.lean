import ScriptBundle.Path

/-!
# Target platforms

Each platform has launcher stubs named after it, and a rule for the name of the
artifact that is built from a script.
-/

namespace ScriptBundle

inductive Platform where
  | windows
  | linux
  | mac
  deriving DecidableEq, Repr, Inhabited

namespace Platform

/-- The platform this program runs on. -/
def host : Platform := .linux

def name : Platform → String
  | .windows => "windows"
  | .linux => "linux"
  | .mac => "mac"

/-- Whether the start of the data section follows from the section table of the
image instead of a trailer. -/
def usesSectionTable (platform : Platform) : Bool :=
  platform = .windows

/-- Reads a platform name without regard to the case of its ASCII letters.  A
name that is not known is given back in lower case. -/
def parse (text : String) : Except String Platform :=
  let lowered := text.map Char.toLower
  if lowered = "windows" ∨ lowered = "win" then .ok .windows
  else if lowered = "linux" then .ok .linux
  else if lowered = "mac" ∨ lowered = "macos" then .ok .mac
  else .error lowered

/-- The wording for a name that is no platform. -/
def unknownMessage (lowered : String) : String :=
  "unknown platform '" ++ lowered ++ "'"

/-- An option whose empty text counts as absent. -/
def nonempty? (option : Option String) : Option String :=
  option.filter (· ≠ "")

/-- The file name of the launcher stub. -/
def stubFileName (platform : Platform) (variant : Option String) : String :=
  match nonempty? variant with
  | some variant => "launchpack_" ++ platform.name ++ "_" ++ variant ++ ".bin"
  | none => "launchpack_" ++ platform.name ++ ".bin"

/-- Where the artifact for `script` is written.  A basename wins over the
script, and Windows artifacts have the extension `exe`. -/
def outputPath (platform : Platform) (basename : Option String) (script : Path) : Path :=
  let chosen :=
    match nonempty? basename with
    | some basename => Path.mk basename
    | none => script.withoutExtension
  if platform = .windows then chosen.withExtension "exe" else chosen

end Platform

/-- Where the stubs of an executable in `directory` are looked for.  Inside a
macOS bundle they are in its resources instead of beside the executable. -/
def stubDirectory (pathExists : Path → Bool) (directory : Path) : Path :=
  let beside := directory / "stub"
  if pathExists beside then beside
  else
    match directory.components.reverse, directory.parent? with
    | "MacOS" :: "Contents" :: _, some contents => contents / "Resources" / "stub"
    | _, _ => beside

end ScriptBundle
