import ScriptBundle.CommandLine.Run

/-!
# The executable

The program runs on a picture of the files it may touch.  This module takes the
picture, and afterwards carries over to the disk what the run has changed.
-/

namespace ScriptBundle.Main

open CommandLine

/-- Adds what stands at a path to the picture: a file, a directory, or a
directory with all that is in it if `deep`. -/
partial def add (deep : Bool) (system : FileSystem) (path : Path) : IO FileSystem := do
  let place := (← IO.currentDir) / path.text
  if path.text = "" ∨ !(← place.pathExists) then return system
  if ← place.isDir then
    let system := (system.createDirectories path).2
    if !deep then return system
    (← place.readDir).foldlM (fun system entry => add deep system (path / entry.fileName)) system
  else
    let content ← IO.FS.readBinFile place
    let system := ((path.parent?.map fun above => (system.createDirectories above).2)).getD system
    return (system.write path content.toList).toOption.getD system

/-- Adds what stands at a path and at the paths above it. -/
def addLine (system : FileSystem) (path : Path) : IO FileSystem :=
  path.ancestors.reverse.foldlM (add false) system

/-- The paths that an invocation names, and where settings are looked for. -/
def namedPaths (surroundings : Surroundings) (invocation : Invocation) : List Path :=
  let settings :=
    [some ⟨projectConfigFile⟩, invocation.config,
      surroundings.environment.configDirectory.map (· / "config.toml")].filterMap id
  match invocation.command with
  | .pack request => request.bytecode :: request.resources ++ settings
  | .inspect request => [request.artifact]
  | _ => settings

/-- Adds the stub and the output of a build. -/
def addBuild (surroundings : Surroundings) (system : FileSystem) (invocation : Invocation) :
    IO FileSystem := do
  match invocation.command with
  | .pack request =>
      let system ← request.resourceDir.toList.foldlM (add true) system
      let system ← addLine system (surroundings.home / "stub")
      let system ← addLine system (surroundings.home / "../Resources/stub")
      match planPack surroundings system invocation.config request with
      | .ok (plan, _) =>
          [plan.stubPath, plan.outputPath (request.script.getD request.bytecode)].foldlM addLine
            system
      | .error _ => return system
  | _ => return system

/-- The picture of the files that the arguments concern. -/
def picture (surroundings : Surroundings) (arguments : List String) : IO FileSystem := do
  let names := (Path.mk (← IO.currentDir).toString).components.filter (· ≠ "/")
  let system := FileSystem.empty names
  match readInvocation arguments with
  | .ok invocation =>
      let system ← (namedPaths surroundings invocation).foldlM addLine system
      addBuild surroundings system invocation
  | .error _ => return system

/-- The access rights of a program. -/
def programRights : IO.FileRight :=
  let others : IO.AccessRight := { read := true, execution := true }
  { user := { read := true, write := true, execution := true }, group := others, other := others }

/-- Carries the differences between two pictures over to the disk. -/
def commit (before after : FileSystem) : IO Unit := do
  for (location, node) in after.nodes.reverse do
    if before.node? location ≠ some node then
      let place := (FileSystem.absolutePath location).text
      match node with
      | .directory => IO.FS.createDirAll place
      | .file content executable =>
          IO.FS.writeBinFile place (ByteArray.mk content.toArray)
          if executable then IO.setAccessRights place programRights
  for (location, _) in before.nodes do
    if after.node? location = none then
      IO.FS.removeFile (FileSystem.absolutePath location).text

def surroundings : IO Surroundings := do
  let environment : Environment :=
    { configHome := ← IO.getEnv "XDG_CONFIG_HOME"
      home := ← IO.getEnv "HOME"
      appData := ← IO.getEnv "APPDATA" }
  let nonce ← IO.getRandomBytes (USize.ofNat Cipher.nonceLength)
  return { environment, home := ⟨(← IO.appDir).toString⟩, nonce := nonce.toList }

end ScriptBundle.Main

def main (arguments : List String) : IO UInt32 := do
  let started ← IO.monoMsNow
  let surroundings ← ScriptBundle.Main.surroundings
  let before ← ScriptBundle.Main.picture surroundings arguments
  let (outcome, after) := ScriptBundle.CommandLine.run surroundings before arguments
  ScriptBundle.Main.commit before after
  if let some report := outcome.built then
    IO.eprintln (report.successMessage ((← IO.monoMsNow) - started))
  IO.print outcome.output
  IO.eprint outcome.errors
  return outcome.exitCode.toUInt32
