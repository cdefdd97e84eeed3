import ScriptBundle.Artifact.Error
import ScriptBundle.Artifact.Image
import ScriptBundle.Config.Document
import ScriptBundle.Diagnostics
import ScriptBundle.Script.Engine

/-!
# Building artifacts

A plan says what goes into an artifact beside the program.  Carrying it out first
encodes the block, then copies the stub to the output path, and then turns the
copy into the artifact.  If that last step fails, the output is removed.
-/

namespace ScriptBundle

structure BuildPlan where
  config : BuildConfig
  cipher : Cipher
  /-- Where stubs are looked for if the settings do not say. -/
  bundledStubs : Path
  properties : PropertyTable := .baseline
  /-- The plugin records, which stand in the block in front of the table. -/
  plugins : List Bytes
  /-- The resource records, which stand in front of the block. -/
  resources : List Bytes := []

/-- What a successful build made. -/
structure BuildReport where
  output : Path
  platform : Platform
  stub : Path
  /-- The length of the stub, where the data section starts. -/
  sectionOffset : Nat
  /-- The number of bytes behind the stub. -/
  appended : Nat
  /-- The length of the block before it was compressed. -/
  encodedLength : Nat
  blockLength : Nat
  debug : Bool
  deriving DecidableEq, Repr

/-- The message of success of a build that took so long. -/
def BuildReport.successMessage (report : BuildReport) (milliseconds : Nat) : String :=
  (if report.debug then "Debug" else "Release") ++
    s!" build succeeded in {milliseconds}ms, saved to {report.output}"

namespace BuildPlan

/-- A plan with the records of the configured plugins. -/
def ofConfig (config : BuildConfig) (cipher : Cipher) (bundledStubs : Path) : BuildPlan :=
  { config, cipher, bundledStubs
    plugins := config.plugins.map fun name => name.toUTF8.toList }

/-- The plan for settings, with the property table that they describe. -/
def ofSettings (config : PackConfig) (cipher : Cipher) (bundledStubs : Path) : BuildPlan :=
  { ofConfig config.build cipher bundledStubs with
    properties := .ofOptions config.scripting config.build.debug }

def platform (plan : BuildPlan) : Platform :=
  plan.config.targetPlatform

def stubPath (plan : BuildPlan) : Path :=
  plan.config.stubDir.getD plan.bundledStubs / plan.platform.stubFileName plan.config.stubVariant

def outputPath (plan : BuildPlan) (script : Path) : Path :=
  plan.platform.outputPath plan.config.compiledBasename script

/-- The content of the block: the plugin records, the property table and the
bytecode. -/
def content (plan : BuildPlan) (bytecode : Bytes) : Bytes :=
  Records.encode plan.plugins ++ plan.properties.encode ++ bytecode

/-- What a plan and a program come to. -/
structure Encoded where
  /-- The bytes of the data section. -/
  data : Bytes
  blockLength : Nat
  /-- The length of the content of the block. -/
  contentLength : Nat

/-- Encodes the block and the data section around it. -/
def encode (plan : BuildPlan) (program : ProgramSource) (output : Path) :
    Except BuildError Encoded := do
  if plan.properties.size ≠ EngineProperty.slotCount then
    throw (.propertyCount EngineProperty.slotCount plan.properties.size)
  let writer ←
    (BlockWriter.create plan.config.compressionLevel.toNat plan.cipher).mapError .codec
  let bytecode := program.bytecode (!plan.config.debug)
  if bytecode = [] then throw (.emptyBytecode output)
  let filled := writer.write (plan.content bytecode)
  let block ← filled.finish.mapError .codec
  let data ← (DataSection.encode { resources := plan.resources, block }).mapError .blockTooLong
  return { data, blockLength := block.length, contentLength := filled.written }

/-- Makes the directory of the output if it is missing. -/
def makeDirectory (system : FileSystem) (output : Path) : Except BuildError Unit × FileSystem :=
  match output.parent? with
  | none => (.ok (), system)
  | some directory =>
      if directory.text = "" then (.ok (), system)
      else
        let (outcome, system) := system.createDirectories directory
        (outcome.mapError (.write directory), system)

/-- Turns the copy of the stub at the output path into the artifact.  The outcome
is the length of the stub. -/
def finishImage (plan : BuildPlan) (system : FileSystem) (output : Path) (data : Bytes) :
    Except BuildError (Nat × FileSystem) := do
  let stub ← (system.read output).mapError (.write output)
  let image ← (Artifact.assemble plan.platform plan.config.console stub data).mapError
    (.patch output)
  let written ← (system.write output image).mapError (.write output)
  return (stub.length, written.setExecutable output)

/-- The number of bytes behind the stub. -/
def appendedLength (plan : BuildPlan) (data : Bytes) : Nat :=
  data.length + (if plan.platform.usesSectionTable then 0 else DataSection.trailerLength)

/-- Copies the stub and finishes the copy; a copy that cannot be finished is
removed. -/
def produce (plan : BuildPlan) (system : FileSystem) (output : Path) (encoded : Encoded) :
    Except BuildError BuildReport × FileSystem :=
  match system.copy plan.stubPath output with
  | .error error => (.error (.copy plan.stubPath output error), system)
  | .ok copied =>
      match plan.finishImage copied output encoded.data with
      | .error error => (.error error, (copied.removeFile output).toOption.getD copied)
      | .ok (sectionOffset, built) =>
          (.ok
            { output
              platform := plan.platform
              stub := plan.stubPath
              sectionOffset
              appended := plan.appendedLength encoded.data
              encodedLength := encoded.contentLength
              blockLength := encoded.blockLength
              debug := plan.config.debug }, built)

/-- Builds the artifact for a script. -/
def build (plan : BuildPlan) (system : FileSystem) (program : ProgramSource) (script : Path) :
    Except BuildError BuildReport × FileSystem :=
  let output := plan.outputPath script
  if !system.isFile plan.stubPath then (.error (.stubMissing plan.stubPath), system)
  else
    match plan.encode program output with
    | .error error => (.error error, system)
    | .ok encoded =>
        match makeDirectory system output with
        | (.error error, system) => (.error error, system)
        | (.ok (), system) => plan.produce system output encoded

/-- Builds the artifact for a script and adds a failure to the diagnostics. -/
def write (plan : BuildPlan) (system : FileSystem) (diagnostics : Diagnostics)
    (program : ProgramSource) (script : Path) :
    (Except BuildError BuildReport × Diagnostics) × FileSystem :=
  match plan.build system program script with
  | (.ok report, system) => ((.ok report, diagnostics), system)
  | (.error error, system) =>
      ((.error error, diagnostics.error script.text error.message), system)

end BuildPlan

end ScriptBundle
