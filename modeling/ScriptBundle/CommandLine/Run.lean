import ScriptBundle.Artifact.Plan
import ScriptBundle.CommandLine.Invocation
import ScriptBundle.CommandLine.Summary
import ScriptBundle.Config.Directive
import ScriptBundle.Config.Files

/-!
# Running the program

The program as a function of its arguments and of the files and variables around
it.
-/

namespace ScriptBundle.CommandLine

def programName : String := "launchpack"

def programVersion : String := "0.5.7"

/-- What the program finds around it. -/
structure Surroundings where
  environment : Environment
  /-- The directory of the program itself. -/
  home : Path
  /-- A nonce that was never used before. -/
  nonce : Bytes

namespace Surroundings

def cipher (surroundings : Surroundings) : Cipher :=
  .authenticated Cipher.defaultKey surroundings.nonce

end Surroundings

/-- What a run of the program comes to. -/
structure Outcome where
  exitCode : UInt8 := 0
  /-- The text on the standard output. -/
  output : String := ""
  /-- The text on the standard error stream. -/
  errors : String := ""
  /-- The build to tell of. -/
  built : Option BuildReport := none

/-- Why a command fails. -/
structure Failure where
  /-- What is shown before the error itself. -/
  report : Option Report := none
  /-- The messages from the error down to its cause. -/
  chain : List String

namespace Failure

/-- The text of the report and of the error. -/
def text (failure : Failure) : String :=
  let shown :=
    match failure.report with
    | some report => Style.bold (Style.red report.title) ++ "\n" ++ report.body
    | none => ""
  shown ++ Style.bold (Style.red "error:") ++ " " ++ ": ".intercalate failure.chain ++ "\n"

end Failure

/-- Puts what was being done in front of an error. -/
def during (doing : String) (chain : List String) : Failure :=
  { chain := doing :: chain }

/-- The settings in force. -/
def effectiveConfig (surroundings : Surroundings) (system : FileSystem) (path : Option Path) :
    Except Failure PackConfig :=
  match path with
  | some path =>
      (PackConfig.load system path).mapError fun error =>
        during s!"Failed to load config: {path}" error.chain
  | none =>
      (PackConfig.loadProject system surroundings.environment system.workingPath).mapError
        fun error => during "Failed to load config" error.chain

/-- Applies a directive that stands for an option. -/
def applyOption (config : BuildConfig) (name : String) (value : Option String) :
    Except Failure BuildConfig :=
  match value with
  | none => .ok config
  | some value =>
      match config.applyText (name ++ " " ++ value) with
      | (.ok _, config) => .ok config
      | (.error error, _) => .error { chain := error.chain }

/-- The build settings with the options of a request on top. -/
def requestedConfig (config : BuildConfig) (request : PackRequest) :
    Except Failure BuildConfig := do
  let config ←
    match config.applyTexts request.directives with
    | (.ok _, config) => .ok config
    | (.error error, _) => .error (during "Invalid build directive" error.chain)
  let config ← applyOption config "compiled_basename" request.output
  let config ← applyOption config "platform" request.platform
  let config ← applyOption config "bytecode_compression" (request.level.map toString)
  return { config with
    console := config.console || request.console
    debug := config.debug && !request.release
    quiet := config.quiet || request.quiet
    stubDir := request.stubDir.or config.stubDir }

/-- The resource files of a request: those named one by one, then those found in
the directory. -/
def resourceFiles (system : FileSystem) (request : PackRequest) : Except Failure (List Path) :=
  match request.resourceDir with
  | none => .ok request.resources
  | some directory =>
      match system.walk directory with
      | .ok files => .ok (request.resources ++ files)
      | .error error =>
          .error (during s!"Failed to walk {directory}"
            [s!"IO error for operation on {directory}: {error.message}", error.message])

/-- The content of a file that a request names. -/
def readFile (system : FileSystem) (role : String) (path : Path) : Except Failure Bytes :=
  (system.read path).mapError fun error =>
    during s!"Failed to read {role}: {path}" [error.message]

/-- The plan and the program of a request. -/
def planPack (surroundings : Surroundings) (system : FileSystem) (config : Option Path)
    (request : PackRequest) : Except Failure (BuildPlan × ProgramSource) := do
  let config ← effectiveConfig surroundings system config
  let build ← requestedConfig config.build request
  let bytecode ← readFile system "bytecode" request.bytecode
  let files ← resourceFiles system request
  let resources ← files.mapM (readFile system "resource")
  let stubs := stubDirectory system.pathExists surroundings.home
  let plan := BuildPlan.ofSettings { config with build } surroundings.cipher stubs
  return ({ plan with resources }, .compiled bytecode)

def runPack (surroundings : Surroundings) (system : FileSystem) (config : Option Path)
    (request : PackRequest) : Except Failure Outcome × FileSystem :=
  match planPack surroundings system config request with
  | .error failure => (.error failure, system)
  | .ok (plan, program) =>
      match plan.write system {} program (request.script.getD request.bytecode) with
      | ((.ok report, _), system) =>
          (.ok { built := if plan.config.quiet then none else some report }, system)
      | ((.error error, diagnostics), system) =>
          (.error
            { report := (diagnostics.report true).1
              chain := "Build failed" :: error.chain }, system)

def runInspect (surroundings : Surroundings) (system : FileSystem) (request : InspectRequest) :
    Except Failure Outcome := do
  let platform ←
    match request.platform with
    | none => .ok Platform.host
    | some name =>
        (Platform.parse name).mapError fun lowered =>
          { chain := [Platform.unknownMessage lowered] }
  let reader : ArtifactReader :=
    { path := request.artifact, platform, cipher := surroundings.cipher }
  let decoded := reader.image system >>= fun image => reader.decode image request.properties
  let artifact ← decoded.mapError fun error =>
    during s!"Failed to read {request.artifact}" error.chain
  let summary := Summary.ofArtifact request.artifact platform artifact
  return { output := if request.json then summary.document else summary.text }

def runConfig (surroundings : Surroundings) (system : FileSystem) (config : Option Path) :
    Except Failure Outcome := do
  let config ← effectiveConfig surroundings system config
  let text ← config.document.mapError fun error => { chain := error.chain }
  return { output := text }

/-- The version line. -/
def versionLine : String :=
  programName ++ " " ++ programVersion ++ "\n"

def runInvocation (surroundings : Surroundings) (system : FileSystem) (invocation : Invocation) :
    Except Failure Outcome × FileSystem :=
  match invocation.command with
  | .pack request => runPack surroundings system invocation.config request
  | .inspect request => (runInspect surroundings system request, system)
  | .config => (runConfig surroundings system invocation.config, system)
  | .version => (.ok { output := versionLine }, system)

/-- How the program is used. -/
def usage : String :=
  "Usage: launchpack [OPTIONS] <COMMAND>\n\n" ++
  "Commands:\n" ++
  "  pack     Pack a compiled bytecode file into an executable\n" ++
  "  inspect  Show the data section of a packed executable\n" ++
  "  config   Print the effective configuration\n" ++
  "  version  Print version information\n" ++
  "  help     Print this message\n\n" ++
  "Options:\n" ++
  "  -v, --verbose        Enable verbose output\n" ++
  "  -c, --config <FILE>  Configuration file\n" ++
  "  -h, --help           Print help\n" ++
  "  -V, --version        Print version\n"

/-- Runs the program.  The exit code is 1 for a failure and 2 for arguments that
cannot be understood. -/
def run (surroundings : Surroundings) (system : FileSystem) (arguments : List String) :
    Outcome × FileSystem :=
  match readInvocation arguments with
  | .error .usage => ({ exitCode := 2, errors := usage }, system)
  | .error .help => ({ output := usage }, system)
  | .error .version => ({ output := versionLine }, system)
  | .ok invocation =>
      match runInvocation surroundings system invocation with
      | (.ok outcome, system) => (outcome, system)
      | (.error failure, system) => ({ exitCode := 1, errors := failure.text }, system)

end ScriptBundle.CommandLine
