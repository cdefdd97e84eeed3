import ScriptBundle.Block
import ScriptBundle.FileSystem
import ScriptBundle.Platform

/-!
# Build settings
-/

namespace ScriptBundle

structure BuildConfig where
  /-- The target; that of the host if absent. -/
  platform : Option Platform := none
  stubVariant : Option String := none
  /-- The output path without its extension. -/
  compiledBasename : Option String := none
  compressionLevel : UInt32 := 9
  /-- Whether Windows stubs are switched to the console subsystem. -/
  console : Bool := false
  /-- Whether debug information stays in the bytecode. -/
  debug : Bool := true
  /-- Further include directories, the first one searched first. -/
  includeDirs : List Path := []
  plugins : List String := []
  /-- Whether the message of success is left out. -/
  quiet : Bool := false
  stubDir : Option Path := none
  deriving DecidableEq, Inhabited

/-- Why settings cannot be read, written or changed. -/
inductive ConfigError where
  | file (error : FileError)
  /-- A settings file is not text. -/
  | notText
  | parse
  /-- A number does not fit in the settings file. -/
  | serialize
  | invalidDirective (text : String)
  | invalidCompression (level : String)
  | unknownPlatform (name : String)
  deriving DecidableEq, Repr

namespace ConfigError

def message : ConfigError → String
  | .file error => "IO error: " ++ error.message
  | .notText => "IO error: stream did not contain valid UTF-8"
  | .parse => "Config parse error"
  | .serialize => "Config serialize error"
  | .invalidDirective text => "Invalid directive '" ++ text ++ "'"
  | .invalidCompression level =>
      "Invalid bytecode compression level '" ++ level ++ "', expected 0-9"
  | .unknownPlatform name => "Unknown platform '" ++ name ++ "'"

/-- The messages from the error down to its cause. -/
def chain (error : ConfigError) : List String :=
  match error with
  | .file cause => [error.message, cause.message]
  | .notText => [error.message, "stream did not contain valid UTF-8"]
  | _ => [error.message]

end ConfigError

namespace BuildConfig

def targetPlatform (config : BuildConfig) : Platform :=
  config.platform.getD .host

/-- Refuses settings outside their range. -/
def validate (config : BuildConfig) : Except ConfigError Unit :=
  if config.compressionLevel.toNat ≤ maxLevel then .ok ()
  else .error (.invalidCompression (toString config.compressionLevel))

end BuildConfig

end ScriptBundle
