import ScriptBundle.Config.Document
import ScriptBundle.Text.Utf8

/-!
# Settings files

The settings of a project stand in a file in its directory, else in a file of the
user, else they are the defaults.
-/

namespace ScriptBundle

/-- The variables of the environment that tell where a user keeps settings. -/
structure Environment where
  configHome : Option String := none
  home : Option String := none
  appData : Option String := none
  deriving DecidableEq, Repr, Inhabited

namespace Environment

/-- The directory of the user's settings. -/
def configDirectory (environment : Environment) : Option Path :=
  match environment.configHome, environment.home, environment.appData with
  | some directory, _, _ => some (Path.mk directory / "launchpack")
  | none, some directory, _ => some (Path.mk directory / ".config" / "launchpack")
  | none, none, some directory => some (Path.mk directory / "launchpack")
  | none, none, none => none

end Environment

/-- The settings file of a project. -/
def projectConfigFile : String := "launchpack.toml"

namespace PackConfig

/-- The settings in a file.  A file that is missing holds the defaults. -/
def load (system : FileSystem) (path : Path) : Except ConfigError PackConfig :=
  if !system.pathExists path then .ok {}
  else
    match system.read path with
    | .error error => .error (.file error)
    | .ok content =>
        match Text.Utf8.decode? content with
        | none => .error .notText
        | some text =>
            match ofDocument? text with
            | none => .error .parse
            | some config => config.build.validate.map fun _ => config

/-- The settings of the project in a directory. -/
def loadProject (system : FileSystem) (environment : Environment) (directory : Path) :
    Except ConfigError PackConfig :=
  let project := directory / projectConfigFile
  if system.pathExists project then load system project
  else
    match environment.configDirectory with
    | some directory => load system (directory / "config.toml")
    | none => .ok {}

/-- Makes the directory of a file if it is missing. -/
def makeDirectory (system : FileSystem) (path : Path) : Except FileError Unit × FileSystem :=
  match path.parent? with
  | some directory =>
      if directory.text ≠ "" ∧ !system.pathExists directory then system.createDirectories directory
      else (.ok (), system)
  | none => (.ok (), system)

/-- Writes settings to a file. -/
def save (config : PackConfig) (system : FileSystem) (path : Path) :
    Except ConfigError Unit × FileSystem :=
  match makeDirectory system path with
  | (.error error, system) => (.error (.file error), system)
  | (.ok (), system) =>
      match config.document with
      | .error error => (.error error, system)
      | .ok text =>
          match system.write path text.toUTF8.toList with
          | .error error => (.error (.file error), system)
          | .ok system => (.ok (), system)

end PackConfig

end ScriptBundle
