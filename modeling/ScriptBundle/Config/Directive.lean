import ScriptBundle.Config.Build
import ScriptBundle.Text.Words

/-!
# Build directives

A directive is a line of text that changes one build setting: its first word
names the setting and the others, with single blanks between them, are its
argument.  A directive that is refused changes nothing.
-/

namespace ScriptBundle

inductive Directive where
  | include (directory : Path)
  | stub (variant : String)
  | plugin (name : String)
  /-- No basename if it was cleared. -/
  | compiledBasename (basename : Option String)
  /-- No platform if it is that of the host. -/
  | platform (platform : Option Platform)
  | bytecodeCompression (level : UInt32)
  | console
  deriving DecidableEq

namespace Directive

/-- Reads the argument of `compiled_basename`. -/
def basenameOf (argument : String) : Option String :=
  if argument = "*" then none else some argument

/-- Reads the argument of `platform`. -/
def platformOf (argument : String) : Except ConfigError (Option Platform) :=
  if argument = "auto" then .ok none
  else
    match Platform.parse argument with
    | .ok target => .ok (some target)
    | .error _ => .error (.unknownPlatform argument)

/-- Reads the argument of `bytecode_compression`. -/
def levelOf (argument : String) : Except ConfigError UInt32 :=
  match Text.uint32? argument with
  | some level =>
      if level.toNat ≤ maxLevel then .ok level else .error (.invalidCompression argument)
  | none => .error (.invalidCompression argument)

/-- The directive of a name and its argument, if there is one. -/
def ofWords? (name : String) (argument : Option String) : Except ConfigError (Option Directive) :=
  match name, argument with
  | "include", some argument => .ok (some (.include ⟨argument⟩))
  | "stub", some argument => .ok (some (.stub argument))
  | "plugin", some argument => .ok (some (.plugin argument))
  | "compiled_basename", some argument => .ok (some (.compiledBasename (basenameOf argument)))
  | "platform", some argument => (platformOf argument).map fun target => some (.platform target)
  | "bytecode_compression", some argument =>
      (levelOf argument).map fun level => some (.bytecodeCompression level)
  | "console", none => .ok (some .console)
  | _, _ => .ok none

def parse (text : String) : Except ConfigError Directive :=
  let (name, argument) :=
    match Text.words text with
    | [] => ("", none)
    | [name] => (name, none)
    | name :: argument => (name, some (" ".intercalate argument))
  match ofWords? name argument with
  | .ok (some directive) => .ok directive
  | .ok none => .error (.invalidDirective (Text.trim text))
  | .error error => .error error

end Directive

namespace BuildConfig

/-- Changes the setting that a directive names.  Include directories are searched
before those given earlier. -/
def apply (config : BuildConfig) : Directive → BuildConfig
  | .include directory => { config with includeDirs := directory :: config.includeDirs }
  | .stub variant => { config with stubVariant := some variant }
  | .plugin name => { config with plugins := config.plugins ++ [name] }
  | .compiledBasename basename => { config with compiledBasename := basename }
  | .platform platform => { config with platform }
  | .bytecodeCompression level => { config with compressionLevel := level }
  | .console => { config with console := true }

/-- Applies a line of text. -/
def applyText (config : BuildConfig) (text : String) : Except ConfigError Directive × BuildConfig :=
  match Directive.parse text with
  | .ok directive => (.ok directive, config.apply directive)
  | .error error => (.error error, config)

/-- Applies lines of text up to the first one that is refused. -/
def applyTexts (config : BuildConfig) :
    List String → Except ConfigError (List Directive) × BuildConfig
  | [] => (.ok [], config)
  | text :: texts =>
      match config.applyText text with
      | (.error error, config) => (.error error, config)
      | (.ok directive, config) =>
          match applyTexts config texts with
          | (.ok directives, config) => (.ok (directive :: directives), config)
          | (.error error, config) => (.error error, config)

end BuildConfig

end ScriptBundle
