import ScriptBundle.CommandLine.Arguments
import ScriptBundle.Engine.Property
import ScriptBundle.Path
import ScriptBundle.Text.Words

/-!
# Invocations

What the program can be asked to do: to pack a program, to show what is in an
artifact, to print the settings in force, or to print its version.
-/

namespace ScriptBundle.CommandLine

structure PackRequest where
  bytecode : Path
  /-- The script, which names the output; the bytecode file if absent. -/
  script : Option Path
  directives : List String
  output : Option String
  platform : Option String
  level : Option UInt32
  release : Bool
  console : Bool
  stubDir : Option Path
  resources : List Path
  resourceDir : Option Path
  quiet : Bool
  deriving DecidableEq, Repr

structure InspectRequest where
  artifact : Path
  platform : Option String
  /-- The number of slots in the stored property table. -/
  properties : Nat
  json : Bool
  deriving DecidableEq, Repr

inductive Command where
  | pack (request : PackRequest)
  | inspect (request : InspectRequest)
  | config
  | version
  deriving DecidableEq, Repr

structure Invocation where
  command : Command
  /-- The settings file. -/
  config : Option Path
  deriving DecidableEq, Repr

/-! ## The options of each command -/

/-- A path is never empty. -/
def isPath (text : String) : Bool :=
  text ≠ ""

def isText (_ : String) : Bool :=
  true

/-- The options that may stand anywhere. -/
def globalOptions : List OptionSpec :=
  [{ name := .verbose, long := "verbose", short := some 'v' },
   { name := .config, long := "config", short := some 'c', accepts := some isPath },
   { name := .help, long := "help", short := some 'h' }]

/-- The options in front of the command. -/
def topOptions : List OptionSpec :=
  { name := .version, long := "version", short := some 'V' } :: globalOptions

/-- The number of property slots that an option gives. -/
def slots? (text : String) : Option Nat :=
  Text.natBelow? UInt64.size text

def packOptions : List OptionSpec :=
  [{ name := .script, long := "script", short := some 's', accepts := some isPath },
   { name := .directive, long := "directive", short := some 'D', accepts := some isText,
     repeatable := true },
   { name := .output, long := "output", short := some 'o', accepts := some isText },
   { name := .platform, long := "platform", short := some 'p', accepts := some isText },
   { name := .level, long := "level", short := some 'l',
     accepts := some fun text => (Text.signedUint32? text).isSome },
   { name := .release, long := "release" },
   { name := .console, long := "console" },
   { name := .stubDir, long := "stub-dir", accepts := some isPath },
   { name := .resource, long := "resource", short := some 'r', accepts := some isPath,
     repeatable := true },
   { name := .resourceDir, long := "resource-dir", accepts := some isPath },
   { name := .quiet, long := "quiet", short := some 'q' }] ++ globalOptions

def inspectOptions : List OptionSpec :=
  [{ name := .platform, long := "platform", short := some 'p', accepts := some isText },
   { name := .properties, long := "properties",
     accepts := some fun text => (slots? text).isSome },
   { name := .json, long := "json" }] ++ globalOptions

/-! ## From options to requests -/

namespace Given

/-- Every value of an option. -/
def values (given : Given) (name : OptionName) : List String :=
  (given.filter (·.1 = name)).map (·.2)

def value? (given : Given) (name : OptionName) : Option String :=
  (values given name).head?

def path? (given : Given) (name : OptionName) : Option Path :=
  (value? given name).map Path.mk

def has (given : Given) (name : OptionName) : Bool :=
  (value? given name).isSome

end Given

/-- The one path among the words of a command. -/
def soleFile (words : List String) : Except Stop Path :=
  match words with
  | [word] => if isPath word then .ok ⟨word⟩ else .error .usage
  | _ => .error .usage

def readPack (arguments : List String) : Except Stop (Given × Command) := do
  let (given, words) ← readAll packOptions 1 ([], none) [] arguments
  let bytecode ← soleFile words
  return (given, .pack {
    bytecode
    script := Given.path? given .script
    directives := Given.values given .directive
    output := Given.value? given .output
    platform := Given.value? given .platform
    level := (Given.value? given .level).bind Text.signedUint32?
    release := Given.has given .release
    console := Given.has given .console
    stubDir := Given.path? given .stubDir
    resources := (Given.values given .resource).map Path.mk
    resourceDir := Given.path? given .resourceDir
    quiet := Given.has given .quiet })

def readInspect (arguments : List String) : Except Stop (Given × Command) := do
  let (given, words) ← readAll inspectOptions 1 ([], none) [] arguments
  let artifact ← soleFile words
  return (given, .inspect {
    artifact
    platform := Given.value? given .platform
    properties :=
      ((Given.value? given .properties).bind slots?).getD EngineProperty.slotCount
    json := Given.has given .json })

/-- Reads the arguments of a command that takes none of its own. -/
def readPlain (command : Command) (arguments : List String) : Except Stop (Given × Command) := do
  let (given, _) ← readAll globalOptions 0 ([], none) [] arguments
  return (given, command)

/-- Reads a command and its arguments. -/
def readCommand (name : String) (arguments : List String) : Except Stop (Given × Command) :=
  match name with
  | "pack" => readPack arguments
  | "inspect" => readInspect arguments
  | "config" => readPlain .config arguments
  | "version" => readPlain .version arguments
  | "help" =>
      if arguments = [] ∨
          arguments ∈ [["pack"], ["inspect"], ["config"], ["version"], ["help"]] then
        .error .help
      else .error .usage
  | _ => .error .usage

/-- Reads the arguments of the program.  A settings file given behind the command
wins over one in front of it. -/
def readInvocation (arguments : List String) : Except Stop Invocation := do
  match ← readToWord topOptions ([], none) arguments with
  | (_, none) => throw .usage
  | (before, some (name, rest)) =>
      let (behind, command) ← readCommand name rest
      return { command, config := (Given.path? behind .config).or (Given.path? before .config) }

end ScriptBundle.CommandLine
