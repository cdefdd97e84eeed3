import ScriptBundle.Artifact.Reader
import ScriptBundle.CommandLine.Style
import ScriptBundle.Json.Basic
import ScriptBundle.Text.Utf8

/-!
# Summaries of artifacts

The content of an artifact as text for a terminal, and as a JSON document.
-/

namespace ScriptBundle.CommandLine

structure Summary where
  path : Path
  platform : Platform
  sectionOffset : Nat
  blockLength : Nat
  bytecodeLength : Nat
  resourceSizes : List Nat
  plugins : List String
  properties : PropertyTable
  deriving DecidableEq, Repr

namespace Summary

def ofArtifact (path : Path) (platform : Platform) (artifact : DecodedArtifact) : Summary :=
  { path
    platform
    sectionOffset := artifact.sectionOffset
    blockLength := artifact.blockLength
    bytecodeLength := artifact.bytecode.length
    resourceSizes := artifact.resources.map List.length
    plugins := artifact.plugins.map Text.Utf8.decode
    properties := artifact.properties }

def toJson (summary : Summary) : Json :=
  .ofMembers
    [("path", .text summary.path.text),
     ("platform", .text summary.platform.name),
     ("section_offset", .number summary.sectionOffset),
     ("block_len", .number summary.blockLength),
     ("bytecode_len", .number summary.bytecodeLength),
     ("resource_sizes", .array (summary.resourceSizes.map .number)),
     ("plugins", .array (summary.plugins.map .text)),
     ("properties", .array (summary.properties.values.map fun value => .number value.toNat))]

/-- The properties whose value is not that of a fresh engine, or that the table
has no slot for. -/
def changed (table : PropertyTable) : List EngineProperty :=
  EngineProperty.all.filter fun property =>
    table.values[property.index]? ≠ some property.default

/-- The lines about the resources. -/
def resourceLines (summary : Summary) : List String :=
  summary.resourceSizes.mapIdx fun position size => s!"    [{position}] {size} bytes"

def lines (summary : Summary) : List String :=
  let changed := changed summary.properties
  [s!"{Style.bold summary.path.text} ({summary.platform.name})",
   s!"  section offset  {Hexadecimal.render summary.sectionOffset}",
   s!"  block           {summary.blockLength} bytes",
   s!"  bytecode        {summary.bytecodeLength} bytes",
   s!"  resources       {summary.resourceSizes.length}"] ++
  summary.resourceLines ++
  [s!"  plugins         {summary.plugins.length}"] ++
  summary.plugins.map (fun plugin => s!"    {Style.cyan plugin}") ++
  [s!"  properties      {summary.properties.size} ({changed.length} non-default)"] ++
  changed.map fun property =>
    "    " ++ Style.yellow (property.name ++ "=" ++ toString (summary.properties.get property))

/-- The summary for a terminal, a line each. -/
def text (summary : Summary) : String :=
  String.join (summary.lines.map (· ++ "\n"))

/-- The summary as a document. -/
def document (summary : Summary) : String :=
  String.ofList (summary.toJson.pretty 0) ++ "\n"

end Summary

end ScriptBundle.CommandLine
