import ScriptBundle.Block
import ScriptBundle.Engine.Error
import ScriptBundle.Fault
import ScriptBundle.FileSystem
import ScriptBundle.PortableExecutable
import ScriptBundle.Script.Loading

/-!
# Why an artifact cannot be built or loaded

Each error has a message, and a chain of messages that leads from the error down
to its cause.
-/

namespace ScriptBundle

open PortableExecutable (ImageError)

inductive BuildError where
  | stubMissing (stub : Path)
  | copy (stub output : Path) (error : FileError)
  /-- The copied stub is no image that data can be appended to. -/
  | patch (output : Path) (error : ImageError)
  | emptyBytecode (output : Path)
  | blockTooLong (length : Nat)
  /-- The property table does not cover every property. -/
  | propertyCount (expected found : Nat)
  | codec (error : CodecError)
  | write (path : Path) (error : FileError)
  deriving DecidableEq, Repr

namespace BuildError

def message : BuildError → String
  | .stubMissing stub => s!"Launcher stub not found at {stub}"
  | .copy stub output error => s!"Failed to copy {stub} to {output}: {error.message}"
  | .patch output error => s!"Failed to patch executable header of {output}: {error.message}"
  | .emptyBytecode output => s!"Failed to retrieve bytecode while compiling {output}"
  | .blockTooLong length => s!"Bytecode block of {length} bytes exceeds the 4 GiB format limit"
  | .propertyCount expected found =>
      s!"Engine property table has {found} slots, expected {expected}"
  | .codec error => error.message
  | .write path error => s!"Failed to write {path}: {error.message}"

def chain (error : BuildError) : List String :=
  match error with
  | .copy _ _ cause | .write _ cause => [error.message, cause.message]
  | .patch _ cause => [error.message, cause.message]
  | _ => [error.message]

end BuildError

/-- Why the header of an image cannot be followed. -/
inductive HeaderError where
  | image (error : ImageError)
  | file (error : FileError)
  deriving DecidableEq, Repr

def HeaderError.message : HeaderError → String
  | .image error => error.message
  | .file error => error.message

/-- A part of an artifact that is made of records or numbers. -/
inductive ArtifactPart where
  | dataSection
  | pluginRecords
  | propertyTable
  deriving DecidableEq, Repr

def ArtifactPart.name : ArtifactPart → String
  | .dataSection => "data section"
  | .pluginRecords => "plugin records"
  | .propertyTable => "engine property table"

inductive LoadError where
  | read (path : Path) (error : FileError)
  | header (path : Path) (error : HeaderError)
  /-- No room for a data section is left at its offset. -/
  | offsetOutOfRange (offset length : Nat)
  /-- A part ends too early. -/
  | truncated (part : ArtifactPart)
  | malformed (part : ArtifactPart) (fault : Fault)
  /-- The compressed stream breaks within the bytecode. -/
  | damagedBytecode
  /-- The engine refuses the stored properties. -/
  | protocolMismatch (error : EngineError)
  /-- The loader counts `offset` bytes, the codec `cursor` bytes since the start
  of the bytecode. -/
  | bytecodeRejected (offset cursor : Nat) (reason : LoadFault)
  | codec (error : CodecError)
  deriving DecidableEq, Repr

namespace LoadError

/-- A decoding fault in a part. -/
def ofFault (part : ArtifactPart) (fault : Fault) : LoadError :=
  match fault.kind with
  | .unexpectedEnd => .truncated part
  | .invalidData => .malformed part fault

/-- What is said of a broken compressed stream. -/
def damageMessage : String := "corrupt compressed stream"

def message : LoadError → String
  | .read path error => s!"Failed to read {path}: {error.message}"
  | .header path error => s!"Invalid executable header in {path}: {error.message}"
  | .offsetOutOfRange offset length =>
      s!"Data section offset {offset} lies outside the {length}-byte image"
  | .truncated part => s!"Data section truncated while reading {part.name}"
  | .malformed part fault => s!"Malformed {part.name}: {fault.message}"
  | .damagedBytecode => s!"Malformed bytecode block: {damageMessage}"
  | .protocolMismatch error => s!"Engine protocol mismatch: {error.message}"
  | .bytecodeRejected offset cursor reason =>
      s!"Bytecode rejected at offset {offset} (cursor {cursor}): {reason.message}"
  | .codec error => error.message

def chain (error : LoadError) : List String :=
  match error with
  | .read _ cause => [error.message, cause.message]
  | .header _ cause => [error.message, cause.message]
  | .malformed _ cause => [error.message, cause.message]
  | .damagedBytecode => [error.message, damageMessage]
  | .protocolMismatch cause => [error.message, cause.message]
  | _ => [error.message]

end LoadError

end ScriptBundle
