import ScriptBundle.Artifact.Error
import ScriptBundle.Artifact.Image
import ScriptBundle.Script.Engine

/-!
# Reading artifacts

A reader finds the data section of an artifact, decodes its block, and hands the
content to an engine or to somebody who only looks at it.  Everything but the
fetching of the image works on the bytes of the image.
-/

namespace ScriptBundle

structure ArtifactReader where
  path : Path
  /-- The platform that the artifact was built for. -/
  platform : Platform
  cipher : Cipher

/-- What stands in front of the bytecode, and the reader of the block behind it. -/
structure OpenedBlock where
  plugins : List Bytes
  properties : PropertyTable
  block : BlockReader

/-- What an engine has loaded. -/
structure LoadedArtifact where
  sectionOffset : Nat
  resources : List Bytes
  plugins : List Bytes
  /-- Whether the bytecode carries debug information. -/
  debug : Bool
  deriving DecidableEq, Repr

/-- Everything in an artifact. -/
structure DecodedArtifact where
  sectionOffset : Nat
  blockLength : Nat
  resources : List Bytes
  plugins : List Bytes
  properties : PropertyTable
  bytecode : Bytes
  deriving DecidableEq, Repr

namespace ArtifactReader

/-- The bytes of the artifact.  A directory can be opened but not read. -/
def image (reader : ArtifactReader) (system : FileSystem) : Except LoadError Bytes :=
  match system.find reader.path with
  | .error error => .error (.read reader.path error)
  | .ok (_, .file content _) => .ok content
  | .ok (_, .directory) =>
      if reader.platform.usesSectionTable then
        .error (.header reader.path (.file .isADirectory))
      else .error (.read reader.path .isADirectory)

/-- Where the data section of an image starts and ends. -/
def bounds (reader : ArtifactReader) (image : Bytes) : Except LoadError (Nat × Nat) :=
  (Artifact.bounds reader.platform image).mapError fun
    | .header error => .header reader.path (.image error)
    | .outOfRange offset length => .offsetOutOfRange offset length

/-- The offset of the data section of an image. -/
def locate (reader : ArtifactReader) (image : Bytes) : Except LoadError Nat :=
  (·.1) <$> reader.bounds image

/-- The data section of an image, and its offset. -/
def readSection (reader : ArtifactReader) (image : Bytes) :
    Except LoadError (Nat × DataSection) := do
  let (start, limit) ← reader.bounds image
  let content ← (DataSection.decode.read ((image.drop start).take (limit - start))).1.mapError
    (LoadError.ofFault .dataSection)
  return (start, content)

/-- Opens a block and reads what stands in front of the bytecode. -/
def openBlock (reader : ArtifactReader) (block : Bytes) (propertyCount : Nat) :
    Except LoadError OpenedBlock := do
  let block ← (BlockReader.ofBlock reader.cipher block).mapError .codec
  let (plugins, block) := block.decode Records.decode
  let plugins ← plugins.mapError (LoadError.ofFault .pluginRecords)
  let (properties, block) := block.decode (PropertyTable.decode propertyCount)
  let properties ← properties.mapError (LoadError.ofFault .propertyTable)
  return { plugins, properties, block }

/-- Everything in an image, whose property table has `propertyCount` slots. -/
def decode (reader : ArtifactReader) (image : Bytes) (propertyCount : Nat) :
    Except LoadError DecodedArtifact := do
  let (sectionOffset, content) ← reader.readSection image
  let opened ← reader.openBlock content.block propertyCount
  let (bytecode, drained) := opened.block.readAll
  if drained.failed then throw .damagedBytecode
  return {
    sectionOffset
    blockLength := content.block.length
    resources := content.resources
    plugins := opened.plugins
    properties := opened.properties
    bytecode }

/-- Hands the bytecode of an opened block to an engine.  From here on the block
counts the bytes of the bytecode alone. -/
def loadBytecode (block : BlockReader) (engine : Engine) : Except LoadError Bool × Engine :=
  let ((outcome, engine), stream) := engine.loadFrom block.resetCursor
  (outcome.mapError fun rejection =>
    .bytecodeRejected rejection.offset stream.cursor rejection.reason, engine)

/-- Loads an image into an engine: the stored properties first, then the program.
Properties that were set stay so also if the load fails later. -/
def load (reader : ArtifactReader) (image : Bytes) (engine : Engine) :
    Except LoadError LoadedArtifact × Engine :=
  match reader.readSection image with
  | .error error => (.error error, engine)
  | .ok (sectionOffset, content) =>
      match reader.openBlock content.block engine.properties.size with
      | .error error => (.error error, engine)
      | .ok opened =>
          match engine.properties.apply opened.properties with
          | (.error error, properties) =>
              (.error (.protocolMismatch error), { engine with properties })
          | (.ok (), properties) =>
              let (outcome, engine) := loadBytecode opened.block { engine with properties }
              (outcome.map fun debug =>
                { sectionOffset
                  resources := content.resources
                  plugins := opened.plugins
                  debug }, engine)

end ArtifactReader

end ScriptBundle
