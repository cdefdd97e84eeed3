import ScriptBundle.Artifact.Reader
import ScriptBundle.Streaming.Reader

/-!
# Decoding from a stream

The parts of a block are decoded while it is decompressed.  A decoder asks the
stream for bytes by input and output, and a defect of the stream reaches it as an
error only if nothing came before the defect; otherwise it gets fewer bytes than it
asked for, and has to ask again to learn why.
-/

namespace ScriptBundle

/-- A decoder that takes what it recognises off a stream. -/
abbrev StreamDecoder (τ α : Type) := ExceptT Fault (StateM (StreamReader τ)) α

namespace StreamDecoder

variable {τ α : Type}

/-- The outcome of a decoder on a stream, and what it leaves of the stream. -/
def runOn (decoder : StreamDecoder τ α) (stream : StreamReader τ) :
    Except Fault α × StreamReader τ :=
  (decoder.run).run stream

/-- Exactly `count` bytes, gathered in portions.  If there are fewer, `short` turns
their number into the fault. -/
def takeOr (ask : Nat → Nat) (count : Nat) (short : Nat → Fault) : StreamDecoder τ Bytes :=
  ExceptT.mk fun stream =>
    match stream.gather ask count with
    | (.error fault, next) => (.error fault, next)
    | (.ok bytes, next) =>
        (if bytes.length = count then .ok bytes else .error (short bytes.length), next)

/-- Exactly `count` bytes of a fixed-size item, all asked for at once. -/
def take (count : Nat) : StreamDecoder τ Bytes :=
  takeOr id count fun _ => .endOfInput

def byte : StreamDecoder τ UInt8 := do
  return (← take 1).headD 0

/-- `count` items, one after the other. -/
def times (item : StreamDecoder τ α) : (count : Nat) → StreamDecoder τ (List α)
  | 0 => pure []
  | count + 1 => do
      let first ← item
      let rest ← times item count
      return first :: rest

/-- Reads at most `groups` groups of an integer. -/
def groups : (groups : Nat) → StreamDecoder τ Nat
  | 0 => throw .integerOverflow
  | more + 1 => do
      let byte ← byte
      let group := byte.toNat % 128
      if more = 0 ∧ 1 < group then throw .integerOverflow
      else if byte.toNat < 128 then return group
      else return group + 128 * (← groups more)

/-- One integer below `2 ^ 64`. -/
def varint : StreamDecoder τ Nat := groups Varint.maxLength

def record (ask : Nat → Nat) : StreamDecoder τ Bytes := do
  let length ← varint
  if Records.maxLength < length then throw (.recordTooLong length)
  else takeOr ask length fun _ => .recordCut

def records (ask : Nat → Nat) : StreamDecoder τ (List Bytes) := do
  let count ← varint
  if Records.maxCount < count then throw (.tooManyRecords count)
  else (record ask).times count

/-- A table of exactly `count` slots. -/
def propertyTable (count : Nat) : StreamDecoder τ PropertyTable := do
  let values ← varint.times count
  return ⟨values.map UInt64.ofNat⟩

end StreamDecoder

/-- What stands in front of the bytecode, and the stream of what is behind it. -/
structure OpenedStream (τ : Type) where
  plugins : List Bytes
  properties : PropertyTable
  stream : StreamReader τ

namespace ArtifactReader

variable {τ : Type}

/-- Opens the stream of a block and reads what stands in front of the bytecode, the
records in portions. -/
def openStream (reader : ArtifactReader) (inflater : Inflater τ) (ask : Nat → Nat) (block : Bytes)
    (propertyCount : Nat) : Except LoadError (OpenedStream τ) := do
  let stream ← (StreamReader.ofBlock inflater reader.cipher block).mapError .codec
  let (plugins, stream) := (StreamDecoder.records ask).runOn stream
  let plugins ← plugins.mapError (LoadError.ofFault .pluginRecords)
  let (properties, stream) := (StreamDecoder.propertyTable propertyCount).runOn stream
  let properties ← properties.mapError (LoadError.ofFault .propertyTable)
  return { plugins, properties, stream }

/-- Everything in an image, decoded from the stream of its block. -/
def decodeStream (reader : ArtifactReader) (inflater : Inflater τ) (ask : Nat → Nat)
    (image : Bytes) (propertyCount : Nat) : Except LoadError DecodedArtifact := do
  let (sectionOffset, content) ← reader.readSection image
  let opened ← reader.openStream inflater ask content.block propertyCount
  let (bytecode, drained) := opened.stream.readRemaining
  if drained.failed then throw .damagedBytecode
  return {
    sectionOffset
    blockLength := content.block.length
    resources := content.resources
    plugins := opened.plugins
    properties := opened.properties
    bytecode }

end ArtifactReader

end ScriptBundle
