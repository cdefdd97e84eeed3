import ScriptBundle.ByteStream
import ScriptBundle.Script.Encoding

/-!
# Loading programs

A loader takes a saved program off a stream: the length of the document byte by
byte, and the document in chunks.  It never asks for a byte behind the document.
-/

namespace ScriptBundle

/-- Why the loader of programs stops. -/
inductive LoadFault where
  | endOfBytecode
  | lengthOverflow
  | invalidProgram
  deriving DecidableEq, Repr

namespace LoadFault

def message : LoadFault → String
  | .endOfBytecode => "unexpected end of bytecode"
  | .lengthOverflow => "length prefix overflows"
  | .invalidProgram => "invalid program"

end LoadFault

/-- A loader reads from a stream and counts the bytes. -/
abbrev Loader (σ α : Type) := ExceptT LoadFault (StateM (Counted σ)) α

namespace Loader

/-- The outcome of a loader on a stream, and what it leaves of the stream. -/
def runOn {σ α : Type} (loader : Loader σ α) (stream : Counted σ) :
    Except LoadFault α × Counted σ :=
  (loader.run).run stream

variable {σ : Type} [ByteStream σ]

/-- Exactly `count` bytes.  The bytes of a stream that has fewer are counted. -/
def take (count : Nat) : Loader σ Bytes := ExceptT.mk fun stream =>
  let (bytes, after) := stream.read count
  (if bytes.length = count then .ok bytes else .error .endOfBytecode, after)

def byte : Loader σ UInt8 := do
  return (← take 1).headD 0

/-- Reads the length in front of a document, its groups from position `shift`
on.  A byte that follows a tenth group is refused once it is read. -/
def length : (groups : Nat) → (shift : Nat) → Loader σ Nat
  | 0, _ => do
      let _ ← byte
      throw .lengthOverflow
  | groups + 1, shift => do
      let byte ← byte
      let group := byte.toNat % 128 * Nat.pow 2 shift % UInt64.size
      if byte.toNat < 128 then return group
      else return group + (← length groups (shift + 7))

/-- The size of the chunks in which a document is read. -/
def chunkLength : Nat := 4096

/-- Reads a document in chunks. -/
def document (remaining : Nat) : Loader σ Bytes :=
  if remaining = 0 then pure []
  else do
    let chunk ← take (min remaining chunkLength)
    let rest ← document (remaining - min remaining chunkLength)
    return chunk ++ rest
termination_by remaining
decreasing_by
  rw [chunkLength]
  omega

/-- Reads a saved program. -/
def program : Loader σ Program := do
  let length ← length Varint.maxLength 0
  let document ← document length
  match (Json.parse? document).bind Program.ofJson? with
  | some program => return program
  | none => throw .invalidProgram

end Loader

end ScriptBundle
