import ScriptBundle.ByteStream
import ScriptBundle.Cipher
import ScriptBundle.Compression.Zlib

/-!
# Encoded blocks

An encoded block is compressed data under a cipher.  A writer collects data and
encodes it at the end; a reader undoes the cipher at once and then hands out the
data piece by piece.  A reader counts what it hands out, and it fails for good
when it is asked for more than a damaged stream gives.
-/

namespace ScriptBundle

/-- Why a block cannot be written or opened. -/
inductive CodecError where
  | invalidLevel (level : Nat)
  /-- The compressor failed after it had taken `written` bytes. -/
  | compress (written : Nat) (source : String)
  /-- The compressor could not end its stream. -/
  | finish (source : String)
  | cipherRejected (error : CipherError)
  deriving DecidableEq, Repr

namespace CodecError

def message : CodecError → String
  | .invalidLevel level => s!"Invalid compression level {level}, expected 0-9"
  | .compress written source => s!"Compression failed after {written} bytes: {source}"
  | .finish source => s!"Failed to finish compressed stream: {source}"
  | .cipherRejected error => "Cipher rejected bytecode block: " ++ error.message

end CodecError

/-- The highest compression level. -/
def maxLevel : Nat := 9

structure BlockWriter where
  level : Fin (maxLevel + 1)
  cipher : Cipher
  /-- The data accepted so far. -/
  content : Bytes

namespace BlockWriter

def create (level : Nat) (cipher : Cipher) : Except CodecError BlockWriter :=
  if hlevel : level < maxLevel + 1 then .ok { level := ⟨level, hlevel⟩, cipher, content := [] }
  else .error (.invalidLevel level)

def write (writer : BlockWriter) (data : Bytes) : BlockWriter :=
  { writer with content := writer.content ++ data }

/-- The number of bytes accepted so far. -/
def written (writer : BlockWriter) : Nat :=
  writer.content.length

/-- The block that holds everything written. -/
def finish (writer : BlockWriter) : Except CodecError Bytes :=
  (writer.cipher.encrypt (Compression.compress writer.level writer.content)).mapError
    .cipherRejected

end BlockWriter

structure BlockReader where
  /-- The data that can still be handed out. -/
  remaining : Bytes
  /-- Whether a defect follows the remaining data. -/
  damaged : Bool
  /-- The bytes handed out since the last reset. -/
  cursor : Nat
  /-- The bytes handed out in all. -/
  total : Nat
  failed : Bool
  deriving DecidableEq, Repr

namespace BlockReader

/-- The output that can be handed out.  The part of the window in which a broken
stream shows its defect is withheld; an input that merely ends early is not. -/
def readable (decompressed : Compression.Decompressed) : Bytes :=
  match decompressed.defect with
  | some .broken =>
      decompressed.output.take
        ((decompressed.output.length - 1) / Compression.windowSize * Compression.windowSize)
  | _ => decompressed.output

def ofDecompressed (decompressed : Compression.Decompressed) : BlockReader :=
  { remaining := readable decompressed
    damaged := decompressed.defect.isSome
    cursor := 0
    total := 0
    failed := false }

def ofBlock (cipher : Cipher) (block : Bytes) : Except CodecError BlockReader :=
  match cipher.decrypt block with
  | .ok compressed => .ok (ofDecompressed (Compression.decompress compressed))
  | .error error => .error (.cipherRejected error)

/-- The reader after it handed out `count` bytes and, if it was asked for more
than it had, met the end of its data. -/
def advance (reader : BlockReader) (count : Nat) (short : Bool) : BlockReader :=
  { reader with
    remaining := reader.remaining.drop count
    cursor := reader.cursor + count
    total := reader.total + count
    failed := reader.failed || short && reader.damaged }

/-- As many of `count` bytes as there are. -/
def read (reader : BlockReader) (count : Nat) : Bytes × BlockReader :=
  let taken := reader.remaining.take count
  (taken, reader.advance taken.length (taken.length < count))

instance : ByteStream BlockReader where
  read := read

/-- The size of the chunks in which a reader is drained. -/
def chunkLength : Nat := 32768

/-- Everything that is left, in chunks up to the first one that is short. -/
def readAll (reader : BlockReader) : Bytes × BlockReader :=
  match _hread : reader.read chunkLength with
  | (chunk, next) =>
      if chunk.length < chunkLength then (chunk, next)
      else
        let (others, last) := next.readAll
        (chunk ++ others, last)
termination_by reader.remaining.length
decreasing_by
  obtain ⟨rfl, rfl⟩ := Prod.mk.inj _hread
  simp only [advance, List.length_take, List.length_drop, chunkLength] at *
  omega

def resetCursor (reader : BlockReader) : BlockReader :=
  { reader with cursor := 0 }

/-- Whether a fault says that the input ended. -/
def isShortage (fault : Fault) : Bool :=
  fault.kind = .unexpectedEnd

/-- Runs a decoder on the data.  If the data ends too early in a damaged stream,
the stream is at fault. -/
def decode {α : Type} (reader : BlockReader) (decoder : Decoder α) :
    Except Fault α × BlockReader :=
  let (outcome, rest) := decoder.read reader.remaining
  let used := reader.remaining.length - rest.length
  match outcome with
  | .ok value => (.ok value, reader.advance used false)
  | .error fault =>
      if isShortage fault then
        (.error (if reader.damaged then .corruptStream else fault), reader.advance used true)
      else (.error fault, reader.advance used false)

end BlockReader

end ScriptBundle
