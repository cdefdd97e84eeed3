/-!
# Byte strings and decoders

A byte string is a list of bytes.  A decoder takes what it recognises off the
front of one and leaves the rest, also when it fails, so the number of bytes it
used is always known.  What can stop a decoder is listed by cause in `Fault`.
-/

namespace ScriptBundle

abbrev Bytes := List UInt8

/-- The number written by `bytes`, least significant byte first. -/
def littleEndianValue : Bytes → Nat
  | [] => 0
  | byte :: rest => byte.toNat + 256 * littleEndianValue rest

/-- The lowest `width` bytes of `value`, least significant byte first. -/
def littleEndian : (width value : Nat) → Bytes
  | 0, _ => []
  | width + 1, value => UInt8.ofNat value :: littleEndian width (value / 256)

@[simp]
theorem littleEndian_length (width value : Nat) :
    (littleEndian width value).length = width := by
  induction width generalizing value with
  | zero => rfl
  | succ width ih => simp [littleEndian, ih]

/-- `bytes` with `patch` written at `offset`, filled up with zeros where the
patch starts past the end. -/
def overwrite (bytes : Bytes) (offset : Nat) (patch : Bytes) : Bytes :=
  bytes.take offset ++ List.replicate (offset - bytes.length) 0 ++ patch ++
    bytes.drop (offset + patch.length)

/-- What stops a decoder. -/
inductive Fault where
  /-- The input ends inside a fixed-size item. -/
  | endOfInput
  /-- A variable-length integer does not fit in 64 bits. -/
  | integerOverflow
  /-- A list announces more records than `Records.maxCount`. -/
  | tooManyRecords (count : Nat)
  /-- A record announces more bytes than `Records.maxLength`. -/
  | recordTooLong (length : Nat)
  /-- The input ends inside a record. -/
  | recordCut
  /-- The stored length of a block is no 32-bit word. -/
  | lengthOutOfRange (stored : Nat)
  /-- The input ends inside a block. -/
  | blockCut (held expected : Nat)
  /-- The compressed stream that feeds the decoder is broken. -/
  | corruptStream
  deriving DecidableEq, Repr

/-- The two classes of decoding faults. -/
inductive Fault.Kind where
  | unexpectedEnd
  | invalidData
  deriving DecidableEq, Repr

def Fault.kind : Fault → Fault.Kind
  | .endOfInput | .recordCut | .blockCut .. => .unexpectedEnd
  | .integerOverflow | .tooManyRecords _ | .recordTooLong _ | .lengthOutOfRange _
  | .corruptStream => .invalidData

/-- A decoder reads a value off the front of its input. -/
abbrev Decoder (α : Type) := ExceptT Fault (StateM Bytes) α

namespace Decoder

/-- The outcome of a decoder on `bytes`, and the bytes it did not use. -/
def read {α : Type} (decoder : Decoder α) (bytes : Bytes) : Except Fault α × Bytes :=
  (decoder.run).run bytes

/-- One byte. -/
def byte : Decoder UInt8 := ExceptT.mk fun bytes =>
  match bytes with
  | [] => (.error .endOfInput, [])
  | first :: rest => (.ok first, rest)

/-- Exactly `count` bytes.  A shorter input is used up, and `short` turns the
number of bytes it held into the fault. -/
def takeOr (count : Nat) (short : Nat → Fault) : Decoder Bytes := ExceptT.mk fun bytes =>
  let taken := bytes.take count
  if taken.length = count then (.ok taken, bytes.drop count)
  else (.error (short taken.length), [])

/-- Exactly `count` bytes of a fixed-size item. -/
def take (count : Nat) : Decoder Bytes :=
  takeOr count fun _ => .endOfInput

/-- `count` items, one after the other. -/
def times {α : Type} (item : Decoder α) : (count : Nat) → Decoder (List α)
  | 0 => pure []
  | count + 1 => do
      let first ← item
      let rest ← times item count
      return first :: rest

/-- A little-endian word of `width` bytes. -/
def word (width : Nat) : Decoder Nat :=
  littleEndianValue <$> take width

end Decoder

end ScriptBundle
