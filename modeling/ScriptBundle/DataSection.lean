import ScriptBundle.Records

/-!
# The appended data section

The section that follows the stub image holds the resource records as they are
and then the encoded block.  The length of the block is stored under a fixed
mask, so that a damaged length is absurd and fails the load early.
-/

namespace ScriptBundle

structure DataSection where
  /-- Raw resource records, owned by the resource embedder. -/
  resources : List Bytes
  /-- The encoded block as the codec produced it. -/
  block : Bytes
  deriving DecidableEq, Repr, Inhabited

namespace DataSection

/-- The mask on the stored block length. -/
def lengthMask : Nat := 0x4C504B31

/-- Size of the trailer that names the start of the section on platforms
without a section table. -/
def trailerLength : Nat := 8

/-- What stands between the resources and the block. -/
def encodeLength (length : Nat) : Bytes :=
  Varint.encode (length ^^^ lengthMask)

/-- The bytes of the section.  A block whose length is no 32-bit word is
refused with that length. -/
def encode (content : DataSection) : Except Nat Bytes :=
  if content.block.length < UInt32.size then
    .ok (Records.encode content.resources ++ encodeLength content.block.length ++ content.block)
  else .error content.block.length

def decodeLength : Decoder Nat := do
  let stored ← Varint.decode
  if stored < UInt32.size then return stored ^^^ lengthMask
  else throw (.lengthOutOfRange stored)

def decode : Decoder DataSection := do
  let resources ← Records.decode
  let length ← decodeLength
  let block ← Decoder.takeOr length fun held => .blockCut held length
  return { resources, block }

end DataSection

end ScriptBundle
