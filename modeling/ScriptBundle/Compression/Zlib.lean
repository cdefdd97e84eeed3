import ScriptBundle.Compression.Deflate
import ScriptBundle.Compression.Inflate

/-!
# Compressed streams with a checksum

The stream has a header of two bytes, the compressed blocks and the checksum of
the data.  What follows the checksum is not looked at.
-/

namespace ScriptBundle.Compression

/-- The modulus of the checksum. -/
def checksumModulus : Nat := 65521

/-- The checksum of data: the sum of its bytes and the sum of these sums. -/
def checksum (data : Bytes) : Nat :=
  let (first, second) := data.foldl
    (fun (sums : Nat × Nat) byte =>
      let first := (sums.1 + byte.toNat) % checksumModulus
      (first, (sums.2 + first) % checksumModulus))
    (1, 0)
  65536 * second + first

/-- Output that decompression gives, and the defect it met after it, if any. -/
structure Decompressed where
  output : Bytes
  defect : Option Defect
  deriving DecidableEq, Repr

/-- Whether two bytes start a stream: the method and window of the first byte
are known, no preset dictionary is asked for, and the two form a multiple
of 31. -/
def isHeader (method flags : UInt8) : Bool :=
  (256 * method.toNat + flags.toNat) % 31 = 0 ∧ method.toNat % 16 = 8 ∧ method.toNat / 16 ≤ 7 ∧
    flags.toNat / 32 % 2 = 0

/-- Decompresses a stream as far as it goes. -/
def decompress : Bytes → Decompressed
  | [] => ⟨[], some .cut⟩
  | [_] => ⟨[], some .cut⟩
  | method :: flags :: blocks =>
      if isHeader method flags then
        let progress := inflate blocks
        let output := progress.output.toList
        match progress.input with
        | .error defect => ⟨output, some defect⟩
        | .ok source =>
            let found := source.rest.take 4
            if found.length < 4 then ⟨output, some .cut⟩
            else if littleEndianValue found.reverse = checksum output then ⟨output, none⟩
            else ⟨output, some .broken⟩
      else ⟨[], some .broken⟩

/-- The header that goes in front of the blocks. -/
def header : Bytes := [0x78, 0x9C]

/-- A stream that holds the data in the given blocks. -/
def wrap (blocks data : Bytes) : Bytes :=
  header ++ blocks ++ (littleEndian 4 (checksum data)).reverse

/-- Compresses data.  At level zero it is stored; the other levels try harder the
higher they are.  A compressed form is used only if it is shorter than the
stored form and gives the data back. -/
def compress (level : Nat) (data : Bytes) : Bytes :=
  let stored := wrap (storedBlocks data) data
  if level = 0 then stored
  else
    let packed := wrap (fixedBlock (tokensOf level data)) data
    if packed.length < stored.length ∧ decompress packed = ⟨data, none⟩ then packed else stored

end ScriptBundle.Compression
