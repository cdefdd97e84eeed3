import ScriptBundle.Bytes

/-!
# Bits of a compressed stream

Bits are taken from each byte starting at the least significant one.  A source
keeps the bits that are left of the byte it is in, so that it can skip to the
next byte.
-/

namespace ScriptBundle.Compression

/-- The eight bits of a byte, least significant first. -/
def bitsOfByte (byte : UInt8) : List Bool :=
  (List.range 8).map fun index => byte.toNat.testBit index

/-- The number written by bits, least significant first. -/
def bitsValue : List Bool → Nat
  | [] => 0
  | bit :: bits => bit.toNat + 2 * bitsValue bits

/-- The lowest `count` bits of a number, least significant first. -/
def bitsOfNat : (count value : Nat) → List Bool
  | 0, _ => []
  | count + 1, value => (value % 2 = 1) :: bitsOfNat count (value / 2)

/-- Packs bits into bytes and fills the last byte up with zeros. -/
def packBits : List Bool → Bytes
  | b0 :: b1 :: b2 :: b3 :: b4 :: b5 :: b6 :: b7 :: bits =>
      UInt8.ofNat (bitsValue [b0, b1, b2, b3, b4, b5, b6, b7]) :: packBits bits
  | [] => []
  | bits => [UInt8.ofNat (bitsValue bits)]

/-- What is left of a bit stream. -/
structure BitSource where
  /-- The bits left of the byte that was opened last. -/
  pending : List Bool
  rest : Bytes
  deriving DecidableEq, Repr

/-- Why decompression stops before its end. -/
inductive Defect where
  /-- The input ends. -/
  | cut
  /-- The input is no compressed stream. -/
  | broken
  deriving DecidableEq, Repr

namespace BitSource

def ofBytes (bytes : Bytes) : BitSource := ⟨[], bytes⟩

/-- Skips to the next whole byte. -/
def align (source : BitSource) : BitSource := ⟨[], source.rest⟩

def bit (source : BitSource) : Except Defect (Bool × BitSource) :=
  match source.pending, source.rest with
  | first :: pending, rest => .ok (first, ⟨pending, rest⟩)
  | [], byte :: rest =>
      match bitsOfByte byte with
      | first :: pending => .ok (first, ⟨pending, rest⟩)
      | [] => .error .cut
  | [], [] => .error .cut

/-- A number of `count` bits, least significant first. -/
def number : (count : Nat) → BitSource → Except Defect (Nat × BitSource)
  | 0, source => .ok (0, source)
  | count + 1, source => do
      let (first, source) ← source.bit
      let (high, source) ← number count source
      return (first.toNat + 2 * high, source)

/-- How many bits are left, which bounds how many items can follow. -/
def size (source : BitSource) : Nat :=
  source.pending.length + 8 * source.rest.length

end BitSource

end ScriptBundle.Compression
