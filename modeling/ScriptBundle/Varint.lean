import ScriptBundle.Bytes

/-!
# Variable-length integers

An integer below `2 ^ 64` is written in groups of seven bits, least significant
group first, with the high bit set on every byte except the last.  Reading
accepts longer spellings of the same value, up to `maxLength` bytes, and refuses
what does not fit in 64 bits.
-/

namespace ScriptBundle.Varint

/-- The longest encoding of a 64-bit integer. -/
def maxLength : Nat := 10

/-- The shortest encoding of `value`. -/
def encode (value : Nat) : Bytes :=
  if value < 128 then [UInt8.ofNat value]
  else UInt8.ofNat (value % 128 + 128) :: encode (value / 128)

/-- Reads at most `groups` groups.  The last one a 64-bit integer has room for
is the tenth, and it holds a single bit. -/
def decodeGroups : (groups : Nat) → Decoder Nat
  | 0 => throw .integerOverflow
  | groups + 1 => do
      let byte ← Decoder.byte
      let group := byte.toNat % 128
      if groups = 0 ∧ 1 < group then throw .integerOverflow
      else if byte.toNat < 128 then return group
      else return group + 128 * (← decodeGroups groups)

/-- One integer below `2 ^ 64`. -/
def decode : Decoder Nat := decodeGroups maxLength

end ScriptBundle.Varint
