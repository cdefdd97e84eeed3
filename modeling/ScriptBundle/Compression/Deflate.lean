import ScriptBundle.Compression.Symbols
import Std.Data.HashMap

/-!
# Compression

Data is first cut into literal bytes and copies of what came before, and these
are then written as one block of fixed codes.  Data can also be stored as it is,
in blocks of at most 65535 bytes.
-/

namespace ScriptBundle.Compression

/-- A step of the output. -/
inductive Token where
  | literal (byte : UInt8)
  | copy (length distance : Nat)
  deriving DecidableEq, Repr

/-- The shortest and the longest copy. -/
def minCopy : Nat := 3

def maxCopy : Nat := 258

/-- The number of equal bytes from two positions on, at most `limit`. -/
def commonLength (data : Array UInt8) (left right : Nat) : (limit : Nat) → Nat
  | 0 => 0
  | limit + 1 =>
      if right < data.size ∧ data[left]? = data[right]? then
        commonLength data (left + 1) (right + 1) limit + 1
      else 0

/-- The three bytes at a position as a key. -/
def keyAt (data : Array UInt8) (position : Nat) : Nat :=
  (data.getD position 0).toNat + 256 * (data.getD (position + 1) 0).toNat +
    65536 * (data.getD (position + 2) 0).toNat

/-- Length and distance of the longest copy that starts at one of the
`candidates`. -/
def bestCopy (data : Array UInt8) (position : Nat) (candidates : List Nat) : Nat × Nat :=
  candidates.foldl
    (fun best candidate =>
      let distance := position - candidate
      let length := commonLength data candidate position maxCopy
      if best.1 < length ∧ distance ≤ windowSize then (length, distance) else best)
    (0, 0)

/-- Cuts data into tokens, last one first.  At each position the `effort` latest
places with the same three bytes are tried.  `skip` positions are part of the
last copy. -/
def tokensFrom (data : Array UInt8) (effort : Nat) :
    (left skip : Nat) → Std.HashMap Nat (List Nat) → List Token → List Token
  | 0, _, _, tokens => tokens
  | left + 1, skip, places, tokens =>
      let position := data.size - (left + 1)
      let key := keyAt data position
      let candidates := places.getD key []
      let places := places.insert key (position :: candidates.take (effort - 1))
      match skip with
      | skip + 1 => tokensFrom data effort left skip places tokens
      | 0 =>
          let (length, distance) := bestCopy data position candidates
          if length < minCopy then
            tokensFrom data effort left 0 places (.literal (data.getD position 0) :: tokens)
          else tokensFrom data effort left (length - 1) places (.copy length distance :: tokens)

def tokensOf (effort : Nat) (data : Bytes) : List Token :=
  (tokensFrom data.toArray effort data.length 0 ∅ []).reverse

/-- The fixed code of a symbol, most significant bit first. -/
def fixedCode (symbol : Nat) : List Bool :=
  let (width, value) :=
    if symbol < 144 then (8, 0x30 + symbol)
    else if symbol < 256 then (9, 0x190 + (symbol - 144))
    else if symbol < 280 then (7, symbol - 256)
    else (8, 0xC0 + (symbol - 280))
  (bitsOfNat width value).reverse

/-- The last group whose base is not above `value`, with its number. -/
def groupOf (groups : Array SymbolGroup) (value : Nat) : Nat × SymbolGroup :=
  let below := groups.toList.zipIdx.filter fun entry => entry.1.base ≤ value
  match below.getLast? with
  | some (group, index) => (index, group)
  | none => (0, ⟨0, 0⟩)

def tokenBits : Token → List Bool
  | .literal byte => fixedCode byte.toNat
  | .copy length distance =>
      let (lengthIndex, lengthGroup) := groupOf lengthGroups length
      let (distanceIndex, distanceGroup) := groupOf distanceGroups distance
      fixedCode (257 + lengthIndex) ++
          bitsOfNat lengthGroup.extraBits (length - lengthGroup.base) ++
        (bitsOfNat 5 distanceIndex).reverse ++
        bitsOfNat distanceGroup.extraBits (distance - distanceGroup.base)

/-- One final block of fixed codes. -/
def fixedBlock (tokens : List Token) : Bytes :=
  packBits ([true, true, false] ++ tokens.flatMap tokenBits ++ fixedCode endOfBlock)

/-- The most bytes of a stored block. -/
def maxStored : Nat := 0xFFFF

/-- A stored block. -/
def storedBlock (last : Bool) (data : Bytes) : Bytes :=
  UInt8.ofNat last.toNat :: littleEndian 2 data.length ++
    littleEndian 2 (maxStored - data.length) ++ data

/-- Stored blocks up to the final one, each full but the last. -/
def storedBlocks (data : Bytes) : Bytes :=
  go ((data.length - 1) / maxStored) data
where
  go : (more : Nat) → Bytes → Bytes
    | 0, data => storedBlock true data
    | more + 1, data => storedBlock false (data.take maxStored) ++ go more (data.drop maxStored)

end ScriptBundle.Compression
