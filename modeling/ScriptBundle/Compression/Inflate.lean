import ScriptBundle.Compression.Symbols

/-!
# Decompression

Decompression turns a compressed stream into output as far as it goes: the
result always holds the output so far, together with the rest of the input or
the defect that stopped it.
-/

namespace ScriptBundle.Compression

/-- The output so far, and where the input stands or what is wrong with it. -/
structure Progress where
  output : Array UInt8
  input : Except Defect BitSource

/-- Appends `length` bytes that stand `distance` bytes back.  What lies before
the start of the output counts as zeros. -/
def copyBack (distance : Nat) : (length : Nat) → Array UInt8 → Array UInt8
  | 0, output => output
  | length + 1, output =>
      let byte := if distance ≤ output.size then output.getD (output.size - distance) 0 else 0
      copyBack distance length (output.push byte)

/-- Reads the member of a group. -/
def SymbolGroup.member (group : SymbolGroup) (source : BitSource) :
    Except Defect (Nat × BitSource) := do
  let (extra, source) ← source.number group.extraBits
  return (group.base + extra, source)

-- The loop below cannot be unfolded where the number of the length group is unfolded too.
/-- Length and distance of a copy whose length symbol was read. -/
@[irreducible]
def readCopy (distances : PrefixCode) (symbol : Nat) (source : BitSource) :
    Except Defect ((Nat × Nat) × BitSource) := do
  let some lengthGroup := lengthGroups[symbol - 257]? | throw .broken
  let (length, source) ← lengthGroup.member source
  let (distanceSymbol, source) ← distances.decode source
  let some distanceGroup := distanceGroups[distanceSymbol]? | throw .broken
  let (distance, source) ← distanceGroup.member source
  return ((length, distance), source)

/-- Decompresses symbols up to the end of the block.  `fuel` bounds the number
of symbols; every symbol takes at least one bit. -/
def inflateSymbols (literals distances : PrefixCode) :
    (fuel : Nat) → Array UInt8 → BitSource → Progress
  | 0, output, _ => ⟨output, .error .cut⟩
  | fuel + 1, output, source =>
      match literals.decode source with
      | .error defect => ⟨output, .error defect⟩
      | .ok (symbol, source) =>
          if symbol < endOfBlock then
            inflateSymbols literals distances fuel (output.push (UInt8.ofNat symbol)) source
          else if symbol = endOfBlock then ⟨output, .ok source⟩
          else
            match readCopy distances symbol source with
            | .error defect => ⟨output, .error defect⟩
            | .ok ((length, distance), source) =>
                inflateSymbols literals distances fuel (copyBack distance length output) source

/-- The order in which the lengths of the code for code lengths are stored. -/
def lengthOrder : List Nat :=
  [16, 17, 18, 0, 8, 7, 9, 6, 10, 5, 11, 4, 12, 3, 13, 2, 14, 1, 15]

def readNumbers (width : Nat) : (count : Nat) → BitSource → Except Defect (List Nat × BitSource)
  | 0, source => .ok ([], source)
  | count + 1, source => do
      let (first, source) ← source.number width
      let (others, source) ← readNumbers width count source
      return (first :: others, source)

/-- Reads code lengths, last one first, until there are `wanted` of them.  A
symbol above 15 repeats the last length or zero.  `fuel` bounds the number of
symbols, each of which adds a length. -/
def readLengths (code : PrefixCode) (wanted : Nat) :
    (fuel : Nat) → (lengths : List Nat) → BitSource → Except Defect (List Nat × BitSource)
  | 0, lengths, source =>
      if lengths.length = wanted then .ok (lengths.reverse, source) else .error .broken
  | fuel + 1, lengths, source =>
      if wanted ≤ lengths.length then
        if lengths.length = wanted then .ok (lengths.reverse, source) else .error .broken
      else do
        let (symbol, source) ← code.decode source
        if symbol < 16 then readLengths code wanted fuel (symbol :: lengths) source
        else
          let (repeated, width, least) ←
            match symbol, lengths with
            | 16, last :: _ => pure (last, 2, 3)
            | 16, [] => throw .broken
            | 17, _ => pure (0, 3, 3)
            | _, _ => pure (0, 7, 11)
          let (extra, source) ← source.number width
          readLengths code wanted fuel (List.replicate (least + extra) repeated ++ lengths) source

/-- Reads the code table of a block: its codes for literals and lengths, and for
distances. -/
def readCodes (source : BitSource) : Except Defect ((PrefixCode × PrefixCode) × BitSource) := do
  let (literals, source) ← source.number 5
  let (distances, source) ← source.number 5
  let (stored, source) ← source.number 4
  let literals := literals + 257
  let distances := distances + 1
  if 286 < literals ∨ 30 < distances then throw .broken
  let (widths, source) ← readNumbers 3 (stored + 4) source
  let placed := lengthOrder.zip widths
  let some lengthCode := PrefixCode.ofLengths?
      ((List.range 19).map fun symbol => (placed.lookup symbol).getD 0) | throw .broken
  let (lengths, source) ←
    readLengths lengthCode (literals + distances) (literals + distances) [] source
  let some literalCode := PrefixCode.ofLengths? (lengths.take literals) | throw .broken
  let some distanceCode := PrefixCode.ofLengths? (lengths.drop literals) | throw .broken
  return ((literalCode, distanceCode), source)

/-- Reads the length of a stored block, which comes with its complement. -/
def readStoredLength (source : BitSource) : Except Defect (Nat × BitSource) := do
  let (length, source) ← source.align.number 16
  let (complement, source) ← source.number 16
  if length + complement = 0xFFFF then return (length, source) else throw .broken

/-- Decompresses one block and tells whether it is the last one. -/
def inflateBlock (output : Array UInt8) (source : BitSource) : Bool × Progress :=
  let header : Except Defect ((Bool × Nat) × BitSource) := do
    let (last, source) ← source.bit
    let (kind, source) ← source.number 2
    return ((last, kind), source)
  match header with
  | .error defect => (true, ⟨output, .error defect⟩)
  | .ok ((last, 0), source) =>
      match readStoredLength source with
      | .error defect => (last, ⟨output, .error defect⟩)
      | .ok (length, source) =>
          let stored := source.rest.take length
          let output := output ++ stored.toArray
          if stored.length = length then
            (last, ⟨output, .ok (.ofBytes (source.rest.drop length))⟩)
          else (last, ⟨output, .error .cut⟩)
  | .ok ((last, 1), source) =>
      (last, inflateSymbols fixedLiteralCode fixedDistanceCode (source.size + 1) output source)
  | .ok ((last, 2), source) =>
      match readCodes source with
      | .error defect => (last, ⟨output, .error defect⟩)
      | .ok ((literals, distances), source) =>
          (last, inflateSymbols literals distances (source.size + 1) output source)
  | .ok ((last, _), _) => (last, ⟨output, .error .broken⟩)

/-- Decompresses blocks up to the last one.  `fuel` bounds the number of blocks;
every block takes at least one bit. -/
def inflateBlocks : (fuel : Nat) → Array UInt8 → BitSource → Progress
  | 0, output, _ => ⟨output, .error .cut⟩
  | fuel + 1, output, source =>
      match inflateBlock output source with
      | (false, ⟨output, .ok source⟩) => inflateBlocks fuel output source
      | (_, progress) => progress

/-- Decompresses a stream of blocks. -/
def inflate (bytes : Bytes) : Progress :=
  inflateBlocks (8 * bytes.length + 1) #[] (.ofBytes bytes)

end ScriptBundle.Compression
