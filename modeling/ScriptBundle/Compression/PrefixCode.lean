import ScriptBundle.Compression.Bits

/-!
# Canonical prefix codes

A canonical code is given by the code length of each symbol: shorter codes come
first, and codes of one length are numbered in the order of their symbols.  So
it is enough to know how many codes there are of each length and the symbols in
code order.
-/

namespace ScriptBundle.Compression

structure PrefixCode where
  /-- How many codes have length 1, 2, and so on. -/
  counts : List Nat
  /-- The symbols in the order of their codes. -/
  symbols : Array Nat
  deriving Repr

namespace PrefixCode

/-- The longest code of a symbol. -/
def maxLength : Nat := 15

/-- How many bit strings, as long as the longest code, start with a code; the
counts are those of length one and up. -/
def weight (counts : List Nat) : Nat :=
  counts.foldl (fun sum count => 2 * sum + count) 0

/-- The code whose symbol `i` has the length `lengths[i]`, zero for a symbol that
does not occur.  A code of two or more symbols has to be complete. -/
def ofLengths? (lengths : List Nat) : Option PrefixCode :=
  let numbered := lengths.zipIdx
  let groups := (List.range maxLength).map fun index =>
    (numbered.filter fun entry => entry.1 = index + 1).map (·.2)
  let counts := groups.map List.length
  let code : PrefixCode := { counts, symbols := groups.flatten.toArray }
  if weight counts = Nat.pow 2 maxLength ∨ code.symbols.size ≤ 1 then some code else none

/-- Reads a symbol, walking through the code lengths.  `first` is the first code
of the length at hand, `index` the place of its symbol, `read` the bits so far. -/
def decodeFrom (symbols : Array Nat) :
    (counts : List Nat) → (first index read : Nat) → BitSource → Except Defect (Nat × BitSource)
  | [], _, _, _, _ => .error .broken
  | count :: counts, first, index, read, source => do
      let (bit, source) ← source.bit
      let read := 2 * read + bit.toNat
      let first := 2 * first
      if read < first + count then
        match symbols[index + (read - first)]? with
        | some symbol => return (symbol, source)
        | none => throw .broken
      else decodeFrom symbols counts (first + count) (index + count) read source

/-- Reads one symbol. -/
def decode (code : PrefixCode) (source : BitSource) : Except Defect (Nat × BitSource) :=
  decodeFrom code.symbols code.counts 0 0 0 source

end PrefixCode

end ScriptBundle.Compression
