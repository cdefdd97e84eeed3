import ScriptBundle.Compression.PrefixCode

/-!
# Symbols of compressed blocks

A block is a sequence of literal bytes and of copies of earlier output.  Lengths
and distances of copies are grouped: a symbol names the group, and extra bits the
member.
-/

namespace ScriptBundle.Compression

/-- The symbol that ends a block; smaller symbols are literal bytes. -/
def endOfBlock : Nat := 256

/-- How far back a copy can reach. -/
def windowSize : Nat := 32768

/-- A group of lengths or distances. -/
structure SymbolGroup where
  base : Nat
  extraBits : Nat
  deriving DecidableEq, Repr

/-- Adjoining groups with the given numbers of extra bits, from `base` on. -/
def groupsFrom (base : Nat) : (widths : List Nat) → List SymbolGroup
  | [] => []
  | width :: widths => ⟨base, width⟩ :: groupsFrom (base + Nat.pow 2 width) widths

/-- The groups of lengths, for the symbols from 257 on.  The longest copy has a
group of its own. -/
def lengthGroups : Array SymbolGroup :=
  (groupsFrom 3 ([0, 0, 0, 0] ++ (List.range 6).flatMap fun width => List.replicate 4 width) ++
    [SymbolGroup.mk 258 0]).toArray

/-- The groups of distances. -/
def distanceGroups : Array SymbolGroup :=
  (groupsFrom 1 ([0, 0] ++ (List.range 14).flatMap fun width => List.replicate 2 width)).toArray

/-- The code of literals and lengths in a block without a code table. -/
def fixedLiteralLengths : List Nat :=
  List.replicate 144 8 ++ List.replicate 112 9 ++ List.replicate 24 7 ++ List.replicate 8 8

/-- The code of distances in a block without a code table. -/
def fixedDistanceLengths : List Nat :=
  List.replicate 32 5

def fixedLiteralCode : PrefixCode :=
  (PrefixCode.ofLengths? fixedLiteralLengths).getD ⟨[], #[]⟩

def fixedDistanceCode : PrefixCode :=
  (PrefixCode.ofLengths? fixedDistanceLengths).getD ⟨[], #[]⟩

end ScriptBundle.Compression
