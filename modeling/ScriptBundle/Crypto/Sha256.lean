import ScriptBundle.Bytes

/-!
# SHA-256

The digest of a byte string: the message is padded to blocks of 64 bytes, and
each block is mixed into eight 32-bit words by 64 rounds.
-/

namespace ScriptBundle.Sha256

/-- One constant for each round: the fractional parts of the cube roots of the
first 64 primes. -/
def roundConstants : List UInt32 :=
  [0x428a2f98, 0x71374491, 0xb5c0fbcf, 0xe9b5dba5, 0x3956c25b, 0x59f111f1, 0x923f82a4, 0xab1c5ed5,
   0xd807aa98, 0x12835b01, 0x243185be, 0x550c7dc3, 0x72be5d74, 0x80deb1fe, 0x9bdc06a7, 0xc19bf174,
   0xe49b69c1, 0xefbe4786, 0x0fc19dc6, 0x240ca1cc, 0x2de92c6f, 0x4a7484aa, 0x5cb0a9dc, 0x76f988da,
   0x983e5152, 0xa831c66d, 0xb00327c8, 0xbf597fc7, 0xc6e00bf3, 0xd5a79147, 0x06ca6351, 0x14292967,
   0x27b70a85, 0x2e1b2138, 0x4d2c6dfc, 0x53380d13, 0x650a7354, 0x766a0abb, 0x81c2c92e, 0x92722c85,
   0xa2bfe8a1, 0xa81a664b, 0xc24b8b70, 0xc76c51a3, 0xd192e819, 0xd6990624, 0xf40e3585, 0x106aa070,
   0x19a4c116, 0x1e376c08, 0x2748774c, 0x34b0bcb5, 0x391c0cb3, 0x4ed8aa4a, 0x5b9cca4f, 0x682e6ff3,
   0x748f82ee, 0x78a5636f, 0x84c87814, 0x8cc70208, 0x90befffa, 0xa4506ceb, 0xbef9a3f7, 0xc67178f2]

/-- The eight words that a digest is built in. -/
structure Words where
  a : UInt32
  b : UInt32
  c : UInt32
  d : UInt32
  e : UInt32
  f : UInt32
  g : UInt32
  h : UInt32
  deriving DecidableEq, Repr

/-- The fractional parts of the square roots of the first eight primes. -/
def initialWords : Words :=
  ⟨0x6a09e667, 0xbb67ae85, 0x3c6ef372, 0xa54ff53a, 0x510e527f, 0x9b05688c, 0x1f83d9ab, 0x5be0cd19⟩

def rotateRight (word : UInt32) (count : UInt32) : UInt32 :=
  (word >>> count) ||| (word <<< (32 - count))

def smallSigma0 (word : UInt32) : UInt32 :=
  rotateRight word 7 ^^^ rotateRight word 18 ^^^ (word >>> 3)

def smallSigma1 (word : UInt32) : UInt32 :=
  rotateRight word 17 ^^^ rotateRight word 19 ^^^ (word >>> 10)

def bigSigma0 (word : UInt32) : UInt32 :=
  rotateRight word 2 ^^^ rotateRight word 13 ^^^ rotateRight word 22

def bigSigma1 (word : UInt32) : UInt32 :=
  rotateRight word 6 ^^^ rotateRight word 11 ^^^ rotateRight word 25

/-- The word written by four bytes, most significant first. -/
def bigEndianWord (bytes : Bytes) : UInt32 :=
  bytes.foldl (fun word byte => (word <<< 8) ||| byte.toUInt32) 0

/-- The bytes of a word, most significant first. -/
def wordBytes (word : UInt32) : Bytes :=
  [(word >>> 24).toUInt8, (word >>> 16).toUInt8, (word >>> 8).toUInt8, word.toUInt8]

/-- The message schedule, last word first: the words of the block and then one
more for each further round. -/
def schedule (block : Bytes) : List UInt32 :=
  let first := (List.range 16).map fun index => bigEndianWord ((block.drop (4 * index)).take 4)
  (List.range 48).foldl
    (fun words _ =>
      (smallSigma1 (words.getD 1 0) + words.getD 6 0 + smallSigma0 (words.getD 14 0) +
        words.getD 15 0) :: words)
    first.reverse

def round (words : Words) (constant scheduled : UInt32) : Words :=
  let choice := (words.e &&& words.f) ^^^ (~~~words.e &&& words.g)
  let majority := (words.a &&& words.b) ^^^ (words.a &&& words.c) ^^^ (words.b &&& words.c)
  let first := words.h + bigSigma1 words.e + choice + constant + scheduled
  let second := bigSigma0 words.a + majority
  ⟨first + second, words.a, words.b, words.c, words.d + first, words.e, words.f, words.g⟩

def mixBlock (words : Words) (block : Bytes) : Words :=
  let mixed := (roundConstants.zip (schedule block).reverse).foldl
    (fun words step => round words step.1 step.2) words
  ⟨words.a + mixed.a, words.b + mixed.b, words.c + mixed.c, words.d + mixed.d,
    words.e + mixed.e, words.f + mixed.f, words.g + mixed.g, words.h + mixed.h⟩

/-- The message, a one bit, zeros, and the length of the message in bits. -/
def padded (message : Bytes) : Bytes :=
  let zeros := (55 + 64 - message.length % 64) % 64
  message ++ [0x80] ++ List.replicate zeros 0 ++ (littleEndian 8 (8 * message.length)).reverse

def mixBlocks : (count : Nat) → Words → Bytes → Words
  | 0, words, _ => words
  | count + 1, words, bytes => mixBlocks count (mixBlock words (bytes.take 64)) (bytes.drop 64)

/-- The 32-byte digest. -/
def digest (message : Bytes) : Bytes :=
  let blocks := padded message
  let words := mixBlocks (blocks.length / 64) initialWords blocks
  [words.a, words.b, words.c, words.d, words.e, words.f, words.g, words.h].flatMap wordBytes

end ScriptBundle.Sha256
