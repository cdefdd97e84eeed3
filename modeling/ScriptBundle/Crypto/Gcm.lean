import ScriptBundle.Crypto.Aes

/-!
# Galois counter mode

Authenticated encryption of a byte string.  The key stream is the encryption of
successive counters, and the tag is a polynomial in the ciphertext blocks,
evaluated in the field with `2 ^ 128` elements.  Decryption recomputes the tag
from the ciphertext and gives nothing back when it differs.
-/

namespace ScriptBundle.Gcm

/-- A field element; the highest bit of `high` is the constant coefficient. -/
structure Element where
  high : UInt64
  low : UInt64
  deriving DecidableEq, Repr

namespace Element

def zero : Element := ⟨0, 0⟩

def add (left right : Element) : Element :=
  ⟨left.high ^^^ right.high, left.low ^^^ right.low⟩

/-- Multiplication by the generator of the field. -/
def shift (element : Element) : Element :=
  let low := (element.low >>> 1) ||| (element.high <<< 63)
  let high := element.high >>> 1
  if element.low &&& 1 = 1 then ⟨high ^^^ 0xE100000000000000, low⟩ else ⟨high, low⟩

/-- Adds `factor` times the 64 coefficients in `word` to `product`, and moves
`factor` on. -/
def accumulate (word : UInt64) (product factor : Element) : Element × Element :=
  (List.range 64).foldl
    (fun (state : Element × Element) index =>
      let (product, factor) := state
      let selected := (word >>> (63 - index.toUInt64)) &&& 1 = 1
      (if selected then product.add factor else product, factor.shift))
    (product, factor)

def multiply (left right : Element) : Element :=
  let (product, factor) := accumulate left.high zero right
  (accumulate left.low product factor).1

/-- The element written by at most 16 bytes, filled up with zeros. -/
def ofBytes (bytes : Bytes) : Element :=
  let word (bytes : Bytes) : UInt64 :=
    (bytes ++ List.replicate (8 - bytes.length) 0).foldl
      (fun (word : UInt64) (byte : UInt8) => (word <<< 8) ||| byte.toUInt64) 0
  ⟨word (bytes.take 8), word ((bytes.drop 8).take 8)⟩

end Element

/-- Size of the tag. -/
def tagLength : Nat := 16

/-- The polynomial in the blocks of a ciphertext, evaluated at `point`. -/
def hashBlocks (point : Element) : (blocks : Nat) → Element → Bytes → Element
  | 0, sum, _ => sum
  | blocks + 1, sum, bytes =>
      hashBlocks point blocks ((sum.add (Element.ofBytes (bytes.take 16))).multiply point)
        (bytes.drop 16)

/-- The hash of a ciphertext that comes with no other data. -/
def hash (point : Element) (ciphertext : Bytes) : Element :=
  let sum := hashBlocks point ((ciphertext.length + 15) / 16) .zero ciphertext
  (sum.add ⟨0, (8 * ciphertext.length).toUInt64⟩).multiply point

def Element.toBytes (element : Element) : Bytes :=
  (littleEndian 8 element.high.toNat).reverse ++ (littleEndian 8 element.low.toNat).reverse

/-- The counter block number `index` of a 12-byte nonce. -/
def counterBlock (nonce : Bytes) (index : Nat) : Aes.Block :=
  Aes.Block.ofBytes (nonce ++ (littleEndian 4 index).reverse)

/-- Adds the key stream from counter `index` on to `blocks` blocks of data. -/
def addKeyStream (keys : List Aes.Block) (nonce : Bytes) :
    (blocks index : Nat) → Bytes → List Bytes → Bytes
  | 0, _, _, done => done.reverse.flatten
  | blocks + 1, index, data, done =>
      let stream := (Aes.encryptBlock keys (counterBlock nonce index)).toList
      let mixed := List.zipWith (· ^^^ ·) (data.take 16) stream
      addKeyStream keys nonce blocks (index + 1) (data.drop 16) (mixed :: done)

/-- Turns plain data into ciphertext, and ciphertext into plain data. -/
def transform (keys : List Aes.Block) (nonce data : Bytes) : Bytes :=
  addKeyStream keys nonce ((data.length + 15) / 16) 2 data []

/-- The tag of a ciphertext. -/
def tag (keys : List Aes.Block) (nonce ciphertext : Bytes) : Bytes :=
  let point := Element.ofBytes (Aes.encryptBlock keys (Aes.Block.ofBytes [])).toList
  List.zipWith (· ^^^ ·) (hash point ciphertext).toBytes
    (Aes.encryptBlock keys (counterBlock nonce 1)).toList

/-- The ciphertext followed by its tag. -/
def encrypt (key nonce data : Bytes) : Bytes :=
  let keys := Aes.roundKeys key
  let ciphertext := transform keys nonce data
  ciphertext ++ tag keys nonce ciphertext

/-- The plain data, if the tag is that of the ciphertext. -/
def decrypt? (key nonce encrypted : Bytes) : Option Bytes :=
  let keys := Aes.roundKeys key
  let ciphertext := encrypted.take (encrypted.length - tagLength)
  let found := encrypted.drop (encrypted.length - tagLength)
  if found = tag keys nonce ciphertext then some (transform keys nonce ciphertext) else none

end ScriptBundle.Gcm
