import ScriptBundle.Bytes

/-!
# AES with 256-bit keys

Encryption of one block of 16 bytes by fourteen rounds.  The substitution of
bytes is computed from the arithmetic of the field with 256 elements, once, into
a table.
-/

namespace ScriptBundle.Aes

/-- Multiplication by the generator `x` in the byte field. -/
def double (byte : UInt8) : UInt8 :=
  if byte < 0x80 then byte <<< 1 else (byte <<< 1) ^^^ 0x1B

/-- The product of two field elements, eight bits of the second one at a time. -/
def multiply (left right : UInt8) : UInt8 :=
  (List.range 8).foldl
    (fun (state : UInt8 × UInt8 × UInt8) _ =>
      let (product, left, right) := state
      (if right &&& 1 = 1 then product ^^^ left else product, double left, right >>> 1))
    (0, left, right) |>.1

/-- The inverse of a nonzero field element, and zero for zero: its power 254. -/
def inverse (byte : UInt8) : UInt8 :=
  (List.range 7).foldl
    (fun (state : UInt8 × UInt8) _ =>
      let square := multiply state.2 state.2
      (multiply state.1 square, square))
    (1, byte) |>.1

def rotateLeft (byte count : UInt8) : UInt8 :=
  (byte <<< count) ||| (byte >>> (8 - count))

/-- The substitution of one byte: the inverse, and an affine map of its bits. -/
def substitute (byte : UInt8) : UInt8 :=
  let inverted := inverse byte
  inverted ^^^ rotateLeft inverted 1 ^^^ rotateLeft inverted 2 ^^^ rotateLeft inverted 3 ^^^
    rotateLeft inverted 4 ^^^ 0x63

/-- The substitution of every byte. -/
def substitutionTable : Array UInt8 :=
  Array.ofFn fun index : Fin 256 => substitute (UInt8.ofNat index)

def lookUp (byte : UInt8) : UInt8 :=
  substitutionTable.getD byte.toNat 0

/-- The four columns of a block, one after the other. -/
abbrev Block := Vector UInt8 16

def Block.ofBytes (bytes : Bytes) : Block :=
  let stored := bytes.toArray
  Vector.ofFn fun index => stored.getD index 0

def Block.xor (left right : Block) : Block :=
  Vector.zipWith (· ^^^ ·) left right

/-- Substitutes every byte and moves row `r` by `r` columns. -/
def substituteAndShift (block : Block) : Block :=
  Vector.ofFn fun index => lookUp (block.getD ((5 * index.val) % 16) 0)

/-- Multiplies each column by a fixed matrix. -/
def mixColumns (block : Block) : Block :=
  Vector.ofFn fun index =>
    let column := index.val / 4 * 4
    let below (rows : Nat) := block.getD (column + (index.val + rows) % 4) 0
    double (below 0) ^^^ (double (below 1) ^^^ below 1) ^^^ below 2 ^^^ below 3

/-- The words of the key schedule, last word first.  `constant` is the round
constant of the next group of eight words. -/
def extendKey : (groups : Nat) → (constant : UInt8) → List Bytes → List Bytes
  | 0, _, words => words
  | groups + 1, constant, words =>
      let extended := (List.range 8).foldl
        (fun words index =>
          let previous := words.headD []
          let changed :=
            if index = 0 then
              match (previous.drop 1 ++ previous.take 1).map lookUp with
              | first :: rest => (first ^^^ constant) :: rest
              | [] => []
            else if index = 4 then previous.map lookUp
            else previous
          List.zipWith (· ^^^ ·) changed (words.getD 7 []) :: words)
        words
      extendKey groups (double constant) extended

/-- The round keys of a 32-byte key. -/
def roundKeys (key : Bytes) : List Block :=
  let first := (List.range 8).map fun index => (key.drop (4 * index)).take 4
  let schedule := (extendKey 7 1 first.reverse).reverse.flatten
  (List.range 15).map fun index => Block.ofBytes ((schedule.drop (16 * index)).take 16)

/-- The rounds after the first round key was added.  The last one does not mix
columns. -/
def rounds (block : Block) : List Block → Block
  | [] => block
  | [last] => (substituteAndShift block).xor last
  | key :: keys => rounds ((mixColumns (substituteAndShift block)).xor key) keys

/-- Encrypts one block under the round keys. -/
def encryptBlock (keys : List Block) (block : Block) : Block :=
  match keys with
  | [] => block
  | first :: rest => rounds (block.xor first) rest

end ScriptBundle.Aes
