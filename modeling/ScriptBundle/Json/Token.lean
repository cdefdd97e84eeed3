import ScriptBundle.Text.Utf8

/-!
# JSON tokens

The bytes of a document are cut into brackets, separators, string literals and
words; a word is a number or one of the three names.  A string literal is read
for its form first.  What text it denotes is found afterwards: escapes for
halves of a character must come in pairs, and the bytes must be UTF-8.
-/

namespace ScriptBundle.Json

/-- A piece of a string literal. -/
inductive Unit16 where
  | byte (value : UInt8)
  /-- A code unit given by an escape. -/
  | escaped (value : Nat)
  deriving DecidableEq, Repr

inductive Token where
  | openArray
  | closeArray
  | openObject
  | closeObject
  | comma
  | colon
  | string (text : Option String)
  | word (letters : List Char)
  deriving DecidableEq, Repr

def isHighHalf (value : Nat) : Bool := 0xD800 ≤ value ∧ value < 0xDC00

def isLowHalf (value : Nat) : Bool := 0xDC00 ≤ value ∧ value < 0xE000

/-- The bytes of a literal, with each escape in UTF-8.  Finished bytes are kept
last first in `done`. -/
def joinUnits (done : Bytes) : List Unit16 → Option Bytes
  | [] => some done.reverse
  | .byte value :: rest => joinUnits (value :: done) rest
  | [.escaped value] =>
      if isHighHalf value ∨ isLowHalf value then none
      else joinUnits ((String.utf8EncodeChar (Char.ofNat value)).reverse ++ done) []
  | .escaped value :: .byte next :: rest =>
      if isHighHalf value ∨ isLowHalf value then none
      else joinUnits ((String.utf8EncodeChar (Char.ofNat value)).reverse ++ done)
        (.byte next :: rest)
  | .escaped value :: .escaped low :: rest =>
      if isHighHalf value ∧ isLowHalf low then
        let char := Char.ofNat (0x10000 + (value - 0xD800) * 0x400 + (low - 0xDC00))
        joinUnits ((String.utf8EncodeChar char).reverse ++ done) rest
      else if isHighHalf value ∨ isLowHalf value then none
      else joinUnits ((String.utf8EncodeChar (Char.ofNat value)).reverse ++ done)
        (.escaped low :: rest)

/-- The text that a literal denotes. -/
def textOf (units : List Unit16) : Option String :=
  (joinUnits [] units).bind Text.Utf8.decode?

/-- Where the reader of tokens stands; pieces gathered so far are kept last
first. -/
inductive Mode where
  | plain
  | word (letters : List Char)
  | string (units : List Unit16)
  | escape (units : List Unit16)
  | digits (units : List Unit16) (left value : Nat)
  deriving DecidableEq, Repr

def isBlank (byte : UInt8) : Bool :=
  byte = 0x20 ∨ byte = 0x0A ∨ byte = 0x0D ∨ byte = 0x09

/-- A byte that can be part of a word. -/
def isWordByte (byte : UInt8) : Bool :=
  let char := Char.ofNat byte.toNat
  byte < 0x80 ∧ (char.isAlphanum ∨ char = '+' ∨ char = '-' ∨ char = '.')

/-- The token that a single byte makes. -/
def punctuation? (byte : UInt8) : Option Token :=
  if byte = 0x5B then some .openArray
  else if byte = 0x5D then some .closeArray
  else if byte = 0x7B then some .openObject
  else if byte = 0x7D then some .closeObject
  else if byte = 0x2C then some .comma
  else if byte = 0x3A then some .colon
  else none

/-- The byte that a one-letter escape stands for. -/
def simpleEscape? (byte : UInt8) : Option UInt8 :=
  if byte = 0x22 ∨ byte = 0x5C ∨ byte = 0x2F then some byte
  else if byte = 0x62 then some 0x08
  else if byte = 0x66 then some 0x0C
  else if byte = 0x6E then some 0x0A
  else if byte = 0x72 then some 0x0D
  else if byte = 0x74 then some 0x09
  else none

def hexDigit? (byte : UInt8) : Option Nat :=
  if 0x30 ≤ byte ∧ byte ≤ 0x39 then some (byte.toNat - 0x30)
  else if 0x41 ≤ byte ∧ byte ≤ 0x46 then some (byte.toNat - 0x37)
  else if 0x61 ≤ byte ∧ byte ≤ 0x66 then some (byte.toNat - 0x57)
  else none

/-- What a byte does outside words and strings. -/
def startToken (byte : UInt8) (done : List Token) : Option (Mode × List Token) :=
  if isBlank byte then some (.plain, done)
  else if byte = 0x22 then some (.string [], done)
  else if isWordByte byte then some (.word [Char.ofNat byte.toNat], done)
  else (punctuation? byte).map fun token => (.plain, token :: done)

/-- Takes one more byte.  Finished tokens are kept last first. -/
def takeByte (mode : Mode) (done : List Token) (byte : UInt8) : Option (Mode × List Token) :=
  match mode with
  | .plain => startToken byte done
  | .word letters =>
      if isWordByte byte then some (.word (Char.ofNat byte.toNat :: letters), done)
      else startToken byte (.word letters.reverse :: done)
  | .string units =>
      if byte = 0x22 then some (.plain, .string (textOf units.reverse) :: done)
      else if byte = 0x5C then some (.escape units, done)
      else if byte < 0x20 then none
      else some (.string (.byte byte :: units), done)
  | .escape units =>
      if byte = 0x75 then some (.digits units 4 0, done)
      else (simpleEscape? byte).map fun value => (.string (.byte value :: units), done)
  | .digits units left value =>
      (hexDigit? byte).map fun digit =>
        let value := 16 * value + digit
        if left ≤ 1 then (.string (.escaped value :: units), done)
        else (.digits units (left - 1) value, done)

def tokensFrom : Mode → List Token → Bytes → Option (List Token)
  | .plain, done, [] => some done.reverse
  | .word letters, done, [] => some (.word letters.reverse :: done).reverse
  | _, _, [] => none
  | mode, done, byte :: bytes =>
      match takeByte mode done byte with
      | none => none
      | some (mode, done) => tokensFrom mode done bytes

/-- The tokens of a document. -/
def tokens (bytes : Bytes) : Option (List Token) :=
  tokensFrom .plain [] bytes

end ScriptBundle.Json
