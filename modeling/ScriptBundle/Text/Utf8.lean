import ScriptBundle.Bytes

/-!
# Text in bytes

Bytes are read as text only if they are UTF-8 throughout.  Any bytes can be shown
as text, with the replacement character in place of every longest piece that
begins like a character and does not go on like one, and of every byte that
begins none.
-/

namespace ScriptBundle.Text.Utf8

/-- The text that the bytes are. -/
def decode? (bytes : Bytes) : Option String :=
  String.fromUTF8? (ByteArray.mk bytes.toArray)

/-- A character whose last bytes are still to come. -/
structure Pending where
  /-- The bits read so far. -/
  code : Nat
  /-- The number of bytes to come. -/
  owed : Nat
  /-- The bounds of the next byte. -/
  low : UInt8 := 0x80
  high : UInt8 := 0xBF
  deriving DecidableEq, Repr

/-- Stands for bytes that are no text. -/
def replacement : Char := Char.ofNat 0xFFFD

/-- What a first byte amounts to: complete characters, and a character that it
begins. -/
def first (byte : UInt8) : List Char × Option Pending :=
  if byte < 0x80 then ([Char.ofNat byte.toNat], none)
  else if 0xC2 ≤ byte ∧ byte < 0xE0 then ([], some { code := byte.toNat % 32, owed := 1 })
  else if byte = 0xE0 then ([], some { code := 0, owed := 2, low := 0xA0 })
  else if byte = 0xED then ([], some { code := 13, owed := 2, high := 0x9F })
  else if 0xE1 ≤ byte ∧ byte < 0xF0 then ([], some { code := byte.toNat % 16, owed := 2 })
  else if byte = 0xF0 then ([], some { code := 0, owed := 3, low := 0x90 })
  else if 0xF1 ≤ byte ∧ byte < 0xF4 then ([], some { code := byte.toNat % 8, owed := 3 })
  else if byte = 0xF4 then ([], some { code := 4, owed := 3, high := 0x8F })
  else ([replacement], none)

/-- What the next byte amounts to. -/
def next (pending : Pending) (byte : UInt8) : List Char × Option Pending :=
  if pending.low ≤ byte ∧ byte ≤ pending.high then
    let code := pending.code * 64 + byte.toNat % 64
    if pending.owed ≤ 1 then ([Char.ofNat code], none)
    else ([], some { code, owed := pending.owed - 1 })
  else
    let (chars, begun) := first byte
    (replacement :: chars, begun)

def decodeFrom : Option Pending → Bytes → List Char
  | none, [] => []
  | some _, [] => [replacement]
  | none, byte :: rest => (first byte).1 ++ decodeFrom (first byte).2 rest
  | some pending, byte :: rest =>
      (next pending byte).1 ++ decodeFrom (next pending byte).2 rest

/-- The text that bytes are shown as. -/
def decode (bytes : Bytes) : String :=
  String.ofList (decodeFrom none bytes)

end ScriptBundle.Text.Utf8
