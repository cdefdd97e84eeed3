/-!
# Hexadecimal numbers in messages

Offsets and words are shown in base 16 with lower-case digits, the width being
a minimum that is filled with leading zeros.
-/

namespace ScriptBundle.Hexadecimal

def digit (value : Nat) : Char :=
  if value < 10 then Char.ofNat (48 + value) else Char.ofNat (87 + value)

/-- The digits of `value` in base 16, at least one. -/
def digits (value : Nat) : List Char :=
  if value < 16 then [digit value]
  else digits (value / 16) ++ [digit (value % 16)]

/-- `value` as `0x…` with at least `width` digits. -/
def render (value : Nat) (width : Nat := 1) : String :=
  let shown := digits value
  "0x" ++ String.ofList (List.replicate (width - shown.length) '0' ++ shown)

end ScriptBundle.Hexadecimal
