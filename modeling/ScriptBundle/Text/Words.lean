/-!
# Words of a text

Words are what stands between blanks.  A blank is any character with the Unicode
property `White_Space`.
-/

namespace ScriptBundle.Text

def isBlank (char : Char) : Bool :=
  let code := char.toNat
  0x09 ≤ code ∧ code ≤ 0x0D ∨ code = 0x20 ∨ code = 0x85 ∨ code = 0xA0 ∨ code = 0x1680 ∨
    0x2000 ≤ code ∧ code ≤ 0x200A ∨ code = 0x2028 ∨ code = 0x2029 ∨ code = 0x202F ∨
    code = 0x205F ∨ code = 0x3000

/-- The words of a text; `word` is the one being read, last character first. -/
def wordsFrom : (word : List Char) → List Char → List (List Char)
  | [], [] => []
  | word, [] => [word.reverse]
  | word, char :: chars =>
      if isBlank char then
        if word = [] then wordsFrom [] chars else word.reverse :: wordsFrom [] chars
      else wordsFrom (char :: word) chars

def words (text : String) : List String :=
  (wordsFrom [] text.toList).map String.ofList

/-- The text without the blanks at its ends. -/
def trim (text : String) : String :=
  String.ofList ((text.toList.dropWhile isBlank).reverse.dropWhile isBlank).reverse

/-- The number that digits write. -/
def ofDigits? (digits : List Char) : Option Nat :=
  if digits ≠ [] ∧ digits.all Char.isDigit then
    some (digits.foldl (fun value digit => 10 * value + (digit.toNat - 48)) 0)
  else none

/-- The number that digits write, if it is below a bound.  A plus sign may come
first. -/
def natBelow? (bound : Nat) (text : String) : Option Nat :=
  let digits :=
    match text.toList with
    | '+' :: digits => digits
    | digits => digits
  (ofDigits? digits).filter (· < bound)

def uint32? (text : String) : Option UInt32 :=
  (natBelow? UInt32.size text).map UInt32.ofNat

/-- As `uint32?`, and zero may also have a minus sign. -/
def signedUint32? (text : String) : Option UInt32 :=
  match text.toList with
  | '-' :: digits => if ofDigits? digits = some 0 then some 0 else none
  | _ => uint32? text

end ScriptBundle.Text
