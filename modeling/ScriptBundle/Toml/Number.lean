import ScriptBundle.Toml.Value

/-!
# Numbers and times

A word that is no name is a number or a time.  Integers fit in 64 bits, numbers
with a fraction or an exponent stay below the largest double, and times are
those of the calendar and the clock.
-/

namespace ScriptBundle.Toml

/-- Further digits, each of which may follow an underscore. -/
def moreDigits (isDigit : Char → Bool) : List Char → List Char × List Char
  | '_' :: digit :: rest =>
      if isDigit digit then
        let (digits, rest) := moreDigits isDigit rest
        (digit :: digits, rest)
      else ([], '_' :: digit :: rest)
  | digit :: rest =>
      if isDigit digit then
        let (digits, rest) := moreDigits isDigit rest
        (digit :: digits, rest)
      else ([], digit :: rest)
  | [] => ([], [])

/-- Digits with single underscores between them. -/
def readDigits (isDigit : Char → Bool) : Reader (List Char)
  | digit :: rest =>
      if isDigit digit then
        let (digits, rest) := moreDigits isDigit rest
        some (digit :: digits, rest)
      else none
  | [] => none

def digitValue (digit : Char) : Nat :=
  if digit.isDigit then digit.toNat - 48
  else if 'a' ≤ digit then digit.toNat - 87
  else digit.toNat - 55

/-- The number that digits write in a base. -/
def baseValue (base : Nat) (digits : List Char) : Nat :=
  digits.foldl (fun value digit => base * value + digitValue digit) 0

def isDigitOf (base : Nat) (char : Char) : Bool :=
  char.isDigit ∧ char.toNat < 48 + base ∨
    base = 16 ∧ ('a' ≤ char ∧ char ≤ 'f' ∨ 'A' ≤ char ∧ char ≤ 'F')

/-- An integer of 64 bits. -/
def integer? (value : Int) : Option Value :=
  if -9223372036854775808 ≤ value ∧ value ≤ 9223372036854775807 then some (.integer value) else none

/-- An integer in another base than ten. -/
def basedInteger? (base : Nat) (digits : List Char) : Option Value :=
  match readDigits (isDigitOf base) digits with
  | some (digits, []) => integer? (baseValue base digits)
  | _ => none

/-- Whether digits times a power of ten reach beyond the doubles. -/
def isHuge (digits : List Char) (exponent : Int) : Bool :=
  let significant := digits.dropWhile (· = '0')
  let places := significant.length + exponent
  if significant = [] ∨ places < 300 then false
  else if 400 < places then true
  else
    let value := baseValue 10 significant
    let scaled := if 0 ≤ exponent then value * Nat.pow 10 exponent.toNat else value
    let unit := if 0 ≤ exponent then 1 else Nat.pow 10 (-exponent).toNat
    (Nat.pow 2 1024 - Nat.pow 2 970) * unit ≤ scaled

/-- The digits after a point, if there is one. -/
def readFraction : Reader (List Char)
  | '.' :: rest => readDigits Char.isDigit rest
  | rest => some ([], rest)

def readSign : List Char → Bool × List Char
  | '-' :: rest => (true, rest)
  | '+' :: rest => (false, rest)
  | rest => (false, rest)

/-- The exponent, if there is one. -/
def readExponent : Reader Int
  | letter :: rest =>
      if letter = 'e' ∨ letter = 'E' then
        let (negative, rest) := readSign rest
        (readDigits Char.isDigit rest).map fun result =>
          let value : Int := baseValue 10 result.1
          (if negative then -value else value, result.2)
      else some (0, letter :: rest)
  | [] => some (0, [])

/-- A decimal number.  Its integer part has no leading zeros. -/
def decimal? (negative : Bool) (text : List Char) : Option Value :=
  match readDigits Char.isDigit text with
  | none => none
  | some (whole, rest) =>
      if whole.head? = some '0' ∧ 1 < whole.length then none
      else if rest = [] then
        let value : Int := baseValue 10 whole
        integer? (if negative then -value else value)
      else
        match readFraction rest with
        | none => none
        | some (fraction, rest) =>
            match readExponent rest with
            | some (exponent, []) =>
                if !negative && isHuge (whole ++ fraction) (exponent - fraction.length) then none
                else some .float
            | _ => none

/-- The number that a word writes. -/
def number? (word : List Char) : Option Value :=
  match word with
  | '0' :: 'x' :: digits => basedInteger? 16 digits
  | '0' :: 'o' :: digits => basedInteger? 8 digits
  | '0' :: 'b' :: digits => basedInteger? 2 digits
  | word =>
      let (negative, unsigned) := readSign word
      if unsigned = ['i', 'n', 'f'] ∨ unsigned = ['n', 'a', 'n'] then some .float
      else decimal? negative unsigned

/-- The number that two digits write. -/
def twoDigits? (tens ones : Char) : Option Nat :=
  if tens.isDigit ∧ ones.isDigit then some (10 * digitValue tens + digitValue ones) else none

def isLeapYear (year : Nat) : Bool :=
  year % 4 = 0 ∧ (year % 100 ≠ 0 ∨ year % 400 = 0)

def daysOfMonth (year month : Nat) : Nat :=
  if month = 2 then (if isLeapYear year then 29 else 28)
  else if month = 4 ∨ month = 6 ∨ month = 9 ∨ month = 11 then 30
  else 31

/-- What follows a date, if the text starts with one. -/
def afterDate? : List Char → Option (List Char)
  | a :: b :: c :: d :: '-' :: e :: f :: '-' :: g :: h :: rest => do
      let year := 100 * (← twoDigits? a b) + (← twoDigits? c d)
      let month ← twoDigits? e f
      let day ← twoDigits? g h
      if 1 ≤ month ∧ month ≤ 12 ∧ 1 ≤ day ∧ day ≤ daysOfMonth year month then some rest else none
  | _ => none

/-- What follows a fraction of a second, if there is one. -/
def afterSecondFraction? : List Char → Option (List Char)
  | '.' :: rest =>
      if (rest.head?.map Char.isDigit).getD false then some (rest.dropWhile Char.isDigit) else none
  | rest => some rest

/-- What follows a time of day, if the text starts with one. -/
def afterTime? : List Char → Option (List Char)
  | a :: b :: ':' :: c :: d :: ':' :: e :: f :: rest => do
      let hour ← twoDigits? a b
      let minute ← twoDigits? c d
      let second ← twoDigits? e f
      if hour ≤ 23 ∧ minute ≤ 59 ∧ second ≤ 60 then afterSecondFraction? rest else none
  | _ => none

/-- Whether a text is empty or an offset from universal time. -/
def isOffset : List Char → Bool
  | [] => true
  | ['Z'] => true
  | ['z'] => true
  | [sign, a, b, ':', c, d] =>
      match twoDigits? a b, twoDigits? c d with
      | some hours, some minutes =>
          (sign = '+' ∨ sign = '-') ∧ hours ≤ 23 ∧ minutes ≤ 59
      | _, _ => false
  | _ => false

/-- Whether a text is a time of day with or without an offset. -/
def isTimeWithOffset (text : List Char) : Bool :=
  match afterTime? text with
  | some rest => isOffset rest
  | none => false

/-- Whether a word is a date. -/
def isDate (word : List Char) : Bool :=
  afterDate? word = some []

/-- Whether a word is a date, a time of day, or both. -/
def isTime (word : List Char) : Bool :=
  match afterDate? word with
  | some [] => true
  | some (letter :: rest) => (letter = 'T' ∨ letter = 't') ∧ isTimeWithOffset rest
  | none => afterTime? word = some []

/-- The value of a word. -/
def wordValue? (word : List Char) : Option Value :=
  if word = "true".toList then some (.boolean true)
  else if word = "false".toList then some (.boolean false)
  else if isTime word then some .time
  else number? word

end ScriptBundle.Toml
