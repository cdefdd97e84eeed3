import ScriptBundle.Json.Basic
import ScriptBundle.Json.Token

/-!
# Reading JSON values

The tokens of a document are put together to a value.  The containers that are
still open are kept in a list, so documents may be nested as deeply as they
like.
-/

namespace ScriptBundle.Json

/-- Drops digits from the front. -/
def skipDigits (letters : List Char) : List Char :=
  letters.dropWhile Char.isDigit

def startsWithDigit (letters : List Char) : Bool :=
  (letters.head?.map Char.isDigit).getD false

/-- What follows an exponent, if there is one; `none` for a broken one. -/
def skipExponent : List Char → Option (List Char)
  | letter :: rest =>
      if letter = 'e' ∨ letter = 'E' then
        let unsigned :=
          match rest with
          | '+' :: digits => digits
          | '-' :: digits => digits
          | digits => digits
        if startsWithDigit unsigned then some (skipDigits unsigned) else none
      else some (letter :: rest)
  | [] => some []

/-- What follows a fraction, if there is one; `none` for a broken one. -/
def skipFraction : List Char → Option (List Char)
  | '.' :: rest => if startsWithDigit rest then some (skipDigits rest) else none
  | letters => some letters

/-- The value of an unsigned integer. -/
def digitsValue (digits : List Char) : Nat :=
  digits.foldl (fun value digit => 10 * value + (digit.toNat - 48)) 0

/-- The digits in front of the fraction, and what follows them.  A zero stands
alone. -/
def wholePart? : List Char → Option (List Char × List Char)
  | '0' :: rest => some (['0'], rest)
  | letters =>
      if startsWithDigit letters then some (letters.takeWhile Char.isDigit, skipDigits letters)
      else none

/-- The number that a word without its sign writes. -/
def unsignedNumber? (negative : Bool) (letters : List Char) : Option Json :=
  match wholePart? letters with
  | none => none
  | some (digits, rest) =>
      match (skipFraction rest).bind skipExponent with
      | some [] =>
          let value := digitsValue digits
          if rest ≠ [] ∨ negative ∧ value = 0 then some .fraction
          else some (.integer (if negative then -value else value))
      | _ => none

/-- The value that a word stands for. -/
def wordValue? (letters : List Char) : Option Json :=
  if letters = "null".toList then some .null
  else if letters = "true".toList then some (.boolean true)
  else if letters = "false".toList then some (.boolean false)
  else
    match letters with
    | '-' :: digits => unsignedNumber? true digits
    | digits => unsignedNumber? false digits

/-- An open container, its finished parts last first. -/
inductive Frame where
  | array (items : List Json)
  | object (members : List (Option String × Json)) (name : Option String)

/-- What may come next. -/
inductive Expected where
  | value
  /-- The first item of an array, or its end. -/
  | firstItem
  /-- The first member of an object, or its end. -/
  | firstMember (members : List (Option String × Json))
  | member (members : List (Option String × Json))
  | colon (members : List (Option String × Json)) (name : Option String)
  /-- A value has been read. -/
  | after (value : Json)

/-- Starts a value.  An object is open once its first name is read. -/
def startValue (frames : List Frame) : Token → Option (List Frame × Expected)
  | .openArray => some (.array [] :: frames, .firstItem)
  | .openObject => some (frames, .firstMember [])
  | .string text => some (frames, .after (.string text))
  | .word letters => (wordValue? letters).map fun value => (frames, .after value)
  | _ => none

/-- Takes one more token. -/
def takeToken (frames : List Frame) (expected : Expected) (token : Token) :
    Option (List Frame × Expected) :=
  match expected, token, frames with
  | .firstItem, .closeArray, .array items :: frames =>
      some (frames, .after (.array items.reverse))
  | .firstItem, token, frames => startValue frames token
  | .value, token, frames => startValue frames token
  | .firstMember members, .closeObject, frames =>
      some (frames, .after (.object members.reverse))
  | .firstMember members, .string name, frames => some (frames, .colon members name)
  | .member members, .string name, frames => some (frames, .colon members name)
  | .colon members name, .colon, frames => some (.object members name :: frames, .value)
  | .after value, .comma, .array items :: frames => some (.array (value :: items) :: frames, .value)
  | .after value, .closeArray, .array items :: frames =>
      some (frames, .after (.array (value :: items).reverse))
  | .after value, .comma, .object members name :: frames =>
      some (frames, .member ((name, value) :: members))
  | .after value, .closeObject, .object members name :: frames =>
      some (frames, .after (.object ((name, value) :: members).reverse))
  | _, _, _ => none

def valueFrom : List Frame → Expected → List Token → Option Json
  | [], .after value, [] => some value
  | _, _, [] => none
  | frames, expected, token :: tokens =>
      match takeToken frames expected token with
      | none => none
      | some (frames, expected) => valueFrom frames expected tokens

/-- The value that a document holds, if it holds exactly one. -/
def parse? (bytes : Bytes) : Option Json :=
  (tokens bytes).bind (valueFrom [] .value)

end ScriptBundle.Json
