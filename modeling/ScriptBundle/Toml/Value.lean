/-!
# Configuration values

Values of a configuration document.  Numbers that are no integers, and times,
have no use here, so they are known by their kind alone.
-/

namespace ScriptBundle.Toml

inductive Value where
  | string (text : String)
  | integer (value : Int)
  | float
  | boolean (value : Bool)
  | time
  | array (items : List Value)
  | table (members : List (String × Value))
  deriving Inhabited

/-- A reader takes what it recognises off the front of a text. -/
abbrev Reader (α : Type) := List Char → Option (α × List Char)

/-- A blank within a line. -/
def isBlank (char : Char) : Bool :=
  char = ' ' ∨ char = '\t'

def skipBlanks (text : List Char) : List Char :=
  text.dropWhile isBlank

/-- A control character that may not stand for itself; tabs may. -/
def isControl (char : Char) : Bool :=
  char.toNat < 32 ∧ char ≠ '\t' ∨ char.toNat = 127

/-- What follows a line end, if the text starts with one. -/
def lineEnd? : List Char → Option (List Char)
  | '\n' :: rest => some rest
  | '\r' :: '\n' :: rest => some rest
  | _ => none

end ScriptBundle.Toml
