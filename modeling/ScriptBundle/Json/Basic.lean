/-!
# JSON values

Values as far as a reader of typed data needs them: a number is an integer or it
is not, and a string literal may fail to denote text, which matters only where
its text is asked for.  Objects keep their members in order, repeated names
included.
-/

namespace ScriptBundle

inductive Json where
  | null
  | boolean (value : Bool)
  | integer (value : Int)
  /-- A number that is not written as an integer. -/
  | fraction
  /-- A string literal with the text it denotes, if there is one. -/
  | string (text : Option String)
  | array (items : List Json)
  | object (members : List (Option String × Json))
  deriving Inhabited

namespace Json

def text (value : String) : Json := .string (some value)

def number (value : Nat) : Json := .integer value

/-- An object whose names are all text. -/
def ofMembers (members : List (String × Json)) : Json :=
  .object (members.map fun entry => (some entry.1, entry.2))

/-- Lower-case digits of a control character, four of them. -/
def controlDigits (value : Nat) : List Char :=
  ['0', '0', Char.ofNat (48 + value / 16),
    Char.ofNat (if value % 16 < 10 then 48 + value % 16 else 87 + value % 16)]

/-- A character as it stands in a string literal. -/
def escape (char : Char) : List Char :=
  if char = '"' then ['\\', '"']
  else if char = '\\' then ['\\', '\\']
  else if char = '\n' then ['\\', 'n']
  else if char = '\r' then ['\\', 'r']
  else if char = '\t' then ['\\', 't']
  else if char.toNat = 8 then ['\\', 'b']
  else if char.toNat = 12 then ['\\', 'f']
  else if char.toNat < 32 then '\\' :: 'u' :: controlDigits char.toNat
  else [char]

/-- A string literal. -/
def quote (value : String) : List Char :=
  '"' :: value.toList.flatMap escape ++ ['"']

def quoteText (text : Option String) : List Char :=
  quote (text.getD "")

/-- The pieces with `separator` between them. -/
def separated (separator : List Char) : List (List Char) → List Char
  | [] => []
  | [piece] => piece
  | piece :: pieces => piece ++ separator ++ separated separator pieces

mutual

/-- The value without any blanks. -/
def compact : Json → List Char
  | .null => "null".toList
  | .boolean true => "true".toList
  | .boolean false => "false".toList
  | .integer value => (toString value).toList
  | .fraction => "0.0".toList
  | .string text => quoteText text
  | .array items => '[' :: separated [','] (compactItems items) ++ [']']
  | .object members => '{' :: separated [','] (compactMembers members) ++ ['}']

def compactItems : List Json → List (List Char)
  | [] => []
  | item :: items => compact item :: compactItems items

def compactMembers : List (Option String × Json) → List (List Char)
  | [] => []
  | (name, value) :: members => (quoteText name ++ ':' :: compact value) :: compactMembers members

end

/-- The start of a line at a depth. -/
def newLine (depth : Nat) : List Char :=
  '\n' :: List.replicate (2 * depth) ' '

/-- A container with each piece on a line of its own, or nothing between its
brackets. -/
def bracketed (opening closing : Char) (depth : Nat) (pieces : List (List Char)) : List Char :=
  match pieces with
  | [] => [opening, closing]
  | pieces =>
      opening :: newLine (depth + 1) ++ separated (',' :: newLine (depth + 1)) pieces ++
        newLine depth ++ [closing]

mutual

/-- The value spread over lines, which are indented by two blanks a level. -/
def pretty (depth : Nat) : Json → List Char
  | .array items => bracketed '[' ']' depth (prettyItems (depth + 1) items)
  | .object members => bracketed '{' '}' depth (prettyMembers (depth + 1) members)
  | .null => "null".toList
  | .boolean true => "true".toList
  | .boolean false => "false".toList
  | .integer value => (toString value).toList
  | .fraction => "0.0".toList
  | .string text => quoteText text

def prettyItems (depth : Nat) : List Json → List (List Char)
  | [] => []
  | item :: items => pretty depth item :: prettyItems depth items

def prettyMembers (depth : Nat) : List (Option String × Json) → List (List Char)
  | [] => []
  | (name, value) :: members =>
      (quoteText name ++ ':' :: ' ' :: pretty depth value) :: prettyMembers depth members

end

end Json

end ScriptBundle
