import ScriptBundle.Toml.Number
import ScriptBundle.Toml.Quoted
import ScriptBundle.Toml.Tree

/-!
# Documents

A document is read line by line: headers, names with their values, comments.
Values nest less than `maxDepth` deep.
-/

namespace ScriptBundle.Toml

/-- Values nest, and dotted names have parts, less often than this. -/
def maxDepth : Nat := 80

/-- What follows a comment, if the text starts with one. -/
def afterComment? : List Char → Option (List Char)
  | '#' :: rest => some (rest.dropWhile fun char => !isControl char)
  | _ => none

/-- What follows the end of a line: blanks, a comment, and a line end or the end
of the text. -/
def afterLine? (text : List Char) : Option (List Char) :=
  let rest := skipBlanks text
  let rest := (afterComment? rest).getD rest
  if rest = [] then some [] else lineEnd? rest

/-- Passes over blanks, line ends and comments.  Every step takes a character,
so the length of the text bounds their number. -/
def skipSpace (text : List Char) : List Char :=
  go text.length text
where
  go : Nat → List Char → List Char
    | 0, text => text
    | left + 1, text =>
        match text with
        | ' ' :: rest => go left rest
        | '\t' :: rest => go left rest
        | '\n' :: rest => go left rest
        | '\r' :: '\n' :: rest => go left rest
        | text =>
            match afterComment? text with
            | some rest => go left rest
            | none => text

/-- A character of a name without quotes. -/
def isBare (char : Char) : Bool :=
  char.isAlphanum ∨ char = '_' ∨ char = '-'

/-- One part of a name. -/
def readPart : Reader String := fun text =>
  match text with
  | '"' :: _ => readLine text
  | '\'' :: _ => readLine text
  | _ =>
      let letters := text.takeWhile isBare
      if letters = [] then none else some (String.ofList letters, text.dropWhile isBare)

/-- A dotted name, with blanks around its parts, of at most `limit` parts. -/
def readParts : (limit : Nat) → Reader (List String)
  | 0, _ => none
  | limit + 1, text => do
      let (part, rest) ← readPart (skipBlanks text)
      match skipBlanks rest with
      | '.' :: rest =>
          let (parts, rest) ← readParts limit rest
          return (part :: parts, rest)
      | rest => return ([part], rest)

/-- A dotted name: the path to its last part, and its last part. -/
def readName : Reader (List String × String) := fun text => do
  let (parts, rest) ← readParts (maxDepth - 1) text
  return ((parts.dropLast, ← parts.getLast?), rest)

/-- A character of a word. -/
def isWordChar (char : Char) : Bool :=
  char.isAlphanum ∨ char = '_' ∨ char = '+' ∨ char = '-' ∨ char = '.' ∨ char = ':'

/-- A value that is a single word, or a date and a time of day with a blank
between them. -/
def readWord : Reader Value := fun text =>
  let word := text.takeWhile isWordChar
  let rest := text.dropWhile isWordChar
  match rest with
  | ' ' :: digit :: _ =>
      if isDate word && digit.isDigit then
        let next := (rest.drop 1).takeWhile isWordChar
        if isTimeWithOffset next then some (.time, (rest.drop 1).dropWhile isWordChar) else none
      else (wordValue? word).map fun value => (value, rest)
  | _ => (wordValue? word).map fun value => (value, rest)

/-- The values of a list up to its end.  `left` bounds their number. -/
def readItems (readItem : Reader Value) : (left : Nat) → Reader (List Value)
  | 0, _ => none
  | left + 1, text =>
      match skipSpace text with
      | ']' :: rest => some ([], rest)
      | text => do
          let (value, rest) ← readItem text
          match skipSpace rest with
          | ',' :: rest =>
              let (values, rest) ← readItems readItem left rest
              return (value :: values, rest)
          | ']' :: rest => return ([value], rest)
          | _ => none

/-- A name with its value. -/
def readPair (readItem : Reader Value) : Reader ((List String × String) × Value) := fun text => do
  let (name, rest) ← readName text
  match rest with
  | '=' :: rest =>
      let (value, rest) ← readItem (skipBlanks rest)
      return ((name, value), rest)
  | _ => none

/-- The members of a table on one line up to its end.  `left` bounds their
number. -/
def readPairs (readItem : Reader Value) : (left : Nat) → Members → Reader Members
  | 0, _, _ => none
  | left + 1, members, text => do
      let (((path, name), value), rest) ← readPair readItem text
      let members ← members.addDotted name value path
      match skipBlanks rest with
      | ',' :: rest => readPairs readItem left members rest
      | '}' :: rest => return (members, rest)
      | _ => none

/-- A value that holds no other values. -/
def readScalar : Reader Value
  | '"' :: rest => (readQuoted ('"' :: rest)).map fun result => (.string result.1, result.2)
  | '\'' :: rest => (readQuoted ('\'' :: rest)).map fun result => (.string result.1, result.2)
  | text => readWord text

/-- A value that nests at most `depth` deep. -/
def readValue : (depth : Nat) → Reader Value
  | 0, text => readScalar text
  | depth + 1, text =>
      match text with
      | '[' :: rest =>
          (readItems (readValue depth) (rest.length + 1) rest).map fun result =>
            (.array result.1, result.2)
      | '{' :: rest =>
          match skipBlanks rest with
          | '}' :: rest => some (.table [], rest)
          | inner =>
              (readPairs (readValue depth) (inner.length + 1) [] inner).map fun result =>
                (.table (memberValues result.1), result.2)
      | text => readScalar text

/-- What is defined so far, and the path of the last header. -/
structure Draft where
  members : Members
  path : List String

/-- What follows a line that defines something, and what is defined then. -/
def readDefinition (draft : Draft) (text : List Char) : Option (Draft × List Char) :=
  match text with
  | '[' :: '[' :: rest => do
      let ((path, name), rest) ← readName rest
      match rest with
      | ']' :: ']' :: rest =>
          let members ← draft.members.addTable path name
          return ({ members, path := path ++ [name] }, ← afterLine? rest)
      | _ => none
  | '[' :: rest => do
      let ((path, name), rest) ← readName rest
      match rest with
      | ']' :: rest =>
          let members ← draft.members.openTable path name
          return ({ members, path := path ++ [name] }, ← afterLine? rest)
      | _ => none
  | text => do
      let (((path, name), value), rest) ← readPair (readValue (maxDepth - 1)) text
      let members ← draft.members.atHeader (fun inner => inner.addDotted name value path) draft.path
      return ({ draft with members }, ← afterLine? rest)

/-- Reads definitions up to the end of the text.  Each of them takes a
character, so the length of the text bounds their number. -/
def readDefinitions : (left : Nat) → Draft → List Char → Option Members
  | 0, draft, text => if skipSpace text = [] then some draft.members else none
  | left + 1, draft, text =>
      let text := skipSpace text
      if text = [] then some draft.members
      else
        match readDefinition draft text with
        | some (draft, rest) => readDefinitions left draft rest
        | none => none

/-- Drops a byte order mark at the start. -/
def skipMark : List Char → List Char
  | first :: rest => if first.toNat = 0xFEFF then rest else first :: rest
  | [] => []

/-- The table that a document defines. -/
def parse? (text : String) : Option Value :=
  let chars := skipMark text.toList
  (readDefinitions chars.length { members := [], path := [] } chars).map fun members =>
    .table (memberValues members)

end ScriptBundle.Toml
