import ScriptBundle.Toml.Value

/-!
# Quoted text

Text has four quoted forms: on one line or on several, with escapes or without.
A writer takes the first form in which the text can stand as it is; text that
fits none of them is escaped.
-/

namespace ScriptBundle.Toml

/-- The character of a hexadecimal code, if there is one. -/
def hexValue? (digits : List Char) : Option Nat :=
  digits.foldlM
    (fun value digit =>
      if '0' ≤ digit ∧ digit ≤ '9' then some (16 * value + (digit.toNat - 48))
      else if 'a' ≤ digit ∧ digit ≤ 'f' then some (16 * value + (digit.toNat - 87))
      else if 'A' ≤ digit ∧ digit ≤ 'F' then some (16 * value + (digit.toNat - 55))
      else none)
    0

def charOfCode? (digits : List Char) : Option Char :=
  (hexValue? digits).bind fun value =>
    if Nat.isValidChar value then some (Char.ofNat value) else none

/-- The character that a one-letter escape stands for. -/
def simpleEscape? (letter : Char) : Option Char :=
  if letter = 'b' then some (Char.ofNat 8)
  else if letter = 't' then some '\t'
  else if letter = 'n' then some '\n'
  else if letter = 'f' then some (Char.ofNat 12)
  else if letter = 'r' then some '\r'
  else if letter = '"' then some '"'
  else if letter = '\\' then some '\\'
  else none

/-- Puts a character in front of what was read. -/
def prepend (char : Char) (read : Option (List Char × List Char)) :
    Option (List Char × List Char) :=
  read.map fun result => (char :: result.1, result.2)

/-- The rest of a line of text without escapes. -/
def literalBody : Reader (List Char)
  | [] => none
  | '\'' :: rest => some ([], rest)
  | char :: rest =>
      if isControl char then none else prepend char (literalBody rest)

/-- The rest of lines of text without escapes.  Up to two quotes in a row belong
to the text. -/
def literalLines : Reader (List Char)
  | '\'' :: '\'' :: '\'' :: '\'' :: '\'' :: rest => some (['\'', '\''], rest)
  | '\'' :: '\'' :: '\'' :: '\'' :: rest => some (['\''], rest)
  | '\'' :: '\'' :: '\'' :: rest => some ([], rest)
  | '\r' :: '\n' :: rest => prepend '\n' (literalLines rest)
  | '\n' :: rest => prepend '\n' (literalLines rest)
  | char :: rest => if isControl char then none else prepend char (literalLines rest)
  | [] => none

/-- The rest of a line of text with escapes. -/
def basicBody : Reader (List Char)
  | [] => none
  | '"' :: rest => some ([], rest)
  | '\\' :: 'u' :: a :: b :: c :: d :: rest =>
      match charOfCode? [a, b, c, d] with
      | some char => prepend char (basicBody rest)
      | none => none
  | '\\' :: 'U' :: a :: b :: c :: d :: e :: f :: g :: h :: rest =>
      match charOfCode? [a, b, c, d, e, f, g, h] with
      | some char => prepend char (basicBody rest)
      | none => none
  | '\\' :: letter :: rest =>
      match simpleEscape? letter with
      | some char => prepend char (basicBody rest)
      | none => none
  | char :: rest => if isControl char ∨ char = '\\' then none else prepend char (basicBody rest)

/-- Whether line ends and blanks are being passed over. -/
inductive Gap where
  | none
  /-- A backslash was met, and no line end yet. -/
  | backslash
  | lines
  deriving DecidableEq, Repr

/-- The rest of lines of text with escapes.  Up to two quotes in a row belong to
the text, and a backslash at the end of a line passes over line ends and
blanks. -/
def basicLines : Gap → Reader (List Char)
  | .backslash, char :: rest =>
      if isBlank char then basicLines .backslash rest
      else if char = '\n' then basicLines .lines rest
      else
        match char, rest with
        | '\r', '\n' :: rest => basicLines .lines rest
        | _, _ => none
  | .lines, ' ' :: rest => basicLines .lines rest
  | .lines, '\t' :: rest => basicLines .lines rest
  | .lines, '\n' :: rest => basicLines .lines rest
  | .lines, '\r' :: '\n' :: rest => basicLines .lines rest
  | _, '"' :: '"' :: '"' :: '"' :: '"' :: rest => some (['"', '"'], rest)
  | _, '"' :: '"' :: '"' :: '"' :: rest => some (['"'], rest)
  | _, '"' :: '"' :: '"' :: rest => some ([], rest)
  | _, '\r' :: '\n' :: rest => prepend '\n' (basicLines .none rest)
  | _, '\n' :: rest => prepend '\n' (basicLines .none rest)
  | _, '\\' :: 'u' :: a :: b :: c :: d :: rest =>
      match charOfCode? [a, b, c, d] with
      | some char => prepend char (basicLines .none rest)
      | none => none
  | _, '\\' :: 'U' :: a :: b :: c :: d :: e :: f :: g :: h :: rest =>
      match charOfCode? [a, b, c, d, e, f, g, h] with
      | some char => prepend char (basicLines .none rest)
      | none => none
  | _, '\\' :: letter :: rest =>
      match simpleEscape? letter with
      | some char => prepend char (basicLines .none rest)
      | none => basicLines .backslash (letter :: rest)
  | _, char :: rest =>
      if isControl char ∨ char = '\\' then none else prepend char (basicLines .none rest)
  | _, [] => none

/-- Drops the line end right after the opening quotes. -/
def skipFirstLineEnd (text : List Char) : List Char :=
  (lineEnd? text).getD text

/-- The text of the characters that were read. -/
def asText (read : Option (List Char × List Char)) : Option (String × List Char) :=
  read.map fun result => (String.ofList result.1, result.2)

/-- A quoted text on one line. -/
def readLine : Reader String
  | '"' :: rest => asText (basicBody rest)
  | '\'' :: rest => asText (literalBody rest)
  | _ => none

/-- A quoted text in any form. -/
def readQuoted : Reader String
  | '"' :: '"' :: '"' :: rest => asText (basicLines .none (skipFirstLineEnd rest))
  | '\'' :: '\'' :: '\'' :: rest => asText (literalLines (skipFirstLineEnd rest))
  | text => readLine text

/-- Whether a text has more than `limit` of a character in a row. -/
def hasRun (char : Char) (limit : Nat) : (run : Nat) → List Char → Bool
  | run, [] => limit < run
  | run, next :: rest =>
      limit < run || hasRun char limit (if next = char then run + 1 else 0) rest

/-- A control character in an escaped form; line ends are none. -/
def escapeControl (char : Char) : List Char :=
  let digit (value : Nat) := Char.ofNat (if value < 10 then 48 + value else 55 + value)
  if char.toNat = 8 then ['\\', 'b']
  else if char = '\t' then ['\\', 't']
  else if char.toNat = 12 then ['\\', 'f']
  else if char = '\r' then ['\\', 'r']
  else ['\\', 'u', '0', '0', digit (char.toNat / 16), digit (char.toNat % 16)]

/-- Text in a form with escapes, in which up to `quotes` quotes in a row stand
for themselves.  `run` counts the quotes just written. -/
def escaped (quotes : Nat) : (run : Nat) → List Char → List Char
  | _, [] => []
  | run, char :: rest =>
      if char = '"' then
        if run < quotes then '"' :: escaped quotes (run + 1) rest
        else '\\' :: '"' :: escaped quotes 0 rest
      else if char = '\\' then '\\' :: '\\' :: escaped quotes 0 rest
      else if char ≠ '\n' ∧ (isControl char ∨ char = '\t') then
        escapeControl char ++ escaped quotes 0 rest
      else char :: escaped quotes 0 rest

/-- The quoted form of a text. -/
def quote (text : String) : List Char :=
  let chars := text.toList
  let lines := chars.contains '\n'
  let controls := chars.any fun char => char ≠ '\n' ∧ isControl char
  let opening := if lines then ['\n'] else []
  let basic := '"' :: escaped 0 0 chars ++ ['"']
  let basicOnLines := ['"', '"', '"'] ++ opening ++ escaped 2 0 chars ++ ['"', '"', '"']
  if !lines && !controls && !chars.contains '\\' && !chars.contains '"' then basic
  else if !lines && !controls && !chars.contains '\'' then '\'' :: chars ++ ['\'']
  else if !controls && !chars.contains '\\' && !hasRun '"' 2 0 chars then basicOnLines
  else if !controls && !hasRun '\'' 2 0 chars then
    ['\'', '\'', '\''] ++ opening ++ chars ++ ['\'', '\'', '\'']
  else if lines then basicOnLines
  else basic

end ScriptBundle.Toml
