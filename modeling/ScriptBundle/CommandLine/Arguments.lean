/-!
# Arguments

An argument is a word, an option with a long name, or a cluster of options with
names of one letter.  The value of an option follows it in the same argument or
is the next argument; in the second case it may not look like an option.  After
`--` there are only words.
-/

namespace ScriptBundle.CommandLine

/-- The options of the program. -/
inductive OptionName where
  | verbose
  | config
  | help
  | version
  | script
  | directive
  | output
  | platform
  | level
  | release
  | console
  | stubDir
  | resource
  | resourceDir
  | quiet
  | properties
  | json
  deriving DecidableEq, Repr

/-- Why the arguments are not carried out. -/
inductive Stop where
  | usage
  | help
  | version
  deriving DecidableEq, Repr

structure OptionSpec where
  name : OptionName
  long : String
  short : Option Char := none
  /-- The values it takes; none if it takes no value. -/
  accepts : Option (String → Bool) := none
  repeatable : Bool := false

/-- An option as it was given, with its value or an empty text. -/
abbrev Given := List (OptionName × String)

/-- Adds an option to those given before it. -/
def record (given : Given) (spec : OptionSpec) (value : String) : Except Stop Given :=
  match spec.name with
  | .help => .error .help
  | .version => .error .version
  | name =>
      if !spec.repeatable && given.any (·.1 = name) then .error .usage
      else
        match spec.accepts with
        | some accepts =>
            if accepts value then .ok (given ++ [(name, value)]) else .error .usage
        | none => .ok (given ++ [(name, value)])

/-- The shape of an argument. -/
inductive Argument where
  | word (text : String)
  | separator
  | long (name : List Char) (value : Option (List Char))
  | cluster (letters : List Char)
  deriving DecidableEq, Repr

namespace Argument

/-- Splits a long option at the first equals sign. -/
def ofLong (text : List Char) : Argument :=
  match text.dropWhile (· ≠ '=') with
  | [] => .long text none
  | _ :: value => .long (text.takeWhile (· ≠ '=')) (some value)

def ofText (text : String) : Argument :=
  match text.toList with
  | ['-', '-'] => .separator
  | '-' :: '-' :: rest => ofLong rest
  | '-' :: letter :: rest => .cluster (letter :: rest)
  | _ => .word text

end Argument

/-- The options given so far, and the one that waits for its value. -/
abbrev Reading := Given × Option OptionSpec

/-- Reads a long option. -/
def readLong (specs : List OptionSpec) (given : Given) (name : List Char)
    (value : Option (List Char)) : Except Stop Reading :=
  match specs.find? fun spec => spec.long.toList = name, value with
  | none, _ => .error .usage
  | some spec, none =>
      if spec.accepts.isSome then .ok (given, some spec)
      else (record given spec "").map fun given => (given, none)
  | some spec, some value =>
      if spec.accepts.isSome then
        (record given spec (String.ofList value)).map fun given => (given, none)
      else .error .usage

/-- Reads a cluster.  What follows an option that takes a value is its value,
without an equals sign in front. -/
def readCluster (specs : List OptionSpec) (given : Given) : List Char → Except Stop Reading
  | [] => .ok (given, none)
  | letter :: rest =>
      match specs.find? fun spec => spec.short = some letter with
      | none => .error .usage
      | some spec =>
          if spec.accepts.isSome then
            match rest with
            | [] => .ok (given, some spec)
            | '=' :: value =>
                (record given spec (String.ofList value)).map fun given => (given, none)
            | value => (record given spec (String.ofList value)).map fun given => (given, none)
          else
            match record given spec "" with
            | .ok given => readCluster specs given rest
            | .error stop => .error stop

/-- Reads arguments up to the first word, which is given back with the arguments
behind it. -/
def readToWord (specs : List OptionSpec) :
    Reading → List String → Except Stop (Given × Option (String × List String))
  | (given, none), [] => .ok (given, none)
  | (_, some _), [] => .error .usage
  | (given, pending), text :: rest =>
      match Argument.ofText text, pending with
      | .word text, none => .ok (given, some (text, rest))
      | .word text, some spec =>
          match record given spec text with
          | .ok given => readToWord specs (given, none) rest
          | .error stop => .error stop
      | _, some _ => .error .usage
      | .separator, none => .error .usage
      | .long name value, none =>
          match readLong specs given name value with
          | .ok reading => readToWord specs reading rest
          | .error stop => .error stop
      | .cluster letters, none =>
          match readCluster specs given letters with
          | .ok reading => readToWord specs reading rest
          | .error stop => .error stop

/-- Reads all arguments: the options, and at most `limit` words in their order. -/
def readAll (specs : List OptionSpec) (limit : Nat) :
    Reading → (words : List String) → List String → Except Stop (Given × List String)
  | (given, none), words, [] => .ok (given, words)
  | (_, some _), _, [] => .error .usage
  | (given, pending), words, text :: rest =>
      match Argument.ofText text, pending with
      | .word text, none =>
          if words.length < limit then readAll specs limit (given, none) (words ++ [text]) rest
          else .error .usage
      | .word text, some spec =>
          match record given spec text with
          | .ok given => readAll specs limit (given, none) words rest
          | .error stop => .error stop
      | _, some _ => .error .usage
      | .separator, none =>
          if words.length + rest.length ≤ limit then .ok (given, words ++ rest)
          else .error .usage
      | .long name value, none =>
          match readLong specs given name value with
          | .ok reading => readAll specs limit reading words rest
          | .error stop => .error stop
      | .cluster letters, none =>
          match readCluster specs given letters with
          | .ok reading => readAll specs limit reading words rest
          | .error stop => .error stop

end ScriptBundle.CommandLine
