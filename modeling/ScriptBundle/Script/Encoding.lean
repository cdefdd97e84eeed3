import ScriptBundle.Json.Reader
import ScriptBundle.Script.Program
import ScriptBundle.Varint

/-!
# Programs as bytes

A program is saved as a JSON document behind its length.  The reader of the
document accepts the members in any order and ignores members it does not know,
and it takes a list of its parts in place of an object; it refuses members that
are missing or come twice and numbers outside their range.
-/

namespace ScriptBundle

namespace Json

/-- An integer between two bounds. -/
def integerIn? (low high : Int) : Json → Option Int
  | .integer value => if low ≤ value ∧ value ≤ high then some value else none
  | _ => none

def uint32? (json : Json) : Option UInt32 :=
  (json.integerIn? 0 0xFFFFFFFF).map fun value => UInt32.ofNat value.toNat

def uint64? (json : Json) : Option UInt64 :=
  (json.integerIn? 0 0xFFFFFFFFFFFFFFFF).map fun value => UInt64.ofNat value.toNat

def int32? (json : Json) : Option Int32 :=
  (json.integerIn? (-0x80000000) 0x7FFFFFFF).map Int32.ofInt

def boolean? : Json → Option Bool
  | .boolean value => some value
  | _ => none

def text? : Json → Option String
  | .string text => text
  | _ => none

def array? : Json → Option (List Json)
  | .array items => some items
  | _ => none

/-- The value of a member that occurs once. -/
def once? (members : List (Option String × Json)) (name : String) : Option Json :=
  match members.filter fun entry => entry.1 = some name with
  | [(_, value)] => some value
  | _ => none

/-- Two parts given as an object or as a list.  Members with other names are
passed over if `lenient`; every name has to be text. -/
def twoParts? (first second : String) (lenient : Bool) : Json → Option (Json × Json)
  | .array [left, right] => some (left, right)
  | .object members =>
      let known := members.all fun entry =>
        match entry.1 with
        | none => false
        | some name => lenient ∨ name = first ∨ name = second
      if known then
        match once? members first, once? members second with
        | some left, some right => some (left, right)
        | _, _ => none
      else none
  | _ => none

/-- A choice with its content: a name alone stands for a choice without
content. -/
def choice? : Json → Option (String × Option Json)
  | .string text => text.map fun name => (name, none)
  | .object [(some name, value)] => some (name, some value)
  | _ => none

end Json

namespace Duration

def toJson (duration : Duration) : Json :=
  .ofMembers
    [("secs", .number duration.seconds.toNat), ("nanos", .number duration.nanoseconds.toNat)]

def ofJson? (json : Json) : Option Duration := do
  let (seconds, nanoseconds) ← json.twoParts? "secs" "nanos" false
  ofParts? (← seconds.uint64?) (← nanoseconds.uint32?)

end Duration

namespace ReturnValue

def toJson : ReturnValue → Json
  | .void => .text "Void"
  | .int value => .ofMembers [("Int", .integer value.toInt)]
  | .bool value => .ofMembers [("Bool", .boolean value)]

def ofJson? (json : Json) : Option ReturnValue := do
  match ← json.choice? with
  | ("Void", none) => some .void
  | ("Void", some .null) => some .void
  | ("Int", some value) => return .int (← value.int32?)
  | ("Bool", some value) => return .bool (← value.boolean?)
  | _ => none

end ReturnValue

namespace Step

def toJson : Step → Json
  | .yield => .text "Yield"
  | .sleep duration => .ofMembers [("Sleep", duration.toJson)]
  | .wait event => .ofMembers [("Wait", .number event.toNat)]
  | .signal event => .ofMembers [("Signal", .number event.toNat)]
  | .spawn declaration => .ofMembers [("Spawn", .text declaration)]
  | .exit code => .ofMembers [("Exit", .integer code.toInt)]
  | .raise message => .ofMembers [("Throw", .text message)]
  | .exitThenRaise code message =>
      .ofMembers [("ExitThenThrow", .array [.integer code.toInt, .text message])]
  | .line number => .ofMembers [("Line", .number number.toNat)]
  | .log text => .ofMembers [("Log", .text text)]
  | .finish value => .ofMembers [("Return", value.toJson)]

def ofJson? (json : Json) : Option Step := do
  match ← json.choice? with
  | ("Yield", none) => some .yield
  | ("Yield", some .null) => some .yield
  | ("Sleep", some value) => return .sleep (← Duration.ofJson? value)
  | ("Wait", some value) => return .wait (← value.uint64?)
  | ("Signal", some value) => return .signal (← value.uint64?)
  | ("Spawn", some value) => return .spawn (← value.text?)
  | ("Exit", some value) => return .exit (← value.int32?)
  | ("Throw", some value) => return .raise (← value.text?)
  | ("ExitThenThrow", some (.array [code, message])) =>
      return .exitThenRaise (← code.int32?) (← message.text?)
  | ("Line", some value) => return .line (← value.uint32?)
  | ("Log", some value) => return .log (← value.text?)
  | ("Return", some value) => return .finish (← ReturnValue.ofJson? value)
  | _ => none

end Step

namespace Program

def toJson (program : Program) : Json :=
  .ofMembers
    [("debug", .boolean program.debug),
     ("functions", .ofMembers (program.functions.map fun entry =>
        (entry.1, .array (entry.2.map Step.toJson))))]

/-- The members of an object whose names are all text. -/
def entriesOfJson? : Json → Option (List (String × List Step))
  | .object members =>
      members.mapM fun entry => do
        let declaration ← entry.1
        let items ← entry.2.array?
        return (declaration, ← items.mapM Step.ofJson?)
  | _ => none

/-- Of two functions with one declaration the later one counts. -/
def ofJson? (json : Json) : Option Program := do
  let (debug, functions) ← json.twoParts? "debug" "functions" true
  return ofFunctions (← debug.boolean?) (← entriesOfJson? functions)

/-- The document of a program. -/
def document (program : Program) : Bytes :=
  (String.ofList program.toJson.compact).toUTF8.toList

/-- The saved form: the length of the document and the document. -/
def encode (program : Program) : Bytes :=
  let document := program.document
  Varint.encode document.length ++ document

end Program

end ScriptBundle
