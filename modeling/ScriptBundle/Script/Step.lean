/-!
# Steps of a script

A script function is a list of steps.  A step logs a line, marks a source line,
talks to other contexts, or ends the run of its context for now or for good.
-/

namespace ScriptBundle

/-- A span of time. -/
structure Duration where
  seconds : UInt64
  nanoseconds : UInt32
  nanoseconds_lt : nanoseconds < 1000000000
  deriving DecidableEq

namespace Duration

/-- The whole span in nanoseconds. -/
def inNanoseconds (duration : Duration) : Nat :=
  1000000000 * duration.seconds.toNat + duration.nanoseconds.toNat

/-- The span of so many seconds and nanoseconds.  Nanoseconds beyond a second
are carried; a span of more than 64-bit seconds does not exist. -/
def ofParts? (seconds : UInt64) (nanoseconds : UInt32) : Option Duration :=
  let whole := seconds.toNat + nanoseconds.toNat / 1000000000
  if whole < UInt64.size then
    some
      { seconds := UInt64.ofNat whole
        nanoseconds := nanoseconds % 1000000000
        nanoseconds_lt := by
          rw [UInt32.lt_iff_toNat_lt, UInt32.toNat_mod]
          exact Nat.mod_lt _ (by decide) }
  else none

end Duration

/-- The name of an event that contexts can wait for. -/
abbrev EventId := UInt64

/-- What a function gives back when it ends. -/
inductive ReturnValue where
  | void
  | int (value : Int32)
  | bool (value : Bool)
  deriving DecidableEq

inductive Step where
  | yield
  | sleep (duration : Duration)
  | wait (event : EventId)
  | signal (event : EventId)
  /-- Starts another function on a context of its own. -/
  | spawn (declaration : String)
  /-- Asks for the end of the program. -/
  | exit (code : Int32)
  | raise (message : String)
  /-- Asks for the end of the program and raises. -/
  | exitThenRaise (code : Int32) (message : String)
  /-- A line cue, which is dropped with the debug information. -/
  | line (number : UInt32)
  /-- Adds a line to the journal of the engine. -/
  | log (text : String)
  | finish (value : ReturnValue)
  deriving DecidableEq

end ScriptBundle
