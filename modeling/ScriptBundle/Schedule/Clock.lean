/-!
# Time

A clock is read again and again; its readings are given in advance, and the time
spent waiting is added to the readings that follow.  Times and spans are in
nanoseconds.
-/

namespace ScriptBundle

abbrev Instant := Nat

/-- The first time that a clock of signed 64-bit seconds cannot show. -/
def clockEnd : Instant := 9223372036854775808 * 1000000000

structure Clock where
  /-- The readings of a clock that never waits. -/
  readings : Nat → Instant
  /-- How often the clock has been read. -/
  taken : Nat := 0
  /-- The time spent waiting. -/
  waited : Nat := 0
  deriving Inhabited

namespace Clock

def read (clock : Clock) : Instant × Clock :=
  (clock.readings clock.taken + clock.waited, { clock with taken := clock.taken + 1 })

def wait (clock : Clock) (span : Nat) : Clock :=
  { clock with waited := clock.waited + span }

/-- A clock that moves on by `step` with each reading. -/
def ticking (step : Nat) : Clock :=
  { readings := fun index => (index + 1) * step }

end Clock

end ScriptBundle
