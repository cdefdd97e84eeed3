import ScriptBundle.Schedule.ContextPool

/-!
# Sessions

A session is what the contexts of one engine share while they run: the engine,
the pool they come from, the place for the call stack of the latest exception
and the record of line cues.
-/

namespace ScriptBundle

/-- The call stack of the latest exception; empty once it was taken. -/
structure ExceptionSlot where
  callStack : String := ""
  deriving DecidableEq, Repr, Inhabited

namespace ExceptionSlot

def record (_ : ExceptionSlot) (callStack : String) : ExceptionSlot :=
  { callStack }

def take (slot : ExceptionSlot) : String × ExceptionSlot :=
  (slot.callStack, {})

def isEmpty (slot : ExceptionSlot) : Bool :=
  slot.callStack = ""

end ExceptionSlot

/-- The request to end the program.  The last code counts. -/
structure ExitRequest where
  requested : Bool := false
  code : Int32 := 0
  deriving DecidableEq, Inhabited

def ExitRequest.request (_ : ExitRequest) (code : Int32) : ExitRequest :=
  { requested := true, code }

structure Session where
  engine : Engine
  pool : ContextPool := {}
  slot : ExceptionSlot := {}
  /-- The line cues passed so far. -/
  lines : List (String × UInt32) := []
  deriving Inhabited

namespace Session

/-- A session that passes line cues on if `lines`. -/
def ofEngine (engine : Engine) (lines : Bool) : Session :=
  { engine, pool := { hooks := { lines } } }

def acquire (session : Session) : Context × Session :=
  let (context, pool, engine) := session.pool.acquire session.engine
  (context, { session with pool, engine })

def release (session : Session) (context : Context) : Session :=
  { session with pool := session.pool.release context }

def drain (session : Session) : Session :=
  { session with pool := session.pool.drain }

/-- Records what a turn left behind. -/
def absorb (session : Session) (effects : Effects) : Session :=
  { session with
    engine := { session.engine with journal := session.engine.journal ++ effects.journal }
    slot :=
      match effects.callStack with
      | some callStack => session.slot.record callStack
      | none => session.slot
    lines := session.lines ++ effects.lines }

end Session

end ScriptBundle
