import ScriptBundle.Schedule.Clock
import ScriptBundle.Schedule.Session

/-!
# The supervisor

A supervisor runs contexts in turns.  It keeps the active contexts by id; three
queues of ids say which of them are ready, asleep or waiting for an event.  Each
pass gives every ready context one turn, first come, first served.  A context
that suspends itself becomes ready again at once, at a deadline, or when an event
is signalled; an event that nobody waits for is latched for the next context that
does.  A request to exit ends everything at once.
-/

namespace ScriptBundle

abbrev ContextId := Nat

/-- A context under the care of a supervisor. -/
structure Task where
  id : ContextId
  context : Context
  deriving DecidableEq

/-- A final state of a context that was to be retained, and the context while
nobody has taken it. -/
structure Result where
  id : ContextId
  state : ExecutionState
  context : Option Context
  deriving DecidableEq

/-- Why a run breaks off. -/
inductive Interruption where
  /-- It was not given enough passes. -/
  | outOfPasses
  /-- A deadline lies beyond what the clock can show. -/
  | clockOverflow
  deriving DecidableEq, Repr

structure Supervisor where
  session : Session
  clock : Clock
  exit : ExitRequest := {}
  /-- The contexts that have not come to an end, but for the one whose turn it
  is. -/
  active : List Task := []
  /-- The contexts of the next pass, in order. -/
  ready : List ContextId := []
  /-- Sleeping contexts by deadline, and by id within a deadline. -/
  sleeping : List (Instant × ContextId) := []
  /-- Contexts that wait for an event, in the order they came. -/
  waiting : List (EventId × ContextId) := []
  /-- Events that were signalled while nobody waited for them. -/
  latched : List EventId := []
  /-- The ids whose final state is to be kept. -/
  retained : List ContextId := []
  results : List Result := []
  /-- Events sent from outside and not yet delivered. -/
  inbox : List EventId := []
  /-- The number of those who can still send events. -/
  senders : Nat := 0
  nextId : ContextId := 1
  /-- The longest single wait. -/
  idlePoll : Nat

namespace Supervisor

/-- The longest single wait unless another one is asked for. -/
def defaultIdlePoll : Nat := 100000000

def create (session : Session) (clock : Clock) (exit : ExitRequest) (idlePoll : Nat) : Supervisor :=
  { session, clock, exit, idlePoll }

/-- Lets one more party send events. -/
def addSender (supervisor : Supervisor) : Supervisor :=
  { supervisor with senders := supervisor.senders + 1 }

/-- Takes note that a party will send no more events. -/
def dropSender (supervisor : Supervisor) : Supervisor :=
  { supervisor with senders := supervisor.senders - 1 }

/-- Sends an event from outside. -/
def send (supervisor : Supervisor) (event : EventId) : Supervisor :=
  { supervisor with inbox := supervisor.inbox ++ [event] }

/-- Asks for the end of the program. -/
def requestExit (supervisor : Supervisor) (code : Int32) : Supervisor :=
  { supervisor with exit := supervisor.exit.request code }

/-- The active context with an id. -/
def context? (supervisor : Supervisor) (id : ContextId) : Option Context :=
  (supervisor.active.find? fun task => task.id = id).map (·.context)

/-- Takes the context with an id out of the active ones. -/
def remove (supervisor : Supervisor) (id : ContextId) : Supervisor :=
  { supervisor with active := supervisor.active.filter fun task => task.id ≠ id }

/-- Makes a context active, in place of one with the same id. -/
def keep (supervisor : Supervisor) (task : Task) : Supervisor :=
  { supervisor with active := (supervisor.remove task.id).active ++ [task] }

/-- Starts a function on a pooled context.  The final state of a retained
context is kept. -/
def add (supervisor : Supervisor) (function : ScriptFunction) (retain : Bool) :
    Except EngineError ContextId × Supervisor :=
  let (context, session) := supervisor.session.acquire
  match context.prepare function with
  | .error error => (.error error, { supervisor with session := session.release context })
  | .ok context =>
      let id := supervisor.nextId
      (.ok id,
        { supervisor.keep { id, context } with
          session
          nextId := id + 1
          retained := if retain then id :: supervisor.retained else supervisor.retained
          ready := supervisor.ready ++ [id] })

/-- The result of a retained context. -/
def result? (supervisor : Supervisor) (id : ContextId) : Option Result :=
  supervisor.results.find? fun result => result.id = id

/-- The final state of a retained context. -/
def state? (supervisor : Supervisor) (id : ContextId) : Option ExecutionState :=
  (supervisor.result? id).map (·.state)

/-- Takes a retained context that came to an end.  Its state stays. -/
def takeContext (supervisor : Supervisor) (id : ContextId) : Option Context × Supervisor :=
  ((supervisor.result? id).bind (·.context),
    { supervisor with
      results := supervisor.results.map fun result =>
        if result.id = id then { result with context := none } else result })

/-- Wakes the contexts that wait for an event, or latches it. -/
def deliver (supervisor : Supervisor) (event : EventId) : Supervisor :=
  let (woken, waiting) := supervisor.waiting.partition fun entry => entry.1 = event
  if woken.isEmpty then { supervisor with latched := supervisor.latched.insert event }
  else { supervisor with ready := supervisor.ready ++ woken.map (·.2), waiting }

/-- Delivers the events that were sent from outside. -/
def collect (supervisor : Supervisor) : Supervisor :=
  supervisor.inbox.foldl deliver { supervisor with inbox := [] }

/-- Makes the sleepers ready whose deadline has come. -/
def wake (supervisor : Supervisor) (now : Instant) : Supervisor :=
  let due := supervisor.sleeping.takeWhile fun entry => entry.1 ≤ now
  { supervisor with
    ready := supervisor.ready ++ due.map (·.2)
    sleeping := supervisor.sleeping.drop due.length }

/-- Puts a sleeper into its place. -/
def insertSleeper (deadline : Instant) (id : ContextId) :
    List (Instant × ContextId) → List (Instant × ContextId)
  | [] => [(deadline, id)]
  | entry :: entries =>
      if deadline < entry.1 ∨ deadline = entry.1 ∧ id ≤ entry.2 then
        (deadline, id) :: entry :: entries
      else entry :: insertSleeper deadline id entries

/-- Keeps the final state of a context that is to be retained. -/
def conclude (supervisor : Supervisor) (id : ContextId) (state : ExecutionState)
    (context : Option Context) : Supervisor :=
  if id ∈ supervisor.retained then
    { supervisor with results := { id, state, context } :: supervisor.results }
  else supervisor

/-- Ends all contexts.  None of them goes back to the pool. -/
def abortAll (supervisor : Supervisor) : Supervisor :=
  supervisor.active.foldl
    (fun supervisor task => supervisor.conclude task.id .aborted none)
    { supervisor with active := [], ready := [], sleeping := [], waiting := [] }

/-- Queues a context that suspended itself in a turn that began at `now`. -/
def park (supervisor : Supervisor) (id : ContextId) (suspension : Suspension) (now : Instant) :
    Except Interruption Supervisor :=
  match suspension with
  | .yield => .ok { supervisor with ready := supervisor.ready ++ [id] }
  | .sleep duration =>
      let deadline := now + duration.inNanoseconds
      if deadline < clockEnd then
        .ok { supervisor with sleeping := insertSleeper deadline id supervisor.sleeping }
      else .error .clockOverflow
  | .wait event =>
      if event ∈ supervisor.latched then
        .ok { supervisor with
          latched := supervisor.latched.erase event
          ready := supervisor.ready ++ [id] }
      else .ok { supervisor with waiting := supervisor.waiting ++ [(event, id)] }

/-- Deals with a context at the end of its turn, which began at `now`. -/
def settle (supervisor : Supervisor) (task : Task) (state : ExecutionState) (now : Instant) :
    Except Interruption Supervisor :=
  match state with
  | .suspended suspension => (supervisor.keep task).park task.id suspension now
  | .aborted => .ok (supervisor.conclude task.id .aborted none)
  | terminal =>
      if task.id ∈ supervisor.retained then
        .ok (supervisor.conclude task.id terminal (some task.context))
      else .ok { supervisor with session := supervisor.session.release task.context }

/-- Reads the clock. -/
def readClock (supervisor : Supervisor) : Instant × Supervisor :=
  let (now, clock) := supervisor.clock.read
  (now, { supervisor with clock })

/-- Records what a turn left behind, and its request to exit. -/
def record (supervisor : Supervisor) (effects : Effects) : Supervisor :=
  { supervisor with
    session := supervisor.session.absorb effects
    exit := match effects.exit with
      | some code => supervisor.exit.request code
      | none => supervisor.exit }

/-- Starts functions whose final states nobody asks for. -/
def spawn (supervisor : Supervisor) (functions : List ScriptFunction) : Supervisor :=
  functions.foldl (fun supervisor function => (supervisor.add function false).2) supervisor

/-- Carries out what a turn asked for: exit first, then spawns, then signals. -/
def perform (supervisor : Supervisor) (effects : Effects) : Supervisor :=
  effects.signalled.foldl deliver ((supervisor.record effects).spawn effects.spawned)

/-- Gives a context its turn, during which it is not among the active ones. -/
def turn (supervisor : Supervisor) (task : Task) : Except Interruption Supervisor :=
  let (now, supervisor) := supervisor.readClock
  let (context, effects, state) := task.context.resume supervisor.session.engine.program
  (supervisor.perform effects).settle { task with context } state now

/-- Gives the contexts of a pass their turns, up to a request to exit.  Tells
whether any context is left. -/
def runQueue (supervisor : Supervisor) : List ContextId → Except Interruption (Bool × Supervisor)
  | [] => .ok (!supervisor.active.isEmpty, supervisor)
  | id :: remaining =>
      match supervisor.context? id with
      | none => runQueue supervisor remaining
      | some context =>
          match (supervisor.remove id).turn { id, context } with
          | .error interruption => .error interruption
          | .ok supervisor =>
              if supervisor.exit.requested then .ok (false, supervisor.abortAll)
              else runQueue supervisor remaining

/-- Waits while no context is ready.  There is nothing to wait for if nobody
sleeps and nobody can send an event. -/
def idle (supervisor : Supervisor) : Bool × Supervisor :=
  match supervisor.sleeping with
  | [] =>
      if supervisor.senders = 0 then (false, supervisor)
      else (true, { supervisor with clock := supervisor.clock.wait supervisor.idlePoll })
  | (deadline, _) :: _ =>
      let (now, supervisor) := supervisor.readClock
      (true,
        { supervisor with
          clock := supervisor.clock.wait (min (deadline - now) supervisor.idlePoll) })

/-- Makes everything ready that events and the time have made so. -/
def refresh (supervisor : Supervisor) : Supervisor :=
  let (now, supervisor) := supervisor.collect.readClock
  supervisor.wake now

/-- Makes one pass and tells whether there can be another one. -/
def pass (supervisor : Supervisor) : Except Interruption (Bool × Supervisor) :=
  if supervisor.exit.requested then .ok (false, supervisor.abortAll)
  else
    let supervisor := supervisor.refresh
    match supervisor.ready with
    | [] => .ok (if supervisor.active.isEmpty then (false, supervisor) else supervisor.idle)
    | queue => runQueue { supervisor with ready := [] } queue

/-- Makes passes, at most `passes` of them, until there is nothing left to do. -/
def run : (passes : Nat) → Supervisor → Except Interruption Supervisor
  | 0, _ => .error .outOfPasses
  | passes + 1, supervisor =>
      match supervisor.pass with
      | .error interruption => .error interruption
      | .ok (true, supervisor) => run passes supervisor
      | .ok (false, supervisor) => .ok supervisor

/-- Ends the supervisor: the contexts it still holds go back to the pool, those
that came to an end first. -/
def close (supervisor : Supervisor) : Session :=
  (supervisor.results.filterMap (·.context) ++ supervisor.active.map (·.context)).foldl
    Session.release supervisor.session

end Supervisor

end ScriptBundle
