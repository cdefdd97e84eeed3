import ScriptBundle.Diagnostics
import ScriptBundle.Schedule.Supervisor

/-!
# Runs

A run takes a loaded program from its start to its end: the hook before the
globals, the globals, the entry point with all the contexts it starts, and the
hook at exit.  Problems are shown to the user on the way.
-/

namespace ScriptBundle

/-- The exit code of a failure. -/
def failureExitCode : Int32 := -1

/-- The declarations of the entry point, in the order they are looked for. -/
def entryPoints : List String := ["int main()", "void main()"]

/-- The hook that runs before the globals and may stop the run. -/
def beforeGlobals : String := "bool preglobals()"

/-- The hook that runs at the end. -/
def atExit : String := "void on_exit()"

/-- Where a run is, or how it ended. -/
inductive RunState where
  | notStarted
  | preGlobals
  | globalsInitialized
  | running
  /-- The entry point returned. -/
  | finished
  /-- The entry point stopped at an exception. -/
  | excepted
  /-- The end was asked for. -/
  | aborted
  /-- The hook before the globals stopped the run. -/
  | halted
  /-- The entry point came to no end. -/
  | terminated
  deriving DecidableEq, Repr, Inhabited

namespace RunState

def text : RunState → String
  | .notStarted => "not started"
  | .preGlobals => "pre-globals"
  | .globalsInitialized => "globals initialized"
  | .running => "running"
  | .finished => "finished"
  | .excepted => "excepted"
  | .aborted => "aborted"
  | .halted => "halted"
  | .terminated => "terminated"

/-- The name of the state in a summary. -/
def label : RunState → String
  | .notStarted => "NotStarted"
  | .preGlobals => "PreGlobals"
  | .globalsInitialized => "GlobalsInitialized"
  | .running => "Running"
  | .finished => "Finished"
  | .excepted => "Excepted"
  | .aborted => "Aborted"
  | .halted => "Halted"
  | .terminated => "Terminated"

end RunState

/-- How a run ended. -/
structure RunOutcome where
  state : RunState
  exitCode : Int32
  deriving DecidableEq

/-- Why a run did not start. -/
inductive RunError where
  | noEntryPoint
  | prepare (error : EngineError)
  | globals (error : EngineError)
  deriving DecidableEq

namespace RunError

def message : RunError → String
  | .noEntryPoint => "No entry point found (either 'int main()' or 'void main()'.)"
  | .prepare error => "Failed to prepare context: " ++ error.message
  | .globals error => "Failed while initializing global variables: " ++ error.message

def exitCode (_ : RunError) : Int32 := failureExitCode

end RunError

/-- What is shown to the user. -/
inductive Presented where
  | exception (info : String)
  /-- The user asked for a copy of what was shown. -/
  | clipboard (text : String)
  /-- The entry point came to no end. -/
  | terminated
  | report (report : Report)
  deriving DecidableEq

/-- The message of an exception with its call stack. -/
def exceptionInfo (message callStack : String) : String :=
  if callStack = "" then message else message ++ "\r\ncall stack:\r\n" ++ callStack

structure Runner where
  session : Session
  clock : Clock
  exit : ExitRequest := {}
  state : RunState := .notStarted
  idlePoll : Nat := Supervisor.defaultIdlePoll
  /-- Whether the user asks for a copy of an exception. -/
  wantsCopy : Bool := false
  /-- What has been shown so far. -/
  presented : List Presented := []

namespace Runner

def enter (runner : Runner) (state : RunState) : Runner :=
  { runner with state }

def present (runner : Runner) (shown : Presented) : Runner :=
  { runner with presented := runner.presented ++ [shown] }

def drain (runner : Runner) : Runner :=
  { runner with session := runner.session.drain }

/-- The function of a hook or an entry point. -/
def find? (runner : Runner) (declaration : String) : Option ScriptFunction :=
  runner.session.engine.program.find? declaration

/-- Runs a function and all the contexts it starts under a supervisor, and gives
the final state of the function's own context and the exit request at the end. -/
def supervise (runner : Runner) (passes : Nat) (function : ScriptFunction) (exit : ExitRequest) :
    Except Interruption (Except EngineError (Option ExecutionState × ExitRequest) × Runner) :=
  let supervisor := Supervisor.create runner.session runner.clock exit runner.idlePoll
  match supervisor.add function true with
  | (.error error, supervisor) =>
      .ok (.error error, { runner with session := supervisor.close })
  | (.ok id, supervisor) =>
      match supervisor.run passes with
      | .error interruption => .error interruption
      | .ok supervisor =>
          .ok (.ok (supervisor.state? id, supervisor.exit),
            { runner with session := supervisor.close, clock := supervisor.clock })

/-- Takes the call stack of the latest exception. -/
def takeCallStack (runner : Runner) : String × Runner :=
  let (callStack, slot) := runner.session.slot.take
  (callStack, { runner with session := { runner.session with slot } })

/-- Whether a hook that gave this value back lets the run go on. -/
def proceeds : ReturnValue → Bool
  | .bool value => value
  | .int value => value ≠ 0
  | .void => false

/-- Runs the hook before the globals.  There is an outcome if the run ends with
it. -/
def runBeforeGlobals (runner : Runner) (passes : Nat) (hook : ScriptFunction) :
    Except Interruption (Except RunError (Option RunOutcome) × Runner) := do
  let (result, runner) ← runner.supervise passes hook runner.exit
  let halted (runner : Runner) : Except RunError (Option RunOutcome) × Runner :=
    (.ok (some ⟨.halted, 0⟩), runner.enter .halted)
  match result with
  | .error error => return (.error (.prepare error), runner)
  | .ok (state, exit) =>
      let runner := { runner with exit }
      match state with
      | some (.finished value) =>
          if proceeds value then return (.ok none, runner) else return halted runner
      | some (.exception _) => return halted runner.takeCallStack.2
      | some .aborted =>
          return (.ok (some ⟨.aborted, exit.code⟩), runner.enter .aborted)
      | _ => return halted runner

/-- Runs the entry point. -/
def runEntry (runner : Runner) (passes : Nat) (entry : ScriptFunction) :
    Except Interruption (Except RunError RunOutcome × Runner) := do
  let (result, runner) ← runner.supervise passes entry runner.exit
  match result with
  | .error error => return (.error (.prepare error), runner)
  | .ok (state, exit) =>
      let runner := { runner with exit }
      let ended (runner : Runner) (state : RunState) (exitCode : Int32) :
          Except RunError RunOutcome × Runner :=
        (.ok ⟨state, exitCode⟩, runner.enter state)
      match state with
      | some (.finished (.int code)) => return ended runner .finished code
      | some (.finished _) => return ended runner .finished 0
      | some (.exception message) =>
          let (callStack, runner) := runner.takeCallStack
          let info := exceptionInfo message callStack
          let shown := runner.present (.exception info)
          let runner := if runner.wantsCopy then shown.present (.clipboard info) else shown
          return ended runner .excepted (if exit.requested then exit.code else failureExitCode)
      | some .aborted => return ended runner .aborted exit.code
      | _ => return ended (runner.present .terminated) .terminated failureExitCode

/-- Runs the hook at the end, whose own end does not matter. -/
def runAtExit (runner : Runner) (passes : Nat) : Except Interruption Runner :=
  match runner.find? atExit with
  | none => .ok runner
  | some hook => do return (← runner.supervise passes hook {}).2

/-- Whether warnings are shown beside errors. -/
def showsWarnings (runner : Runner) : Bool :=
  let properties := runner.session.engine.properties
  let slot := EngineProperty.compilerWarnings.index
  slot < properties.size ∧ properties.get slot = 2

/-- Shows the messages that were collected so far. -/
def presentReport (runner : Runner) (diagnostics : Diagnostics) : Runner × Diagnostics :=
  match diagnostics.report runner.showsWarnings with
  | (none, diagnostics) => (runner, diagnostics)
  | (some report, diagnostics) => (runner.present (.report report), diagnostics)

/-- Initialises the globals and runs the entry point and the hook at exit. -/
def runMain (runner : Runner) (passes : Nat) (diagnostics : Diagnostics) (source : String)
    (entry : ScriptFunction) :
    Except Interruption ((Except RunError RunOutcome × Diagnostics) × Runner) := do
  match runner.session.engine.initializeGlobals with
  | .error error =>
      let diagnostics :=
        diagnostics.promoteInformation.error source (RunError.globals error).message
      return ((.error (.globals error), diagnostics), runner.drain)
  | .ok engine =>
      let runner :=
        { runner with session := { runner.session with engine } }.enter .globalsInitialized
      let (runner, diagnostics) := runner.presentReport diagnostics
      let (outcome, runner) ← (runner.enter .running).runEntry passes entry
      let runner ← runner.runAtExit passes
      return ((outcome, diagnostics), runner.drain)

/-- Runs the program of the engine.  `source` names the script in messages, and
each supervisor may make at most `passes` passes. -/
def run (runner : Runner) (passes : Nat) (diagnostics : Diagnostics) (source : String) :
    Except Interruption ((Except RunError RunOutcome × Diagnostics) × Runner) := do
  match entryPoints.findSome? runner.find? with
  | none =>
      let diagnostics := diagnostics.clearInformation.error source RunError.noEntryPoint.message
      return ((.error .noEntryPoint, diagnostics), runner)
  | some entry =>
      match runner.find? beforeGlobals with
      | none => runner.runMain passes diagnostics source entry
      | some hook =>
          match ← (runner.enter .preGlobals).runBeforeGlobals passes hook with
          | (.error error, runner) => return ((.error error, diagnostics), runner)
          | (.ok (some outcome), runner) => return ((.ok outcome, diagnostics), runner.drain)
          | (.ok none, runner) => runner.runMain passes diagnostics source entry

/-- A short description. -/
def summary (runner : Runner) : String :=
  "RunScheduler \x7b state: " ++ runner.state.label ++ ", pool: " ++
    runner.session.pool.summary ++ ", .. \x7d"

end Runner

end ScriptBundle
