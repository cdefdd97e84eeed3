import ScriptBundle.Proofs.Schedule.Custody
import ScriptBundle.Schedule.Runner

/-!
# Ways to recycle contexts

A supervisor uses the idle contexts of the pool again, and gives back those that it still
holds when it ends.  A way to recycle says which of the idle contexts may be used again and
in which order a supervisor gives its contexts back.  A run can be carried out in any such
way; in the usual one it is the run itself.
-/

namespace ScriptBundle

structure Recycling where
  /-- The idle contexts that may be used again. -/
  idle : List Context → List Context
  idle_sublist : ∀ contexts, (idle contexts).Sublist contexts
  /-- The order in which a supervisor that ends gives its contexts back. -/
  order : Supervisor → List Context
  order_perm : ∀ supervisor, (order supervisor).Perm supervisor.contexts

namespace Recycling

/-- All idle contexts are used again; those that came to an end are given back first. -/
def usual : Recycling where
  idle := id
  idle_sublist _ := .refl _
  order supervisor :=
    supervisor.results.filterMap (·.context) ++ supervisor.active.map (·.context)
  order_perm _ := List.perm_append_comm

/-- No context is used again, so each one that is needed is made. -/
def fresh : Recycling :=
  { usual with idle := fun _ => [], idle_sublist := List.nil_sublist }

variable (recycling : Recycling)

/-- A session whose pool has the contexts only that may be used again. -/
def supply (session : Session) : Session :=
  { session with pool := { session.pool with free := recycling.idle session.pool.free } }

theorem fresh_acquire (session : Session) :
    (fresh.supply session).acquire.1 =
      ⟨session.engine.contextsCreated, some session.pool.hooks, none⟩ := rfl

/-! ## Supervisors -/

def add (supervisor : Supervisor) (function : ScriptFunction) (retain : Bool) :
    Except EngineError ContextId × Supervisor :=
  Supervisor.add { supervisor with session := recycling.supply supervisor.session } function retain

def spawn (supervisor : Supervisor) (functions : List ScriptFunction) : Supervisor :=
  functions.foldl (fun supervisor function => (recycling.add supervisor function false).2)
    supervisor

def perform (supervisor : Supervisor) (effects : Effects) : Supervisor :=
  effects.signalled.foldl Supervisor.deliver
    (recycling.spawn (supervisor.record effects) effects.spawned)

def turn (supervisor : Supervisor) (task : Task) : Except Interruption Supervisor :=
  let (now, supervisor) := supervisor.readClock
  let (context, effects, state) := task.context.resume supervisor.session.engine.program
  (recycling.perform supervisor effects).settle { task with context } state now

def runQueue (supervisor : Supervisor) : List ContextId → Except Interruption (Bool × Supervisor)
  | [] => .ok (!supervisor.active.isEmpty, supervisor)
  | id :: remaining =>
      match supervisor.context? id with
      | none => runQueue supervisor remaining
      | some context =>
          match recycling.turn (supervisor.remove id) { id, context } with
          | .error interruption => .error interruption
          | .ok supervisor =>
              if supervisor.exit.requested then .ok (false, supervisor.abortAll)
              else runQueue supervisor remaining

def pass (supervisor : Supervisor) : Except Interruption (Bool × Supervisor) :=
  if supervisor.exit.requested then .ok (false, supervisor.abortAll)
  else
    let supervisor := supervisor.refresh
    match supervisor.ready with
    | [] => .ok (if supervisor.active.isEmpty then (false, supervisor) else supervisor.idle)
    | queue => recycling.runQueue { supervisor with ready := [] } queue

def run : (passes : Nat) → Supervisor → Except Interruption Supervisor
  | 0, _ => .error .outOfPasses
  | passes + 1, supervisor =>
      match recycling.pass supervisor with
      | .error interruption => .error interruption
      | .ok (true, supervisor) => run passes supervisor
      | .ok (false, supervisor) => .ok supervisor

def close (supervisor : Supervisor) : Session :=
  (recycling.order supervisor).foldl Session.release supervisor.session

theorem usual_turn (supervisor : Supervisor) (task : Task) :
    usual.turn supervisor task = supervisor.turn task := rfl

theorem usual_runQueue (supervisor : Supervisor) (ids : List ContextId) :
    usual.runQueue supervisor ids = supervisor.runQueue ids := by
  induction ids generalizing supervisor with
  | nil => rfl
  | cons id remaining ih =>
      simp only [runQueue, usual_turn, ih]
      rfl

theorem usual_pass (supervisor : Supervisor) : usual.pass supervisor = supervisor.pass := by
  simp only [pass, usual_runQueue]
  rfl

theorem usual_run (passes : Nat) (supervisor : Supervisor) :
    usual.run passes supervisor = supervisor.run passes := by
  induction passes generalizing supervisor with
  | zero => rfl
  | succ passes ih =>
      simp only [run, usual_pass, ih]
      rfl

/-! ## Runs -/

def supervise (runner : Runner) (passes : Nat) (function : ScriptFunction) (exit : ExitRequest) :
    Except Interruption (Except EngineError (Option ExecutionState × ExitRequest) × Runner) :=
  let supervisor := Supervisor.create runner.session runner.clock exit runner.idlePoll
  match recycling.add supervisor function true with
  | (.error error, supervisor) =>
      .ok (.error error, { runner with session := recycling.close supervisor })
  | (.ok id, supervisor) =>
      match recycling.run passes supervisor with
      | .error interruption => .error interruption
      | .ok supervisor =>
          .ok (.ok (supervisor.state? id, supervisor.exit),
            { runner with session := recycling.close supervisor, clock := supervisor.clock })

def runBeforeGlobals (runner : Runner) (passes : Nat) (hook : ScriptFunction) :
    Except Interruption (Except RunError (Option RunOutcome) × Runner) := do
  let (result, runner) ← recycling.supervise runner passes hook runner.exit
  let halted (runner : Runner) : Except RunError (Option RunOutcome) × Runner :=
    (.ok (some ⟨.halted, 0⟩), runner.enter .halted)
  match result with
  | .error error => return (.error (.prepare error), runner)
  | .ok (state, exit) =>
      let runner := { runner with exit }
      match state with
      | some (.finished value) =>
          if Runner.proceeds value then return (.ok none, runner) else return halted runner
      | some (.exception _) => return halted runner.takeCallStack.2
      | some .aborted =>
          return (.ok (some ⟨.aborted, exit.code⟩), runner.enter .aborted)
      | _ => return halted runner

def runEntry (runner : Runner) (passes : Nat) (entry : ScriptFunction) :
    Except Interruption (Except RunError RunOutcome × Runner) := do
  let (result, runner) ← recycling.supervise runner passes entry runner.exit
  match result with
  | .error error => return (.error (.prepare error), runner)
  | .ok (state, exit) =>
      let runner := { runner with exit }
      let ended (runner : Runner) (state : RunState) (exitCode : Int32) :
          Except RunError RunOutcome × Runner :=
        (.ok ⟨state, exitCode⟩, runner.enter state)
      match state with
      | some (.finished (.int code)) => return ended runner .finished code
      | some (.finished _) => return ended runner .finished 0
      | some (.exception message) =>
          let (callStack, runner) := runner.takeCallStack
          let info := exceptionInfo message callStack
          let shown := runner.present (.exception info)
          let runner := if runner.wantsCopy then shown.present (.clipboard info) else shown
          return ended runner .excepted (if exit.requested then exit.code else failureExitCode)
      | some .aborted => return ended runner .aborted exit.code
      | _ => return ended (runner.present .terminated) .terminated failureExitCode

/-- Runs the hook at the end, whose own end does not matter. -/
def runAtExit (runner : Runner) (passes : Nat) : Except Interruption Runner :=
  match runner.find? atExit with
  | none => .ok runner
  | some hook => do return (← recycling.supervise runner passes hook {}).2

def runMain (runner : Runner) (passes : Nat) (diagnostics : Diagnostics) (source : String)
    (entry : ScriptFunction) :
    Except Interruption ((Except RunError RunOutcome × Diagnostics) × Runner) := do
  match runner.session.engine.initializeGlobals with
  | .error error =>
      let diagnostics :=
        diagnostics.promoteInformation.error source (RunError.globals error).message
      return ((.error (.globals error), diagnostics), runner.drain)
  | .ok engine =>
      let runner :=
        { runner with session := { runner.session with engine } }.enter .globalsInitialized
      let (runner, diagnostics) := runner.presentReport diagnostics
      let (outcome, runner) ← recycling.runEntry (runner.enter .running) passes entry
      let runner ← recycling.runAtExit runner passes
      return ((outcome, diagnostics), runner.drain)

/-- Runs the program of the engine. -/
def runProgram (runner : Runner) (passes : Nat) (diagnostics : Diagnostics) (source : String) :
    Except Interruption ((Except RunError RunOutcome × Diagnostics) × Runner) := do
  match entryPoints.findSome? runner.find? with
  | none =>
      let diagnostics := diagnostics.clearInformation.error source RunError.noEntryPoint.message
      return ((.error .noEntryPoint, diagnostics), runner)
  | some entry =>
      match runner.find? beforeGlobals with
      | none => recycling.runMain runner passes diagnostics source entry
      | some hook =>
          match ← recycling.runBeforeGlobals (runner.enter .preGlobals) passes hook with
          | (.error error, runner) => return ((.error error, diagnostics), runner)
          | (.ok (some outcome), runner) => return ((.ok outcome, diagnostics), runner.drain)
          | (.ok none, runner) => recycling.runMain runner passes diagnostics source entry

theorem usual_supervise (runner : Runner) (passes : Nat) (function : ScriptFunction)
    (exit : ExitRequest) :
    usual.supervise runner passes function exit = runner.supervise passes function exit := by
  simp only [supervise, usual_run]
  rfl

theorem usual_runBeforeGlobals (runner : Runner) (passes : Nat) (hook : ScriptFunction) :
    usual.runBeforeGlobals runner passes hook = runner.runBeforeGlobals passes hook := by
  rw [runBeforeGlobals, usual_supervise]
  rfl

theorem usual_runEntry (runner : Runner) (passes : Nat) (entry : ScriptFunction) :
    usual.runEntry runner passes entry = runner.runEntry passes entry := by
  rw [runEntry, usual_supervise]
  rfl

theorem usual_runAtExit (runner : Runner) (passes : Nat) :
    usual.runAtExit runner passes = runner.runAtExit passes := by
  simp only [runAtExit, usual_supervise]
  rfl

theorem usual_runMain (runner : Runner) (passes : Nat) (diagnostics : Diagnostics)
    (source : String) (entry : ScriptFunction) :
    usual.runMain runner passes diagnostics source entry =
      runner.runMain passes diagnostics source entry := by
  simp only [runMain, usual_runEntry, usual_runAtExit]
  rfl

theorem usual_runProgram (runner : Runner) (passes : Nat) (diagnostics : Diagnostics)
    (source : String) :
    usual.runProgram runner passes diagnostics source =
      runner.run passes diagnostics source := by
  simp only [runProgram, usual_runMain, usual_runBeforeGlobals]
  rfl

end Recycling

end ScriptBundle
