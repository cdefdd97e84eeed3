import ScriptBundle.Proofs.Schedule.Lineage
import ScriptBundle.Schedule.Runner

/-!
# Functions that no step starts

A function that no step starts might as well be another one, or not be there.  As long as
none of their contexts has been made to run it, supervisors with the one program and with
the other do the same and say the same.
-/

namespace ScriptBundle

/-- The steps to come do not start a function. -/
def Running.Avoids (hidden : String) (running : Running) : Prop :=
  Step.spawn hidden ∉ running.rest

namespace Program

/-- The programs have the same functions but for one declaration. -/
def AgreeOff (hidden : String) (left right : Program) : Prop :=
  ∀ declaration, declaration ≠ hidden → left.find? declaration = right.find? declaration

/-- No step starts the function of a declaration. -/
def NeverSpawns (program : Program) (hidden : String) : Prop :=
  ∀ entry ∈ program.functions, Step.spawn hidden ∉ entry.2

variable {hidden : String} {program left right : Program}

theorem NeverSpawns.avoids (hnever : program.NeverSpawns hidden) {declaration : String}
    {function : ScriptFunction} (hfound : program.find? declaration = some function) :
    (Running.start function).Avoids hidden :=
  hnever _ (mem_functions_of_find? hfound)

theorem NeverSpawns.hereditary (hnever : program.NeverSpawns hidden) :
    program.Hereditary (Running.Avoids hidden) where
  goes_on havoids _ hrest hspawn := havoids (hrest.subset hspawn)
  started := by
    intro running function havoids hfunction
    obtain ⟨target, -, hfound⟩ := mem_spawnedBy_iff.mp hfunction
    exact hnever.avoids hfound

theorem AgreeOff.runSteps_eq (hagree : left.AgreeOff hidden right) {rest : List Step}
    (hrest : Step.spawn hidden ∉ rest) (declaration : String) (taken : Nat) (line : UInt32) :
    runSteps right declaration rest taken line = runSteps left declaration rest taken line := by
  induction rest generalizing taken line with
  | nil => rfl
  | cons step rest ih =>
      rw [List.mem_cons, not_or] at hrest
      cases step with
      | signal | line | log =>
          rw [runSteps, runSteps, ih hrest.2]
      | spawn target =>
          have htarget : target ≠ hidden := by
            rintro rfl
            exact hrest.1 rfl
          rw [runSteps, runSteps, hagree target htarget, ih hrest.2]
      | yield | sleep | wait | exit | raise | exitThenRaise | finish => rfl

theorem AgreeOff.resume_eq (hagree : left.AgreeOff hidden right) {context : Context}
    (hruns : context.Runs (Running.Avoids hidden)) :
    context.resume right = context.resume left := by
  unfold Context.resume
  cases hrunning : context.running with
  | none => rfl
  | some running => simp only [hagree.runSteps_eq (hruns running hrunning)]

end Program

/-! ## Sessions -/

namespace Session

/-- A session with another program. -/
def reprogram (program : Program) (session : Session) : Session :=
  { session with engine := { session.engine with program } }

theorem acquire_reprogram (program : Program) (session : Session) :
    (session.reprogram program).acquire =
      (session.acquire.1, session.acquire.2.reprogram program) := by
  rw [acquire, acquire, ContextPool.acquire, ContextPool.acquire,
    show (session.reprogram program).pool = session.pool from rfl]
  cases session.pool.reuse? with
  | none => rfl
  | some taken => rfl

theorem foldl_release_reprogram (program : Program) (contexts : List Context)
    (session : Session) :
    contexts.foldl release (session.reprogram program) =
      (contexts.foldl release session).reprogram program := by
  induction contexts generalizing session with
  | nil => rfl
  | cons context contexts ih => exact ih (session.release context)

end Session

namespace Supervisor

/-- A supervisor with another program. -/
def reprogram (program : Program) (supervisor : Supervisor) : Supervisor :=
  { supervisor with session := supervisor.session.reprogram program }

variable {hidden : String} {program : Program} {supervisor : Supervisor}

theorem add_reprogram (program : Program) (supervisor : Supervisor) (function : ScriptFunction)
    (retain : Bool) :
    (supervisor.reprogram program).add function retain =
      ((supervisor.add function retain).1,
        (supervisor.add function retain).2.reprogram program) := by
  have hacquire : (supervisor.reprogram program).session.acquire = _ :=
    supervisor.session.acquire_reprogram program
  unfold add
  rw [hacquire]
  simp only
  cases supervisor.session.acquire.1.prepare function with
  | error error => rfl
  | ok context => rfl

theorem spawn_reprogram (program : Program) (supervisor : Supervisor)
    (functions : List ScriptFunction) :
    (supervisor.reprogram program).spawn functions =
      (supervisor.spawn functions).reprogram program := by
  induction functions generalizing supervisor with
  | nil => rfl
  | cons function functions ih =>
      have hadded : ((supervisor.reprogram program).add function false).2 =
          (supervisor.add function false).2.reprogram program := by
        rw [add_reprogram]
      rw [spawn, List.foldl_cons, hadded]
      exact ih _

theorem deliver_reprogram (program : Program) (supervisor : Supervisor) (event : EventId) :
    (supervisor.reprogram program).deliver event =
      (supervisor.deliver event).reprogram program := by
  rw [deliver_eq, deliver_eq]
  change (if supervisor.parked event = [] then _ else _) = _
  split <;> rfl

theorem foldl_deliver_reprogram (program : Program) (events : List EventId)
    (supervisor : Supervisor) :
    events.foldl deliver (supervisor.reprogram program) =
      (events.foldl deliver supervisor).reprogram program := by
  induction events generalizing supervisor with
  | nil => rfl
  | cons event events ih =>
      rw [List.foldl_cons, List.foldl_cons, deliver_reprogram]
      exact ih _

theorem refresh_reprogram (program : Program) (supervisor : Supervisor) :
    (supervisor.reprogram program).refresh = supervisor.refresh.reprogram program := by
  have hcollect : (supervisor.reprogram program).collect =
      supervisor.collect.reprogram program :=
    foldl_deliver_reprogram program supervisor.inbox { supervisor with inbox := [] }
  unfold refresh
  rw [hcollect]
  rfl

theorem perform_reprogram (program : Program) (supervisor : Supervisor) (effects : Effects) :
    (supervisor.reprogram program).perform effects =
      (supervisor.perform effects).reprogram program := by
  have hrecord : (supervisor.reprogram program).record effects =
      (supervisor.record effects).reprogram program := rfl
  rw [perform, perform, hrecord, spawn_reprogram, foldl_deliver_reprogram]

theorem conclude_reprogram (program : Program) (supervisor : Supervisor) (id : ContextId)
    (state : ExecutionState) (context : Option Context) :
    (supervisor.reprogram program).conclude id state context =
      (supervisor.conclude id state context).reprogram program := by
  unfold conclude
  change (if id ∈ supervisor.retained then _ else _) = _
  split <;> rfl

theorem park_reprogram (program : Program) (supervisor : Supervisor) (id : ContextId)
    (suspension : Suspension) (now : Instant) :
    (supervisor.reprogram program).park id suspension now =
      (supervisor.park id suspension now).map (reprogram program) := by
  cases suspension with
  | yield => rfl
  | sleep duration =>
      simp only [park]
      split <;> rfl
  | wait event =>
      simp only [park]
      change (if event ∈ supervisor.latched then _ else _) = _
      split <;> rfl

theorem settle_reprogram (program : Program) (supervisor : Supervisor) (task : Task)
    (state : ExecutionState) (now : Instant) :
    (supervisor.reprogram program).settle task state now =
      (supervisor.settle task state now).map (reprogram program) := by
  unfold settle
  split
  · exact park_reprogram program (supervisor.keep task) _ _ _
  · exact congrArg Except.ok (conclude_reprogram program supervisor _ _ _)
  · change (if task.id ∈ supervisor.retained then _ else _) = _
    split
    · exact congrArg Except.ok (conclude_reprogram program supervisor _ _ _)
    · rfl

theorem abortAll_reprogram (program : Program) (supervisor : Supervisor) :
    (supervisor.reprogram program).abortAll = supervisor.abortAll.reprogram program := by
  have hfold : ∀ (tasks : List Task) (supervisor : Supervisor),
      tasks.foldl (fun supervisor task => supervisor.conclude task.id .aborted none)
          (supervisor.reprogram program) =
        (tasks.foldl (fun supervisor task => supervisor.conclude task.id .aborted none)
          supervisor).reprogram program := by
    intro tasks
    induction tasks with
    | nil => exact fun _ => rfl
    | cons task tasks ih =>
        intro supervisor
        rw [List.foldl_cons, List.foldl_cons, conclude_reprogram]
        exact ih _
  exact hfold supervisor.active
    { supervisor with active := [], ready := [], sleeping := [], waiting := [] }

theorem idle_reprogram (program : Program) (supervisor : Supervisor) :
    (supervisor.reprogram program).idle =
      (supervisor.idle.1, supervisor.idle.2.reprogram program) := by
  unfold idle
  rw [show (supervisor.reprogram program).sleeping = supervisor.sleeping from rfl,
    show (supervisor.reprogram program).senders = supervisor.senders from rfl]
  split
  · split <;> rfl
  · rfl

/-! ## Turns, passes and runs -/

variable (hagree : supervisor.session.engine.program.AgreeOff hidden program)
include hagree

theorem turn_reprogram {task : Task} (htask : task.context.Runs (Running.Avoids hidden)) :
    (supervisor.reprogram program).turn task = (supervisor.turn task).map (reprogram program) := by
  rcases hresume : task.context.resume supervisor.session.engine.program with
    ⟨context, effects, state⟩
  have hresume' : task.context.resume (supervisor.reprogram program).session.engine.program =
      (context, effects, state) := (hagree.resume_eq htask).trans hresume
  have hread : (supervisor.reprogram program).readClock.2 =
      supervisor.readClock.2.reprogram program := rfl
  rw [turn_eq hresume, turn_eq hresume', hread, perform_reprogram, settle_reprogram]
  rfl

variable (hnever : supervisor.session.engine.program.NeverSpawns hidden)
  (hall : supervisor.AllRun (Running.Avoids hidden))
include hnever hall

theorem runQueue_reprogram (ids : List ContextId) :
    (supervisor.reprogram program).runQueue ids =
      (supervisor.runQueue ids).map (Prod.map id (reprogram program)) := by
  induction ids generalizing supervisor with
  | nil => rfl
  | cons id remaining ih =>
      rw [runQueue, runQueue,
        show (supervisor.reprogram program).context? id = supervisor.context? id from rfl]
      cases hcontext : supervisor.context? id with
      | none => exact ih hagree hnever hall
      | some context =>
          have hremoved : (supervisor.reprogram program).remove id =
              (supervisor.remove id).reprogram program := rfl
          have hsame : (supervisor.remove id).session.engine.program =
              supervisor.session.engine.program := rfl
          have hruns := hall.context? hcontext
          have hturn := @turn_reprogram hidden program (supervisor.remove id) hagree
            { id, context } hruns
          simp only
          rw [hremoved, hturn]
          cases hnext : (supervisor.remove id).turn { id, context } with
          | error interruption => rfl
          | ok next =>
              have hprogram : next.session.engine.program = supervisor.session.engine.program :=
                (turn_logs hnext).program
              simp only [Except.map]
              change (if next.exit.requested then _ else _) = _
              split
              · rw [abortAll_reprogram]
                rfl
              · refine ih (hprogram ▸ hagree) (hprogram ▸ hnever) ?_
                exact turn_allRun hnever.hereditary hsame (hall.remove id) hruns hnext

theorem pass_reprogram :
    (supervisor.reprogram program).pass =
      supervisor.pass.map (Prod.map id (reprogram program)) := by
  have hopened : supervisor.opened.session.engine.program =
      supervisor.session.engine.program := supervisor.opened_logs.program
  rw [pass, pass, refresh_reprogram,
    show (supervisor.reprogram program).exit = supervisor.exit from rfl]
  split
  · rw [abortAll_reprogram]
    rfl
  · simp only [show (supervisor.refresh.reprogram program).ready = supervisor.refresh.ready from
      rfl, show (supervisor.refresh.reprogram program).active = supervisor.refresh.active from rfl]
    cases supervisor.refresh.ready with
    | nil =>
        cases supervisor.refresh.active with
        | nil => rfl
        | cons task tasks =>
            simp only [idle_reprogram]
            rfl
    | cons id remaining =>
        exact @runQueue_reprogram hidden program supervisor.opened (hopened ▸ hagree)
          (hopened ▸ hnever) (opened_allRun hall) (id :: remaining)

/-- Runs with the one program and with the other are interrupted together or come to the
same. -/
theorem run_reprogram (hbalanced : Ledger.Balanced (supervisor.ledger [] [])) (passes : Nat) :
    (supervisor.reprogram program).run passes =
      (supervisor.run passes).map (reprogram program) := by
  induction passes generalizing supervisor with
  | zero => rfl
  | succ passes ih =>
      rw [run, run, pass_reprogram hagree hnever hall]
      cases hpass : supervisor.pass with
      | error interruption => rfl
      | ok outcome =>
          obtain ⟨more, next⟩ := outcome
          have hprogram : next.session.engine.program = supervisor.session.engine.program :=
            (pass_logs hbalanced hpass).program
          cases more with
          | false => rfl
          | true =>
              have hmoves := pass_moves hbalanced hpass
              exact ih (hprogram ▸ hagree) (hprogram ▸ hnever)
                (pass_descends hbalanced hnever.hereditary rfl hall hpass).2
                (hmoves.balanced_and_continues hbalanced).1

end Supervisor

/-! ## Runners -/

namespace Runner

/-- A runner with another program. -/
def reprogram (program : Program) (runner : Runner) : Runner :=
  { runner with session := runner.session.reprogram program }

theorem presentReport_reprogram (program : Program) (runner : Runner)
    (diagnostics : Diagnostics) :
    (runner.reprogram program).presentReport diagnostics =
      ((runner.presentReport diagnostics).1.reprogram program,
        (runner.presentReport diagnostics).2) := by
  unfold presentReport
  rw [show (runner.reprogram program).showsWarnings = runner.showsWarnings from rfl]
  split <;> rfl

variable {hidden : String} {program : Program} {runner : Runner} {function : ScriptFunction}
  (hagree : runner.session.engine.program.AgreeOff hidden program)
include hagree

theorem find?_reprogram {declaration : String} (hdeclaration : declaration ≠ hidden) :
    (runner.reprogram program).find? declaration = runner.find? declaration :=
  (hagree declaration hdeclaration).symm

variable (hnever : runner.session.engine.program.NeverSpawns hidden)
  (hfunction : (Running.start function).Avoids hidden)
include hnever hfunction

theorem supervise_reprogram (passes : Nat) (exit : ExitRequest) :
    (runner.reprogram program).supervise passes function exit =
      (runner.supervise passes function exit).map (Prod.map id (reprogram program)) := by
  have hcreated : Supervisor.create (runner.reprogram program).session runner.clock exit
      runner.idlePoll = (Supervisor.create runner.session runner.clock exit
        runner.idlePoll).reprogram program := rfl
  have hclose : ∀ last : Supervisor,
      (last.reprogram program).close = last.close.reprogram program := fun last =>
    Session.foldl_release_reprogram program _ _
  unfold supervise
  simp only
  rw [show (runner.reprogram program).clock = runner.clock from rfl,
    show (runner.reprogram program).idlePoll = runner.idlePoll from rfl, hcreated,
    Supervisor.add_reprogram]
  rcases hadd : (Supervisor.create runner.session runner.clock exit runner.idlePoll).add
    function true with ⟨error | id, supervisor⟩
  · simp only [hclose]
    rfl
  · have hprogram : supervisor.session.engine.program = runner.session.engine.program :=
      (Supervisor.logs_of_add hadd).program
    have hrun := Supervisor.run_reprogram (hprogram ▸ hagree) (hprogram ▸ hnever)
      (Supervisor.create_add_allRun hadd hfunction) (Supervisor.create_add_balanced hadd).1 passes
    simp only [hrun]
    cases supervisor.run passes with
    | error interruption => rfl
    | ok last =>
        simp only [Except.map, hclose]
        rfl

theorem runBeforeGlobals_reprogram (passes : Nat) :
    (runner.reprogram program).runBeforeGlobals passes function =
      (runner.runBeforeGlobals passes function).map (Prod.map id (reprogram program)) := by
  unfold runBeforeGlobals
  rw [show (runner.reprogram program).exit = runner.exit from rfl,
    supervise_reprogram hagree hnever hfunction]
  match runner.supervise passes function runner.exit with
  | .error interruption => rfl
  | .ok (.ok (some (.finished value), exit), next) =>
      cases hvalue : proceeds value with
      | false | true =>
          simp only [hvalue, Except.map, ok_bind, Prod.map_apply, id_eq]
          rfl
  | .ok (.ok (some (.exception _), exit), next) | .ok (.ok (some .aborted, exit), next) |
    .ok (.ok (some (.suspended _), exit), next) | .ok (.ok (none, exit), next) |
    .ok (.error _, next) => rfl

theorem runEntry_reprogram (passes : Nat) :
    (runner.reprogram program).runEntry passes function =
      (runner.runEntry passes function).map (Prod.map id (reprogram program)) := by
  unfold runEntry
  rw [show (runner.reprogram program).exit = runner.exit from rfl,
    supervise_reprogram hagree hnever hfunction]
  match runner.supervise passes function runner.exit with
  | .error interruption => rfl
  | .ok (.ok (some (.exception _), exit), ⟨_, _, _, _, _, wantsCopy, _⟩) =>
      cases wantsCopy <;> rfl
  | .ok (.ok (some (.finished (.int _)), exit), next) |
    .ok (.ok (some (.finished (.bool _)), exit), next) |
    .ok (.ok (some (.finished .void), exit), next) | .ok (.ok (some .aborted, exit), next) |
    .ok (.ok (some (.suspended _), exit), next) | .ok (.ok (none, exit), next) |
    .ok (.error _, next) => rfl

end Runner

end ScriptBundle
