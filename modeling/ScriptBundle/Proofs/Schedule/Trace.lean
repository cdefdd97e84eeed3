import ScriptBundle.Proofs.Schedule.Frames

/-!
# Steps taken

The trace of a run lists the steps that its contexts take, with the context that
takes each of them, in the order in which they are taken.  The exit request at
the end of a run is the last one in its trace.
-/

namespace ScriptBundle

/-- The code that a step asks to exit with. -/
def Step.exitCode? : Step → Option Int32
  | .exit code => some code
  | .exitThenRaise code _ => some code
  | _ => none

/-- Whether a turn goes on after a step. -/
def Step.goesOn (program : Program) : Step → Bool
  | .signal _ => true
  | .spawn target => (program.find? target).isSome
  | .line _ => true
  | .log _ => true
  | _ => false

/-- The steps that a turn takes. -/
def executed (program : Program) : List Step → List Step
  | [] => []
  | step :: rest => step :: if step.goesOn program then executed program rest else []

/-- The code of the last request to exit. -/
def lastExitCode? (steps : List Step) : Option Int32 :=
  (steps.filterMap Step.exitCode?).getLast?

theorem lastExitCode?_append (first second : List Step) :
    lastExitCode? (first ++ second) = (lastExitCode? second).or (lastExitCode? first) := by
  rw [lastExitCode?, List.filterMap_append, List.getLast?_append]
  rfl

theorem lastExitCode?_cons_of_none {step : Step} (hstep : step.exitCode? = none)
    (rest : List Step) : lastExitCode? (step :: rest) = lastExitCode? rest := by
  rw [lastExitCode?, List.filterMap_cons_none hstep]
  rfl

/-- A turn takes the steps up to those that are still to come. -/
theorem runSteps_rest (program : Program) (declaration : String) (rest : List Step)
    (taken : Nat) (line : UInt32) :
    executed program rest ++ (runSteps program declaration rest taken line).running.rest =
      rest := by
  induction rest generalizing taken line with
  | nil => rfl
  | cons step rest ih =>
      cases step with
      | signal | line | log =>
          rw [executed, Step.goesOn, if_pos rfl, List.cons_append]
          exact congrArg _ (ih (taken + 1) _)
      | spawn target =>
          rw [executed, Step.goesOn, runSteps]
          cases htarget : program.find? target with
          | none => rfl
          | some function =>
              rw [Option.isSome_some, if_pos rfl, List.cons_append]
              exact congrArg _ (ih (taken + 1) line)
      | yield | sleep | wait | exit | raise | exitThenRaise | finish => rfl

/-- A turn asks to exit with the code of the last request that it takes. -/
theorem runSteps_exit (program : Program) (declaration : String) (rest : List Step)
    (taken : Nat) (line : UInt32) :
    (runSteps program declaration rest taken line).effects.exit =
      lastExitCode? (executed program rest) := by
  induction rest generalizing taken line with
  | nil => rfl
  | cons step rest ih =>
      cases step with
      | signal | line | log =>
          rw [executed, Step.goesOn, if_pos rfl, lastExitCode?_cons_of_none rfl]
          exact ih (taken + 1) _
      | spawn target =>
          rw [executed, Step.goesOn, runSteps, lastExitCode?_cons_of_none rfl]
          cases htarget : program.find? target with
          | none => rfl
          | some function =>
              rw [Option.isSome_some, if_pos rfl]
              exact ih (taken + 1) line
      | yield | sleep | wait | exit | raise | exitThenRaise | finish => rfl

/-- The steps that a context takes in its next turn. -/
def Context.nextSteps (program : Program) (context : Context) : List Step :=
  match context.running with
  | none => []
  | some running => executed program running.rest

theorem Context.observed_exit (context : Context) (effects : Effects) :
    (context.observed effects).exit = effects.exit := by
  unfold observed
  split
  · rfl
  · split <;> rfl

theorem Context.resume_exit (program : Program) (context : Context) :
    (context.resume program).2.1.exit = lastExitCode? (context.nextSteps program) := by
  unfold resume nextSteps
  cases context.running with
  | none => exact context.observed_exit _
  | some running => exact (context.observed_exit _).trans (runSteps_exit _ _ _ _ _)

/-- The request after steps that may have asked for the end. -/
def ExitRequest.after (exit : ExitRequest) : Option Int32 → ExitRequest
  | none => exit
  | some code => exit.request code

theorem ExitRequest.after_or (exit : ExitRequest) (first second : Option Int32) :
    exit.after (second.or first) = (exit.after first).after second := by
  cases second <;> rfl

namespace Supervisor

/-- The steps of a turn, with the context that takes them. -/
def turnTrace (supervisor : Supervisor) (id : ContextId) (context : Context) :
    List (ContextId × Step) :=
  (context.nextSteps supervisor.session.engine.program).map fun step => (id, step)

def queueTrace (supervisor : Supervisor) : List ContextId → List (ContextId × Step)
  | [] => []
  | id :: remaining =>
      match supervisor.context? id with
      | none => supervisor.queueTrace remaining
      | some context =>
          supervisor.turnTrace id context ++
            match (supervisor.remove id).turn { id, context } with
            | .error _ => []
            | .ok next => if next.exit.requested then [] else next.queueTrace remaining

def passTrace (supervisor : Supervisor) : List (ContextId × Step) :=
  if supervisor.exit.requested then []
  else queueTrace { supervisor.refresh with ready := [] } supervisor.refresh.ready

/-- The steps taken in a run. -/
def trace : (passes : Nat) → Supervisor → List (ContextId × Step)
  | 0, _ => []
  | passes + 1, supervisor =>
      supervisor.passTrace ++
        match supervisor.pass with
        | .ok (true, next) => next.trace passes
        | _ => []

/-! ## The request at the end -/

theorem foldl_exit {α : Type} {step : Supervisor → α → Supervisor}
    (hstep : ∀ supervisor item, (step supervisor item).exit = supervisor.exit) (items : List α)
    (supervisor : Supervisor) : (items.foldl step supervisor).exit = supervisor.exit := by
  induction items generalizing supervisor with
  | nil => rfl
  | cons item items ih => exact (ih (step supervisor item)).trans (hstep supervisor item)

@[simp]
theorem add_exit (supervisor : Supervisor) (function : ScriptFunction) (retain : Bool) :
    (supervisor.add function retain).2.exit = supervisor.exit := by
  unfold add
  split
  split <;> rfl

@[simp]
theorem deliver_exit (supervisor : Supervisor) (event : EventId) :
    (supervisor.deliver event).exit = supervisor.exit := by
  obtain ⟨_, _, _, hdelivered⟩ := supervisor.deliver_frame event
  rw [hdelivered]

@[simp]
theorem refresh_exit (supervisor : Supervisor) : supervisor.refresh.exit = supervisor.exit :=
  foldl_exit deliver_exit supervisor.inbox _

@[simp]
theorem perform_exit (supervisor : Supervisor) (effects : Effects) :
    (supervisor.perform effects).exit = supervisor.exit.after effects.exit := by
  have hspawned : ((supervisor.record effects).spawn effects.spawned).exit =
      (supervisor.record effects).exit :=
    foldl_exit (fun supervisor function => supervisor.add_exit function false) effects.spawned _
  rw [perform, foldl_exit deliver_exit, hspawned, record]
  cases effects.exit <;> rfl

@[simp]
theorem conclude_exit (supervisor : Supervisor) (id : ContextId) (state : ExecutionState)
    (context : Option Context) : (supervisor.conclude id state context).exit = supervisor.exit := by
  unfold conclude
  split <;> rfl

@[simp]
theorem abortAll_exit (supervisor : Supervisor) : supervisor.abortAll.exit = supervisor.exit :=
  foldl_exit (fun supervisor (task : Task) => supervisor.conclude_exit task.id .aborted none)
    supervisor.active _

theorem park_exit {supervisor after : Supervisor} {id : ContextId} {suspension : Suspension}
    {now : Instant} (hpark : supervisor.park id suspension now = .ok after) :
    after.exit = supervisor.exit := by
  obtain ⟨_, _, _, _, rfl⟩ := park_frame hpark
  rfl

theorem settle_exit {supervisor after : Supervisor} {task : Task} {state : ExecutionState}
    {now : Instant} (hsettle : supervisor.settle task state now = .ok after) :
    after.exit = supervisor.exit := by
  unfold settle at hsettle
  split at hsettle
  · exact (park_exit hsettle).trans rfl
  · cases hsettle
    exact supervisor.conclude_exit _ _ _
  · split at hsettle <;> cases hsettle
    · exact supervisor.conclude_exit _ _ _
    · rfl

theorem turn_exit {supervisor after : Supervisor} {task : Task}
    (hturn : supervisor.turn task = .ok after) :
    after.exit = supervisor.exit.after
      (lastExitCode? (task.context.nextSteps supervisor.session.engine.program)) := by
  have hperformed := supervisor.readClock.2.perform_exit
    (task.context.resume supervisor.session.engine.program).2.1
  rw [Context.resume_exit] at hperformed
  exact (settle_exit hturn).trans hperformed

theorem idle_exit (supervisor : Supervisor) : supervisor.idle.2.exit = supervisor.exit := by
  obtain ⟨_, hidle⟩ := supervisor.idle_eq
  rw [hidle]

/-- The steps of a trace without the contexts that take them. -/
def steps (trace : List (ContextId × Step)) : List Step :=
  trace.map (·.2)

theorem steps_append (first second : List (ContextId × Step)) :
    steps (first ++ second) = steps first ++ steps second :=
  List.map_append

theorem steps_turnTrace (supervisor : Supervisor) (id : ContextId) (context : Context) :
    steps (supervisor.turnTrace id context) =
      context.nextSteps supervisor.session.engine.program := by
  rw [steps, turnTrace, List.map_map]
  exact List.map_id _

theorem runQueue_exit {supervisor after : Supervisor} {ids : List ContextId} {more : Bool}
    (hrun : supervisor.runQueue ids = .ok (more, after)) :
    after.exit = supervisor.exit.after (lastExitCode? (steps (supervisor.queueTrace ids))) := by
  induction ids generalizing supervisor with
  | nil =>
      cases hrun
      rfl
  | cons id remaining ih =>
      rw [runQueue] at hrun
      rw [queueTrace]
      cases hcontext : supervisor.context? id with
      | none =>
          rw [hcontext] at hrun
          exact ih hrun
      | some context =>
          rw [hcontext] at hrun
          cases hturn : (supervisor.remove id).turn { id, context } with
          | error interruption => simp [hturn] at hrun
          | ok next =>
              have hnext : next.exit = supervisor.exit.after
                  (lastExitCode? (context.nextSteps supervisor.session.engine.program)) :=
                turn_exit hturn
              simp only [hturn] at hrun ⊢
              rw [steps_append, steps_turnTrace, lastExitCode?_append, ExitRequest.after_or,
                ← hnext]
              split at hrun
              · rename_i hrequested
                cases hrun
                rw [if_pos hrequested, abortAll_exit]
                rfl
              · rename_i hrequested
                rw [if_neg hrequested]
                exact ih hrun

theorem pass_exit {supervisor after : Supervisor} {more : Bool}
    (hpass : supervisor.pass = .ok (more, after)) :
    after.exit = supervisor.exit.after (lastExitCode? (steps supervisor.passTrace)) := by
  unfold pass at hpass
  unfold passTrace
  split at hpass
  · rename_i hrequested
    cases hpass
    rw [if_pos hrequested, abortAll_exit]
    rfl
  · rename_i hrequested
    rw [if_neg hrequested]
    have hrefreshed := supervisor.refresh_exit
    simp only at hpass
    generalize supervisor.refresh = next at hpass hrefreshed ⊢
    split at hpass
    · rename_i hready
      have hafter : (if next.active.isEmpty then (false, next) else next.idle).2 = after :=
        (Prod.ext_iff.mp (Except.ok.inj hpass)).2
      rw [hready, ← hrefreshed, ← hafter]
      split
      · rfl
      · exact next.idle_exit
    · rw [← hrefreshed]
      exact runQueue_exit hpass

/-- The exit request at the end of a run is the last one of its trace. -/
theorem run_exit {supervisor last : Supervisor} {passes : Nat}
    (hrun : run passes supervisor = .ok last) :
    last.exit = supervisor.exit.after (lastExitCode? (steps (supervisor.trace passes))) := by
  induction passes generalizing supervisor with
  | zero => cases hrun
  | succ passes ih =>
      rw [run] at hrun
      rw [trace]
      split at hrun
      · cases hrun
      · rename_i next hpass
        rw [hpass, steps_append, lastExitCode?_append, ExitRequest.after_or, ← pass_exit hpass]
        exact ih hrun
      · rename_i next hpass
        cases hrun
        rw [hpass, List.append_nil]
        exact pass_exit hpass

end Supervisor

end ScriptBundle
