import ScriptBundle.Proofs.Schedule.PoolStates
import ScriptBundle.Proofs.Schedule.Queueing

/-!
# Contexts that are ready to be prepared

A context goes back to its pool in the middle of its function, or behind an exception, but
the pool takes the function away.  So whatever is acquired can be prepared: every function
that a turn spawns gets a context, and no run ends for want of one.  At its end a run has
dropped all idle contexts and tells how it ended.
-/

namespace ScriptBundle

/-! ## Idle contexts -/

/-- No idle context has a function. -/
def ContextPool.Unbound (pool : ContextPool) : Prop :=
  ∀ context ∈ pool.free, context.running = none

namespace ContextPool.Unbound

variable {pool after last : ContextPool} {pools : List ContextPool}

theorem of_free_eq_nil (hempty : pool.free = []) : pool.Unbound := by
  rw [Unbound, hempty]
  exact List.forall_mem_nil _

theorem acquire (hunbound : pool.Unbound) (engine : Engine) :
    (pool.acquire engine).1.running = none ∧ (pool.acquire engine).2.1.Unbound := by
  unfold ContextPool.acquire ContextPool.reuse? ContextPool.create
  cases hfree : pool.free with
  | nil => exact ⟨rfl, fun context hcontext => by simp at hcontext⟩
  | cons context free =>
      rw [Unbound, hfree, List.forall_mem_cons] at hunbound
      exact hunbound

/-- A released context leaves its function behind. -/
theorem release (hunbound : pool.Unbound) (context : Context) : (pool.release context).Unbound :=
  List.forall_mem_cons.mpr ⟨rfl, hunbound⟩

theorem step (hstep : pool.Step after) (hunbound : pool.Unbound) : after.Unbound := by
  cases hstep with
  | stay => exact hunbound
  | acquire engine => exact (hunbound.acquire engine).2
  | release context => exact hunbound.release context
  | drain => exact List.forall_mem_nil _

theorem walk (hunbound : pool.Unbound) (hwalk : pool.Walk pools last) :
    (∀ other ∈ pools, other.Unbound) ∧ last.Unbound :=
  hwalk.invariant step hunbound

end ContextPool.Unbound

/-! ## Contexts that are started -/

namespace Supervisor

variable {supervisor : Supervisor}

/-- A function has got a context of its own, which is ready. -/
structure Starts (supervisor : Supervisor) (function : ScriptFunction) (task : Task)
    (outcome : Except EngineError ContextId × Supervisor) : Prop where
  id_eq : task.id = supervisor.nextId
  running_eq : task.context.running = some (.start function)
  result_eq : outcome.1 = .ok task.id
  active_eq : outcome.2.active = (supervisor.remove task.id).active ++ [task]
  ready_eq : outcome.2.ready = supervisor.ready ++ [task.id]
  nextId_eq : outcome.2.nextId = task.id + 1

theorem add_starts (hunbound : supervisor.session.pool.Unbound) (function : ScriptFunction)
    (retain : Bool) : ∃ task, supervisor.Starts function task (supervisor.add function retain) := by
  obtain ⟨hrunning, -⟩ := hunbound.acquire supervisor.session.engine
  rw [add_of_unbound hrunning function retain]
  exact ⟨_, rfl, rfl, rfl, rfl, rfl, rfl⟩

theorem add_unbound (hunbound : supervisor.session.pool.Unbound) (function : ScriptFunction)
    (retain : Bool) : (supervisor.add function retain).2.session.pool.Unbound :=
  (hunbound.walk (supervisor.add_walk function retain)).2

/-- Contexts that are started later leave the earlier ones where they are. -/
theorem mem_active_spawn (hunbound : supervisor.session.pool.Unbound) {task : Task}
    (htask : task ∈ supervisor.active) (hid : task.id < supervisor.nextId)
    (functions : List ScriptFunction) : task ∈ (supervisor.spawn functions).active := by
  induction functions generalizing supervisor with
  | nil => exact htask
  | cons function functions ih =>
      obtain ⟨started, hstarts⟩ := add_starts hunbound function false
      have hother : task.id ≠ started.id := by
        rw [hstarts.id_eq]
        exact Nat.ne_of_lt hid
      have hactive : task ∈ (supervisor.add function false).2.active := by
        rw [hstarts.active_eq]
        exact List.mem_append_left _ (List.mem_filter.mpr ⟨htask, decide_eq_true hother⟩)
      refine ih (add_unbound hunbound function false) hactive ?_
      rw [hstarts.nextId_eq, hstarts.id_eq]
      exact Nat.lt_succ_of_lt hid

/-- Each function that is spawned gets a context under an id of its own. -/
theorem spawn_starts (hunbound : supervisor.session.pool.Unbound)
    (functions : List ScriptFunction) :
    ∃ tasks : List Task,
      tasks.map (·.context.running) = functions.map (fun function => some (.start function)) ∧
      tasks.map (·.id) = List.range' supervisor.nextId functions.length ∧
      ∀ task ∈ tasks, task ∈ (supervisor.spawn functions).active ∧
        task.id ∈ (supervisor.spawn functions).ready := by
  induction functions generalizing supervisor with
  | nil => exact ⟨[], rfl, rfl, List.forall_mem_nil _⟩
  | cons function functions ih =>
      obtain ⟨task, hstarts⟩ := add_starts hunbound function false
      have hunbound' := add_unbound hunbound function false
      obtain ⟨tasks, hfunctions, hids, htasks⟩ := ih hunbound'
      refine ⟨task :: tasks, ?_, ?_, List.forall_mem_cons.mpr ⟨⟨?_, ?_⟩, htasks⟩⟩
      · rw [List.map_cons, List.map_cons, hfunctions, hstarts.running_eq]
      · rw [List.map_cons, hids, hstarts.nextId_eq, hstarts.id_eq]
        rfl
      -- The functions behind the first one are started under later ids.
      · have hactive : task ∈ (supervisor.add function false).2.active := by
          rw [hstarts.active_eq]
          exact List.mem_append_right _ List.mem_cons_self
        have hid : task.id < (supervisor.add function false).2.nextId := by
          rw [hstarts.nextId_eq]
          exact Nat.lt_succ_self _
        exact mem_active_spawn hunbound' hactive hid functions
      · have hready : task.id ∈ (supervisor.add function false).2.ready := by
          rw [hstarts.ready_eq]
          exact List.mem_append_right _ List.mem_cons_self
        rw [spawn, List.foldl_cons, ← spawn, spawn_ready]
        exact List.mem_append_left _ hready

end Supervisor

/-- Every function that a turn spawns gets a context of its own, which is active and ready
when the turn has been carried out. -/
def TurnStart.StartsAll (start : TurnStart) : Prop :=
  let program := start.supervisor.session.engine.program
  let functions := program.spawnedBy (start.task.context.nextSteps program)
  let performed := start.supervisor.readClock.2.perform (start.task.context.resume program).2.1
  ∃ tasks : List Task,
    tasks.map (·.context.running) = functions.map (fun function => some (.start function)) ∧
    tasks.map (·.id) = List.range' start.supervisor.nextId functions.length ∧
    ∀ task ∈ tasks, task ∈ performed.active ∧ task.id ∈ performed.ready

theorem TurnStart.startsAll {start : TurnStart}
    (hunbound : start.supervisor.session.pool.Unbound) : start.StartsAll := by
  rw [StartsAll, ← Context.resume_spawned]
  rcases start.task.context.resume start.supervisor.session.engine.program with
    ⟨context, effects, state⟩
  have hrecorded : (start.supervisor.readClock.2.record effects).session.pool.Unbound := hunbound
  obtain ⟨tasks, hfunctions, hids, htasks⟩ :=
    Supervisor.spawn_starts hrecorded effects.spawned
  obtain ⟨woken, _, _, hdelivered⟩ := Supervisor.foldl_deliver_eq effects.signalled
    ((start.supervisor.readClock.2.record effects).spawn effects.spawned)
  refine ⟨tasks, hfunctions, hids, fun task htask => ?_⟩
  obtain ⟨hactive, hready⟩ := htasks task htask
  rw [Supervisor.perform, hdelivered]
  exact ⟨hactive, List.mem_append_left _ hready⟩

/-- Whatever a pool hands out can be prepared, so that functions are always started on it. -/
structure ContextPool.Serves (pool : ContextPool) : Prop where
  idle : ∀ context ∈ pool.free, context.isPrepared = false
  acquired : ∀ engine, (pool.acquire engine).1.isPrepared = false
  add : ∀ supervisor : Supervisor, supervisor.session.pool = pool → ∀ function retain,
    ∃ task, supervisor.Starts function task (supervisor.add function retain)

theorem ContextPool.Unbound.serves {pool : ContextPool} (hunbound : pool.Unbound) :
    pool.Serves where
  idle context hcontext := by rw [Context.isPrepared, hunbound context hcontext, Option.isSome_none]
  acquired engine := by rw [Context.isPrepared, (hunbound.acquire engine).1, Option.isSome_none]
  add := by
    rintro supervisor rfl function retain
    exact Supervisor.add_starts hunbound function retain

/-! ## Whole runs -/

namespace Runner

variable {runner after : Runner} {passes : Nat}

/-- With such a pool a supervisor gets its function started. -/
theorem supervise_prepares (hunbound : runner.session.pool.Unbound) {function : ScriptFunction}
    {exit : ExitRequest} {result : Except EngineError (Option ExecutionState × ExitRequest)}
    (hrun : runner.supervise passes function exit = .ok (result, after)) :
    ∃ ended, result = .ok ended := by
  obtain ⟨task, hstarts⟩ := Supervisor.add_starts
    (show (Supervisor.create runner.session runner.clock exit runner.idlePoll).session.pool.Unbound
      from hunbound) function true
  rcases hadd : (Supervisor.create runner.session runner.clock exit runner.idlePoll).add
    function true with ⟨started, supervisor⟩
  rw [hadd] at hstarts
  obtain rfl : started = .ok task.id := hstarts.result_eq
  rw [supervise_of_add hadd] at hrun
  obtain ⟨last, -, hlast⟩ := bind_eq_ok_iff.mp hrun
  cases hlast
  exact ⟨_, rfl⟩

/-- The hook before the globals is prepared, and a run that ends with it says how. -/
theorem runBeforeGlobals_prepares (hunbound : runner.session.pool.Unbound)
    {hook : ScriptFunction} {result : Except RunError (Option RunOutcome)}
    (hrun : runner.runBeforeGlobals passes hook = .ok (result, after)) :
    ∃ ended, result = .ok ended ∧ ∀ outcome, ended = some outcome → after.state = outcome.state := by
  obtain ⟨⟨supervised, before⟩, hsupervise, hrest⟩ := bind_eq_ok_iff.mp hrun
  obtain ⟨⟨state, exit⟩, rfl⟩ := supervise_prepares hunbound hsupervise
  rcases state with _ | (⟨value⟩ | suspension | message | _)
  · cases hrest
    exact ⟨_, rfl, fun outcome houtcome => by cases houtcome; rfl⟩
  · simp only at hrest
    split at hrest
    · cases hrest
      exact ⟨_, rfl, nofun⟩
    · cases hrest
      exact ⟨_, rfl, fun outcome houtcome => by cases houtcome; rfl⟩
  all_goals
    cases hrest
    exact ⟨_, rfl, fun outcome houtcome => by cases houtcome; rfl⟩

theorem runEntry_prepares (hunbound : runner.session.pool.Unbound) {entry : ScriptFunction}
    {result : Except RunError RunOutcome}
    (hrun : runner.runEntry passes entry = .ok (result, after)) :
    ∃ outcome, result = .ok outcome ∧ after.state = outcome.state := by
  obtain ⟨⟨supervised, before⟩, hsupervise, hrest⟩ := bind_eq_ok_iff.mp hrun
  obtain ⟨⟨state, exit⟩, rfl⟩ := supervise_prepares hunbound hsupervise
  rcases state with _ | (⟨value⟩ | suspension | message | _)
  · cases hrest
    exact ⟨_, rfl, rfl⟩
  · cases value <;> cases hrest <;> exact ⟨_, rfl, rfl⟩
  all_goals
    cases hrest
    exact ⟨_, rfl, rfl⟩

theorem runAtExit_state (hrun : runner.runAtExit passes = .ok after) :
    after.state = runner.state := by
  unfold runAtExit at hrun
  split at hrun
  · cases hrun
    rfl
  · obtain ⟨⟨result, next⟩, hsupervise, hnext⟩ := bind_eq_ok_iff.mp hrun
    cases hnext
    obtain ⟨_, _, rfl⟩ := supervise_frame hsupervise
    rfl

/-- How a run leaves its runner: it did not end for want of a context, no context is idle, and
the state is that of its outcome. -/
structure Leaves (result : Except RunError RunOutcome) (after : Runner) : Prop where
  prepared : ∀ error, result ≠ .error (.prepare error)
  drained : after.session.pool.free = []
  state_eq : ∀ outcome, result = .ok outcome → after.state = outcome.state

theorem runMain_leaves (hunbound : runner.session.pool.Unbound) {diagnostics rest : Diagnostics}
    {source : String} {entry : ScriptFunction} {result : Except RunError RunOutcome}
    (hrun : runner.runMain passes diagnostics source entry = .ok ((result, rest), after)) :
    Leaves result after := by
  cases hglobals : runner.session.engine.globalsFailure with
  | some reason =>
      rw [runMain_uninitialized hglobals] at hrun
      cases hrun
      exact ⟨nofun, rfl, nofun⟩
  | none =>
      rw [runMain_initialized hglobals] at hrun
      obtain ⟨⟨ended, middle⟩, hentry, hrun⟩ := bind_eq_ok_iff.mp hrun
      obtain ⟨last, hatExit, hlast⟩ := bind_eq_ok_iff.mp hrun
      have hunbound' : (runner.atEntry diagnostics).1.session.pool.Unbound := by
        rw [atEntry_session]
        exact hunbound
      obtain ⟨outcome, rfl, hstate⟩ := runEntry_prepares hunbound' hentry
      cases hlast
      refine ⟨nofun, rfl, fun other hother => ?_⟩
      cases hother
      exact (runAtExit_state hatExit).trans hstate

theorem run_leaves (hempty : runner.session.pool.free = []) {diagnostics rest : Diagnostics}
    {source : String} {result : Except RunError RunOutcome}
    (hrun : runner.run passes diagnostics source = .ok ((result, rest), after)) :
    Leaves result after := by
  have hunbound : runner.session.pool.Unbound := .of_free_eq_nil hempty
  unfold run at hrun
  cases hfound : entryPoints.findSome? runner.find? with
  | none =>
      rw [hfound] at hrun
      cases hrun
      exact ⟨nofun, hempty, nofun⟩
  | some entry =>
      rw [hfound] at hrun
      simp only at hrun
      cases hhook : runner.find? beforeGlobals with
      | none =>
          rw [hhook] at hrun
          exact runMain_leaves hunbound hrun
      | some hook =>
          rw [hhook] at hrun
          obtain ⟨⟨ended, next⟩, hended, hrest⟩ := bind_eq_ok_iff.mp hrun
          -- The hook may leave contexts in the middle of their functions, but not in the pool
          -- that it hands on.
          have hwalked := (runner.enter .preGlobals).runBeforeGlobals_walked passes hook
          rw [hended] at hwalked
          have hnext : next.session.pool.Unbound := (hunbound.walk hwalked.walk_of_ok).2
          obtain ⟨early, rfl, hstate⟩ := @runBeforeGlobals_prepares (runner.enter .preGlobals) next
            passes hunbound hook _ hended
          cases early with
          | none => exact runMain_leaves hnext hrest
          | some outcome =>
              cases hrest
              refine ⟨nofun, rfl, fun other hother => ?_⟩
              cases hother
              exact hstate outcome rfl

/-- While a program is run from an empty pool, the pool goes through states that follow each
other by one operation each, and each turn begins with one of them.  All of them serve:
whatever is idle or acquired has no function, and a function is always started.  So every
function that a turn spawns gets its context.  A run that returns did not fail to prepare a
context, leaves the pool empty, and has ended in the state of its outcome. -/
theorem run_preparesAndDrains (hempty : runner.session.pool.free = []) (passes : Nat)
    (diagnostics : Diagnostics) (source : String) :
    (∃ last, runner.session.pool.Walk (runner.pools passes diagnostics) last ∧
      ∀ result after, runner.run passes diagnostics source = .ok (result, after) →
        after.session.pool = last) ∧
    (∀ pool ∈ runner.session.pool :: runner.pools passes diagnostics, pool.Serves) ∧
    (∀ start ∈ runner.starts passes diagnostics,
      start.supervisor.session.pool ∈ runner.pools passes diagnostics ∧ start.StartsAll) ∧
    ∀ result rest after, runner.run passes diagnostics source = .ok ((result, rest), after) →
      Leaves result after := by
  have hunbound : runner.session.pool.Unbound := .of_free_eq_nil hempty
  obtain ⟨⟨last, hwalk, hlast⟩, hturns⟩ := runner.run_walked passes diagnostics source
  obtain ⟨hpools, -⟩ := hunbound.walk hwalk
  refine ⟨⟨last, hwalk, fun result after hrun => hlast (result, after) hrun⟩, ?_, ?_,
    fun _ _ _ hrun => run_leaves hempty hrun⟩
  · exact List.forall_mem_cons.mpr ⟨hunbound.serves, fun pool hpool => (hpools pool hpool).serves⟩
  · intro start hstart
    have hpool := hturns start hstart
    exact ⟨hpool, TurnStart.startsAll (hpools _ hpool)⟩

/-- A runner each of whose supervisors ends while a context still waits. -/
def leavingWaiters : Runner where
  session := .ofEngine
    { program := .ofFunctions true
        [("bool preglobals()", [.spawn "void waiter()", .finish (.bool true)]),
          ("int main()", [.spawn "void waiter()", .raise "failed"]),
          ("void waiter()", [.wait 1, .log "awake"]),
          ("void on_exit()", [.spawn "void waiter()"])] }
    false
  clock := .ticking 1000

/-- The waiting contexts go to the pool in the middle of their function. -/
theorem run_preparesAndDrains_waiters :
    leavingWaiters.session.pool.free = [] ∧
      (∃ pool ∈ leavingWaiters.pools 10 {}, pool.idle = 2 ∧ pool.Serves) ∧
      (∃ start ∈ leavingWaiters.starts 10 {}, start.queues = [2] ∧ start.StartsAll) ∧
      ∃ rest after,
        leavingWaiters.run 10 {} "main.script" = .ok ((.ok ⟨.excepted, -1⟩, rest), after) ∧
          after.session.pool.created = 2 ∧ after.session.pool.free = [] ∧
          after.state = .excepted := by
  obtain ⟨-, hserves, hstarts, hleaves⟩ :=
    @run_preparesAndDrains leavingWaiters rfl 10 {} "main.script"
  obtain ⟨⟨⟨result, rest⟩, after⟩, hrun, hresult⟩ := exists_eq_ok_of_any
    (leavingWaiters.run 10 {} "main.script")
    (fun result => result.1.1.toOption = some ⟨.excepted, -1⟩ ∧
      result.2.session.pool.created = 2) (by decide +kernel)
  obtain ⟨houtcome, hcreated⟩ := of_decide_eq_true hresult
  have hfull : (leavingWaiters.pools 10 {}).any (·.idle = 2) = true := by decide +kernel
  obtain ⟨pool, hpool, hidle⟩ := List.any_eq_true.mp hfull
  have hspawns : (leavingWaiters.starts 10 {}).any (·.queues = [2]) = true := by decide +kernel
  obtain ⟨start, hstart, hqueues⟩ := List.any_eq_true.mp hspawns
  refine ⟨rfl, ⟨pool, hpool, of_decide_eq_true hidle, hserves pool (List.mem_cons_of_mem _ hpool)⟩,
    ⟨start, hstart, of_decide_eq_true hqueues, (hstarts start hstart).2⟩, ?_⟩
  cases result with
  | error error => cases houtcome
  | ok outcome =>
      obtain rfl : outcome = ⟨.excepted, -1⟩ := Option.some.inj houtcome
      have hleft := hleaves _ _ _ hrun
      exact ⟨rest, after, hrun, hcreated, hleft.drained, hleft.state_eq _ rfl⟩

end Runner

end ScriptBundle
