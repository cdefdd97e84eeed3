import ScriptBundle.Proofs.Schedule.AtExit

/-!
# The pool on its way through a run

The supervisors of a run share one pool.  It is handed from each of them to the next one
together with all the contexts in it, and it changes by one operation at a time: a context
is acquired, a context is released, or the idle contexts are dropped.  The pools that come
about are listed beside the run, and its turns begin with some of them.
-/

namespace ScriptBundle

namespace ContextPool

/-- At most one thing happens to a pool. -/
inductive Step : ContextPool → ContextPool → Prop where
  | stay (pool : ContextPool) : Step pool pool
  | acquire (pool : ContextPool) (engine : Engine) : Step pool (pool.acquire engine).2.1
  | release (pool : ContextPool) (context : Context) : Step pool (pool.release context)
  | drain (pool : ContextPool) : Step pool pool.drain

/-- The pools behind a first one, up to a last one. -/
inductive Walk : ContextPool → List ContextPool → ContextPool → Prop where
  | done (pool : ContextPool) : Walk pool [] pool
  | step {pool next last : ContextPool} {pools : List ContextPool} (hstep : pool.Step next)
      (hrest : Walk next pools last) : Walk pool (next :: pools) last

namespace Walk

variable {pool middle last : ContextPool} {pools later : List ContextPool}

theorem single (hstep : pool.Step last) : pool.Walk [last] last :=
  .step hstep (.done last)

theorem append (hwalk : pool.Walk pools middle) (hlater : middle.Walk later last) :
    pool.Walk (pools ++ later) last := by
  induction hwalk with
  | done => exact hlater
  | step hstep hrest ih => exact .step hstep (ih hlater)

/-- What every operation keeps holds all the way. -/
theorem invariant {kept : ContextPool → Prop}
    (hkept : ∀ {before after}, before.Step after → kept before → kept after)
    (hwalk : pool.Walk pools last) (hpool : kept pool) :
    (∀ other ∈ pools, kept other) ∧ kept last := by
  induction hwalk with
  | done => exact ⟨List.forall_mem_nil _, hpool⟩
  | step hstep hrest ih =>
      obtain ⟨hpools, hlast⟩ := ih (hkept hstep hpool)
      exact ⟨List.forall_mem_cons.mpr ⟨hkept hstep hpool, hpools⟩, hlast⟩

end Walk

end ContextPool

/-! ## Operations -/

namespace Session

/-- The pools while some contexts are released. -/
def releasePools (session : Session) : List Context → List ContextPool
  | [] => []
  | context :: contexts =>
      (session.release context).pool :: (session.release context).releasePools contexts

theorem release_walk (session : Session) (contexts : List Context) :
    session.pool.Walk (session.releasePools contexts)
      (contexts.foldl Session.release session).pool := by
  induction contexts generalizing session with
  | nil => exact .done _
  | cons context contexts ih => exact .step (.release _ context) (ih (session.release context))

end Session

namespace Supervisor

/-- The pools while a function is started: a context is acquired, and released again if the
function cannot be started on it. -/
def addPools (supervisor : Supervisor) (function : ScriptFunction) (retain : Bool) :
    List ContextPool :=
  [supervisor.session.acquire.2.pool, (supervisor.add function retain).2.session.pool]

theorem add_walk (supervisor : Supervisor) (function : ScriptFunction) (retain : Bool) :
    supervisor.session.pool.Walk (supervisor.addPools function retain)
      (supervisor.add function retain).2.session.pool := by
  refine .step (.acquire _ supervisor.session.engine) (.single ?_)
  unfold add
  simp only
  cases supervisor.session.acquire.1.prepare function with
  | error error => exact .release _ supervisor.session.acquire.1
  | ok prepared => exact .stay _

/-- The pools while some functions are started. -/
def spawnPools (supervisor : Supervisor) : List ScriptFunction → List ContextPool
  | [] => []
  | function :: functions =>
      supervisor.addPools function false ++
        (supervisor.add function false).2.spawnPools functions

theorem spawn_walk (supervisor : Supervisor) (functions : List ScriptFunction) :
    supervisor.session.pool.Walk (supervisor.spawnPools functions)
      (supervisor.spawn functions).session.pool := by
  induction functions generalizing supervisor with
  | nil => exact .done _
  | cons function functions ih => exact (supervisor.add_walk function false).append (ih _)

theorem perform_pool (supervisor : Supervisor) (effects : Effects) :
    (supervisor.perform effects).session.pool =
      ((supervisor.record effects).spawn effects.spawned).session.pool := by
  obtain ⟨_, _, _, hdelivered⟩ :=
    foldl_deliver_eq effects.signalled ((supervisor.record effects).spawn effects.spawned)
  rw [perform, hdelivered]

theorem settle_step {supervisor after : Supervisor} {task : Task} {state : ExecutionState}
    {now : Instant} (hsettle : supervisor.settle task state now = .ok after) :
    supervisor.session.pool.Step after.session.pool := by
  rcases settle_eq hsettle with ⟨-, _, _, _, _, rfl⟩ | ⟨-, ⟨_, rfl⟩ | rfl⟩
  · exact .stay _
  · exact .stay _
  · exact .release _ task.context

/-- The pools while a supervisor gives its contexts back. -/
def closePools (supervisor : Supervisor) : List ContextPool :=
  supervisor.session.releasePools
    (supervisor.results.filterMap (·.context) ++ supervisor.active.map (·.context))

theorem close_walk (supervisor : Supervisor) :
    supervisor.session.pool.Walk supervisor.closePools supervisor.close.pool :=
  supervisor.session.release_walk _

theorem refresh_pool (supervisor : Supervisor) :
    supervisor.refresh.session.pool = supervisor.session.pool := by
  obtain ⟨_, _, _, _, _, hrefresh⟩ := supervisor.refresh_eq
  rw [hrefresh]

theorem idle_pool (supervisor : Supervisor) :
    supervisor.idle.2.session.pool = supervisor.session.pool := by
  obtain ⟨_, hidle⟩ := supervisor.idle_eq
  rw [hidle]

theorem abortAll_pool (supervisor : Supervisor) :
    supervisor.abortAll.session.pool = supervisor.session.pool := by
  obtain ⟨_, habort⟩ := supervisor.abortAll_frame
  rw [habort]

end Supervisor

/-- The pools of a turn: at its beginning, while it starts contexts, and at its end. -/
def TurnStart.pools (start : TurnStart) : List ContextPool :=
  let (_, effects, _) := start.task.context.resume start.supervisor.session.engine.program
  start.supervisor.session.pool ::
    ((start.supervisor.readClock.2.record effects).spawnPools effects.spawned ++
      (start.supervisor.turn start.task).toOption.elim [] fun after => [after.session.pool])

/-! ## Computations -/

/-- A computation leads the pool through some pools to the one it leaves behind, and each of
its turns begins with one of them. -/
structure Walked {α : Type} (poolOf : α → ContextPool) (pool : ContextPool)
    (starts : List TurnStart) (pools : List ContextPool) (result : Except Interruption α) :
    Prop where
  walk : ∃ last, pool.Walk pools last ∧ ∀ value, result = .ok value → poolOf value = last
  turns : ∀ start ∈ starts, start.supervisor.session.pool ∈ pools

namespace Walked

variable {α β : Type} {poolOf : α → ContextPool} {poolOf' : β → ContextPool}
  {pool middle : ContextPool} {starts later : List TurnStart} {pools following : List ContextPool}
  {result : Except Interruption α}

theorem done {value : α} (hpool : poolOf value = pool) :
    Walked poolOf pool [] [] (.ok value) where
  walk := ⟨pool, .done pool, fun _ hvalue => Except.ok.inj hvalue ▸ hpool⟩
  turns := List.forall_mem_nil _

theorem broken (interruption : Interruption) :
    Walked poolOf pool [] [] (.error interruption) where
  walk := ⟨pool, .done pool, fun _ hvalue => nomatch hvalue⟩
  turns := List.forall_mem_nil _

/-- A computation that only handles the pool. -/
theorem handled {value : α} (hwalk : pool.Walk pools (poolOf value)) :
    Walked poolOf pool [] pools (.ok value) where
  walk := ⟨_, hwalk, fun _ hvalue => Except.ok.inj hvalue ▸ rfl⟩
  turns := List.forall_mem_nil _

theorem append (hwalk : pool.Walk pools middle)
    (hturns : ∀ start ∈ starts, start.supervisor.session.pool ∈ pools)
    (hlater : Walked poolOf middle later following result) :
    Walked poolOf pool (starts ++ later) (pools ++ following) result where
  walk := by
    obtain ⟨last, hrest, hlast⟩ := hlater.walk
    exact ⟨last, hwalk.append hrest, hlast⟩
  turns := by
    intro start hstart
    rcases List.mem_append.mp hstart with hstart | hstart
    · exact List.mem_append_left _ (hturns start hstart)
    · exact List.mem_append_right _ (hlater.turns start hstart)

theorem of_error {interruption : Interruption}
    (hwalked : Walked poolOf pool starts pools (.error interruption)) :
    Walked poolOf' pool starts pools (.error interruption) where
  walk := by
    obtain ⟨last, hwalk, -⟩ := hwalked.walk
    exact ⟨last, hwalk, fun _ hvalue => nomatch hvalue⟩
  turns := hwalked.turns

theorem walk_of_ok {value : α} (hwalked : Walked poolOf pool starts pools (.ok value)) :
    pool.Walk pools (poolOf value) := by
  obtain ⟨last, hwalk, hlast⟩ := hwalked.walk
  rw [hlast value rfl]
  exact hwalk

theorem bind {next : α → Except Interruption β} {startsOf : α → List TurnStart}
    {poolsOf : α → List ContextPool} (hresult : Walked poolOf pool starts pools result)
    (hnext : ∀ value, result = .ok value →
      Walked poolOf' (poolOf value) (startsOf value) (poolsOf value) (next value)) :
    Walked poolOf' pool (starts ++ startsAfter result startsOf)
      (pools ++ result.toOption.elim [] poolsOf) (result >>= next) := by
  cases result with
  | error interruption =>
      rw [startsAfter, List.append_nil]
      change Walked poolOf' pool starts (pools ++ []) _
      rw [List.append_nil]
      exact hresult.of_error
  | ok value => exact append hresult.walk_of_ok hresult.turns (hnext value rfl)

/-- What follows gives no turn. -/
theorem thenHandled {next : α → Except Interruption β} {poolsOf : α → List ContextPool}
    (hresult : Walked poolOf pool starts pools result)
    (hnext : ∀ value, result = .ok value →
      Walked poolOf' (poolOf value) [] (poolsOf value) (next value)) :
    Walked poolOf' pool starts (pools ++ result.toOption.elim [] poolsOf) (result >>= next) := by
  have hbound := hresult.bind hnext
  have hstarts : startsAfter result (fun _ => []) = [] := by
    cases result <;> rfl
  rw [hstarts, List.append_nil] at hbound
  exact hbound

/-- What follows does not touch the pool. -/
theorem followed {next : α → Except Interruption β}
    (hresult : Walked poolOf pool starts pools result)
    (hnext : ∀ value value', next value = .ok value' → poolOf' value' = poolOf value) :
    Walked poolOf' pool starts pools (result >>= next) where
  walk := by
    obtain ⟨last, hwalk, hlast⟩ := hresult.walk
    refine ⟨last, hwalk, fun value' hvalue' => ?_⟩
    obtain ⟨value, hvalue, hnextValue⟩ := bind_eq_ok_iff.mp hvalue'
    rw [hnext value value' hnextValue, hlast value hvalue]
  turns := hresult.turns

end Walked

/-! ## Passes -/

namespace Supervisor

/-- The pool that a pass leaves behind. -/
def leftPool (outcome : Bool × Supervisor) : ContextPool :=
  outcome.2.session.pool

theorem turn_walked (supervisor : Supervisor) (task : Task) :
    Walked (·.session.pool) supervisor.session.pool [⟨supervisor, task⟩]
      (TurnStart.pools ⟨supervisor, task⟩) (supervisor.turn task) := by
  rcases hresume : task.context.resume supervisor.session.engine.program with
    ⟨context, effects, state⟩
  have hspawn : supervisor.session.pool.Walk
      ((supervisor.readClock.2.record effects).spawnPools effects.spawned)
      (supervisor.readClock.2.perform effects).session.pool := by
    rw [perform_pool]
    exact (supervisor.readClock.2.record effects).spawn_walk effects.spawned
  rw [TurnStart.pools, hresume]
  refine ⟨?_, fun start hstart => ?_⟩
  -- A turn that breaks off does so when it should settle its own context.
  · cases hturn : supervisor.turn task with
    | error interruption =>
        exact ⟨_, .step (.stay _) (hspawn.append (.done _)), fun _ hvalue => nomatch hvalue⟩
    | ok after =>
        have hstep : (supervisor.readClock.2.perform effects).session.pool.Step
            after.session.pool := by
          rw [turn_eq hresume] at hturn
          exact settle_step hturn
        refine ⟨_, .step (.stay _) (hspawn.append (.single hstep)), fun _ hvalue => ?_⟩
        rw [← Except.ok.inj hvalue]
  · rw [List.mem_singleton.mp hstart]
    exact List.mem_cons_self

theorem runQueue_walked (supervisor : Supervisor) (ids : List ContextId) :
    Walked leftPool supervisor.session.pool (supervisor.queueStarts undisturbed ids)
      ((supervisor.queueStarts undisturbed ids).flatMap TurnStart.pools)
      (supervisor.runQueue ids) := by
  induction ids generalizing supervisor with
  | nil => exact .done rfl
  | cons id remaining ih =>
      rw [queueStarts, runQueue]
      cases supervisor.context? id with
      | none => exact ih supervisor
      | some context =>
          have hturn := (supervisor.remove id).turn_walked { id, context }
          simp only [turnAmid_undisturbed, List.flatMap_cons]
          cases hnext : (supervisor.remove id).turn { id, context } with
          | error interruption =>
              rw [hnext] at hturn
              rw [List.flatMap_nil, List.append_nil]
              exact hturn.of_error
          | ok next =>
              rw [hnext] at hturn
              have hrest : Walked leftPool next.session.pool
                  (if next.exit.requested then [] else next.queueStarts undisturbed remaining)
                  ((if next.exit.requested then []
                    else next.queueStarts undisturbed remaining).flatMap TurnStart.pools)
                  (if next.exit.requested then .ok (false, next.abortAll)
                    else next.runQueue remaining) := by
                split
                · exact .done next.abortAll_pool
                · exact ih next
              exact .append hturn.walk_of_ok hturn.turns hrest

theorem pass_walked (supervisor : Supervisor) :
    Walked leftPool supervisor.session.pool (supervisor.passStarts undisturbed)
      ((supervisor.passStarts undisturbed).flatMap TurnStart.pools) supervisor.pass := by
  unfold passStarts pass
  split
  · exact .done supervisor.abortAll_pool
  · simp only
    cases supervisor.refresh.ready with
    | nil =>
        refine .done ?_
        split
        · exact supervisor.refresh_pool
        · exact supervisor.refresh.idle_pool.trans supervisor.refresh_pool
    | cons id remaining =>
        have hqueue := runQueue_walked { supervisor.refresh with ready := [] } (id :: remaining)
        rw [← supervisor.refresh_pool]
        exact hqueue

theorem run_walked (passes : Nat) (supervisor : Supervisor) :
    Walked (·.session.pool) supervisor.session.pool (supervisor.runStarts passes)
      ((supervisor.runStarts passes).flatMap TurnStart.pools) (supervisor.run passes) := by
  induction passes generalizing supervisor with
  | zero => exact .broken .outOfPasses
  | succ passes ih =>
      have hpass := supervisor.pass_walked
      rw [runStarts, run]
      cases hnext : supervisor.pass with
      | error interruption =>
          rw [hnext] at hpass
          rw [List.append_nil]
          exact hpass.of_error
      | ok outcome =>
          obtain ⟨more, next⟩ := outcome
          rw [hnext] at hpass
          rw [List.flatMap_append]
          refine .append hpass.walk_of_ok hpass.turns ?_
          cases more with
          | true => exact ih next
          | false => exact .done rfl

end Supervisor

/-! ## Whole runs -/

namespace Runner

/-- The pools while a function and all the contexts that it starts are run. -/
def supervisePools (runner : Runner) (passes : Nat) (function : ScriptFunction)
    (exit : ExitRequest) : List ContextPool :=
  let supervisor := Supervisor.create runner.session runner.clock exit runner.idlePoll
  supervisor.addPools function true ++
    match supervisor.add function true with
    | (.error _, supervisor) => supervisor.closePools
    | (.ok _, supervisor) =>
        (supervisor.runStarts passes).flatMap TurnStart.pools ++
          (supervisor.run passes).toOption.elim [] Supervisor.closePools

/-- The pools of the hook at the end. -/
def atExitPools (runner : Runner) (passes : Nat) : List ContextPool :=
  match runner.find? atExit with
  | none => []
  | some hook => runner.supervisePools passes hook {}

/-- The pools behind the hook before the globals. -/
def mainPools (runner : Runner) (passes : Nat) (diagnostics : Diagnostics)
    (entry : ScriptFunction) : List ContextPool :=
  match runner.session.engine.initializeGlobals with
  | .error _ => [runner.session.pool.drain]
  | .ok engine =>
      let runner :=
        { runner with session := { runner.session with engine } }.enter .globalsInitialized
      let runner := (runner.presentReport diagnostics).1.enter .running
      runner.supervisePools passes entry runner.exit ++
        (runner.runEntry passes entry).toOption.elim [] fun (_, runner) =>
          runner.atExitPools passes ++
            (runner.runAtExit passes).toOption.elim [] fun runner => [runner.session.pool.drain]

/-- The pools of a run behind the one it begins with, in their order. -/
def pools (runner : Runner) (passes : Nat) (diagnostics : Diagnostics) : List ContextPool :=
  match entryPoints.findSome? runner.find? with
  | none => []
  | some entry =>
      match runner.find? beforeGlobals with
      | none => runner.mainPools passes diagnostics entry
      | some hook =>
          (runner.enter .preGlobals).supervisePools passes hook runner.exit ++
            ((runner.enter .preGlobals).runBeforeGlobals passes hook).toOption.elim [] fun
              | (.error _, _) => []
              | (.ok (some _), runner) => [runner.session.pool.drain]
              | (.ok none, runner) => runner.mainPools passes diagnostics entry

variable {runner : Runner} {passes : Nat}

theorem supervise_walked (runner : Runner) (passes : Nat) (function : ScriptFunction)
    (exit : ExitRequest) :
    Walked (·.2.session.pool) runner.session.pool (runner.superviseStarts passes function exit)
      (runner.supervisePools passes function exit) (runner.supervise passes function exit) := by
  have hwalk := (Supervisor.create runner.session runner.clock exit runner.idlePoll).add_walk
    function true
  rw [superviseStarts, supervisePools]
  rcases hadd : (Supervisor.create runner.session runner.clock exit runner.idlePoll).add
    function true with ⟨error | id, supervisor⟩
  · rw [hadd] at hwalk
    rw [supervise]
    simp only [hadd]
    exact .append hwalk (List.forall_mem_nil _) (.handled supervisor.close_walk)
  · rw [hadd] at hwalk
    rw [supervise_of_add hadd]
    exact .append hwalk (List.forall_mem_nil _)
      ((supervisor.run_walked passes).thenHandled fun last _ => .handled last.close_walk)

theorem runAtExit_walked (runner : Runner) (passes : Nat) :
    Walked (·.session.pool) runner.session.pool (runner.atExitStarts passes)
      (runner.atExitPools passes) (runner.runAtExit passes) := by
  unfold atExitStarts atExitPools runAtExit
  cases runner.find? atExit with
  | none => exact .done rfl
  | some hook =>
      exact (runner.supervise_walked passes hook {}).followed fun _ _ hnext =>
        Except.ok.inj hnext ▸ rfl

theorem runBeforeGlobals_walked (runner : Runner) (passes : Nat) (hook : ScriptFunction) :
    Walked (·.2.session.pool) runner.session.pool
      (runner.superviseStarts passes hook runner.exit)
      (runner.supervisePools passes hook runner.exit) (runner.runBeforeGlobals passes hook) := by
  refine (runner.supervise_walked passes hook runner.exit).followed ?_
  rintro ⟨error | ⟨state, exit⟩, next⟩ ended hended
  · cases hended
    rfl
  · rcases state with _ | (⟨value⟩ | suspension | message | _)
    · cases hended
      rfl
    · simp only at hended
      split at hended <;> cases hended <;> rfl
    all_goals
      cases hended
      rfl

theorem runEntry_walked (runner : Runner) (passes : Nat) (entry : ScriptFunction) :
    Walked (·.2.session.pool) runner.session.pool
      (runner.superviseStarts passes entry runner.exit)
      (runner.supervisePools passes entry runner.exit) (runner.runEntry passes entry) := by
  refine (runner.supervise_walked passes entry runner.exit).followed ?_
  rintro ⟨error | ⟨state, exit⟩, next⟩ ended hended
  · cases hended
    rfl
  · rcases state with _ | (⟨value⟩ | suspension | message | _)
    · cases hended
      rfl
    · cases value <;> cases hended <;> rfl
    · cases hended
      rfl
    · cases hended
      simp only [enter]
      split <;> rfl
    · cases hended
      rfl

theorem mainPools_initialized (hglobals : runner.session.engine.globalsFailure = none)
    (diagnostics : Diagnostics) (entry : ScriptFunction) :
    runner.mainPools passes diagnostics entry =
      (runner.atEntry diagnostics).1.supervisePools passes entry
          (runner.atEntry diagnostics).1.exit ++
        ((runner.atEntry diagnostics).1.runEntry passes entry).toOption.elim [] fun ended =>
          ended.2.atExitPools passes ++
            (ended.2.runAtExit passes).toOption.elim [] fun last => [last.session.pool.drain] := by
  unfold mainPools Engine.initializeGlobals
  rw [hglobals]
  rfl

theorem runMain_walked (runner : Runner) (passes : Nat) (diagnostics : Diagnostics)
    (source : String) (entry : ScriptFunction) :
    Walked (·.2.session.pool) runner.session.pool (runner.mainStarts passes diagnostics entry)
      (runner.mainPools passes diagnostics entry)
      (runner.runMain passes diagnostics source entry) := by
  cases hglobals : runner.session.engine.globalsFailure with
  | some reason =>
      unfold mainStarts mainPools runMain Engine.initializeGlobals
      rw [hglobals]
      exact .handled (.single (.drain _))
  | none =>
      have hpool : (runner.atEntry diagnostics).1.session.pool = runner.session.pool := by
        rw [atEntry_session]
      rw [mainStarts_initialized hglobals, mainPools_initialized hglobals,
        runMain_initialized hglobals, ← hpool]
      refine .bind (runEntry_walked _ passes entry) fun ended _ => ?_
      exact (ended.2.runAtExit_walked passes).thenHandled fun last _ =>
        .handled (.single (.drain _))

/-- A run leads the pool through its pools, and its turns begin with some of them. -/
theorem run_walked (runner : Runner) (passes : Nat) (diagnostics : Diagnostics)
    (source : String) :
    Walked (·.2.session.pool) runner.session.pool (runner.starts passes diagnostics)
      (runner.pools passes diagnostics) (runner.run passes diagnostics source) := by
  unfold starts pools run
  cases entryPoints.findSome? runner.find? with
  | none => exact .done rfl
  | some entry =>
      cases runner.find? beforeGlobals with
      | none => exact runner.runMain_walked passes diagnostics source entry
      | some hook =>
          refine .bind ((runner.enter .preGlobals).runBeforeGlobals_walked passes hook) ?_
          rintro ⟨error | (_ | outcome), next⟩ -
          · exact .done rfl
          · exact next.runMain_walked passes diagnostics source entry
          · exact .handled (.single (.drain _))

end Runner

end ScriptBundle
