import ScriptBundle.Proofs.Outcomes
import ScriptBundle.Proofs.Schedule.Frames
import ScriptBundle.Proofs.Schedule.Recycling
import ScriptBundle.Proofs.Schedule.Turns

/-!
# Tidy pools

Every context that comes from a pool carries the hooks of the pool, and no idle context has
a function.  Whatever supervisors do with the contexts, and in whichever way they recycle
them, this stays so.
-/

namespace ScriptBundle

/-- Idle contexts are as good as new. -/
structure Session.Tidy (hooks : Hooks) (session : Session) : Prop where
  installed : session.pool.hooks = hooks
  idle : ∀ context ∈ session.pool.free, context.hooks = some hooks ∧ context.running = none

theorem Context.resume_hooks (program : Program) (context : Context) :
    (context.resume program).1.hooks = context.hooks := by
  unfold resume
  split <;> rfl

namespace Session.Tidy

variable {hooks : Hooks} {session : Session}

theorem ofEngine (engine : Engine) (lines : Bool) :
    (Session.ofEngine engine lines).Tidy ⟨lines⟩ :=
  ⟨rfl, List.forall_mem_nil _⟩

theorem acquire (htidy : session.Tidy hooks) :
    session.acquire.1.hooks = some hooks ∧ session.acquire.1.running = none ∧
      session.acquire.2.Tidy hooks := by
  unfold Session.acquire ContextPool.acquire ContextPool.reuse? ContextPool.create
  cases hfree : session.pool.free with
  | nil =>
      exact ⟨congrArg some htidy.installed, rfl, htidy.installed, by simp⟩
  | cons context free =>
      have hidle := htidy.idle
      rw [hfree] at hidle
      obtain ⟨hhooks, hrunning⟩ := hidle context List.mem_cons_self
      exact ⟨hhooks, hrunning, htidy.installed, fun other hother =>
        hidle other (List.mem_cons_of_mem _ hother)⟩

theorem release (htidy : session.Tidy hooks) {context : Context}
    (hcontext : context.hooks = some hooks) : (session.release context).Tidy hooks := by
  refine ⟨htidy.installed, fun other hother => ?_⟩
  rcases List.mem_cons.mp hother with rfl | hother
  · exact ⟨hcontext, rfl⟩
  · exact htidy.idle other hother

theorem drain (htidy : session.Tidy hooks) : session.drain.Tidy hooks :=
  ⟨htidy.installed, List.forall_mem_nil _⟩

theorem foldl_release {contexts : List Context} (htidy : session.Tidy hooks)
    (hcontexts : ∀ context ∈ contexts, context.hooks = some hooks) :
    (contexts.foldl Session.release session).Tidy hooks := by
  induction contexts generalizing session with
  | nil => exact htidy
  | cons context contexts ih =>
      exact ih (htidy.release (hcontexts context List.mem_cons_self)) fun other hother =>
        hcontexts other (List.mem_cons_of_mem _ hother)

theorem supply (htidy : session.Tidy hooks) (recycling : Recycling) :
    (recycling.supply session).Tidy hooks :=
  ⟨htidy.installed, fun context hcontext =>
    htidy.idle context ((recycling.idle_sublist _).subset hcontext)⟩

end Session.Tidy

/-- A function is started on a context of the pool that has none, under the next id. -/
theorem Supervisor.add_of_unbound {supervisor : Supervisor}
    (hunbound : supervisor.session.acquire.1.running = none) (function : ScriptFunction)
    (retain : Bool) :
    supervisor.add function retain =
      (.ok supervisor.nextId,
        { supervisor.keep ⟨supervisor.nextId,
            { supervisor.session.acquire.1 with running := some (.start function) }⟩ with
          session := supervisor.session.acquire.2
          nextId := supervisor.nextId + 1
          retained :=
            if retain then supervisor.nextId :: supervisor.retained else supervisor.retained
          ready := supervisor.ready ++ [supervisor.nextId] }) := by
  have hprepared : ¬supervisor.session.acquire.1.isPrepared = true := by
    rw [Context.isPrepared, hunbound]
    exact Bool.false_ne_true
  simp only [Supervisor.add, Context.prepare, if_neg hprepared]

/-- A supervisor of a tidy pool, all of whose contexts carry the hooks. -/
structure Supervisor.Tidy (hooks : Hooks) (supervisor : Supervisor) : Prop where
  session : supervisor.session.Tidy hooks
  held : ∀ context ∈ supervisor.contexts, context.hooks = some hooks

namespace Supervisor.Tidy

variable {hooks : Hooks} {supervisor after : Supervisor}

theorem create {session : Session} (htidy : session.Tidy hooks) (clock : Clock)
    (exit : ExitRequest) (idlePoll : Nat) :
    (Supervisor.create session clock exit idlePoll).Tidy hooks :=
  ⟨htidy, List.forall_mem_nil _⟩

theorem context? (htidy : supervisor.Tidy hooks) {id : ContextId} {context : Context}
    (hcontext : supervisor.context? id = some context) : context.hooks = some hooks := by
  obtain ⟨task, htask, rfl⟩ := Option.map_eq_some_iff.mp hcontext
  exact htidy.held _ (List.mem_append_left _
    (List.mem_map.mpr ⟨task, List.mem_of_find?_eq_some htask, rfl⟩))

theorem remove (htidy : supervisor.Tidy hooks) (id : ContextId) :
    (supervisor.remove id).Tidy hooks := by
  have hfewer : (supervisor.remove id).contexts.Sublist supervisor.contexts :=
    List.Sublist.append (List.filter_sublist.map _) (.refl _)
  exact ⟨htidy.session, fun context hcontext => htidy.held context (hfewer.subset hcontext)⟩

theorem keep (htidy : supervisor.Tidy hooks) {task : Task}
    (htask : task.context.hooks = some hooks) : (supervisor.keep task).Tidy hooks := by
  refine ⟨htidy.session, fun context hcontext => ?_⟩
  have hcases : context ∈ (supervisor.remove task.id).contexts ∨ context = task.context := by
    simp only [contexts, Supervisor.keep, List.map_append, List.map_cons, List.map_nil,
      List.mem_append, List.mem_singleton] at hcontext ⊢
    tauto
  rcases hcases with hold | rfl
  · exact (htidy.remove task.id).held context hold
  · exact htask

/-- A function that is started gets a context of the pool, which has none. -/
theorem add_eq (htidy : supervisor.session.Tidy hooks) (function : ScriptFunction)
    (retain : Bool) :
    ∃ context session, supervisor.session.acquire = (context, session) ∧
      context.hooks = some hooks ∧ session.Tidy hooks ∧
      supervisor.add function retain =
        (.ok supervisor.nextId,
          { supervisor.keep ⟨supervisor.nextId, { context with running := some (.start function) }⟩
            with
            session
            nextId := supervisor.nextId + 1
            retained :=
              if retain then supervisor.nextId :: supervisor.retained else supervisor.retained
            ready := supervisor.ready ++ [supervisor.nextId] }) := by
  obtain ⟨hhooks, hrunning, hsession⟩ := htidy.acquire
  exact ⟨supervisor.session.acquire.1, supervisor.session.acquire.2, rfl, hhooks, hsession,
    Supervisor.add_of_unbound hrunning function retain⟩

theorem add (htidy : supervisor.Tidy hooks) (function : ScriptFunction) (retain : Bool) :
    (supervisor.add function retain).2.Tidy hooks := by
  obtain ⟨context, session, -, hhooks, hsession, hadd⟩ := add_eq htidy.session function retain
  rw [hadd]
  exact ⟨hsession, (htidy.keep hhooks).held⟩

theorem record (htidy : supervisor.Tidy hooks) (effects : Effects) :
    (supervisor.record effects).Tidy hooks :=
  ⟨⟨htidy.session.installed, htidy.session.idle⟩, htidy.held⟩

theorem readClock (htidy : supervisor.Tidy hooks) : supervisor.readClock.2.Tidy hooks :=
  ⟨htidy.session, htidy.held⟩

theorem takeReady (htidy : supervisor.Tidy hooks) :
    Supervisor.Tidy hooks { supervisor with ready := [] } :=
  ⟨htidy.session, htidy.held⟩

theorem foldl_deliver (htidy : supervisor.Tidy hooks) (events : List EventId) :
    (events.foldl deliver supervisor).Tidy hooks := by
  obtain ⟨_, _, _, hdelivered⟩ := foldl_deliver_eq events supervisor
  rw [hdelivered]
  exact ⟨htidy.session, htidy.held⟩

theorem refresh (htidy : supervisor.Tidy hooks) : supervisor.refresh.Tidy hooks := by
  obtain ⟨_, _, _, _, _, hrefresh⟩ := supervisor.refresh_eq
  rw [hrefresh]
  exact ⟨htidy.session, htidy.held⟩

theorem idle (htidy : supervisor.Tidy hooks) : supervisor.idle.2.Tidy hooks := by
  obtain ⟨_, hidle⟩ := supervisor.idle_eq
  rw [hidle]
  exact ⟨htidy.session, htidy.held⟩

theorem conclude (htidy : supervisor.Tidy hooks) (id : ContextId) (state : ExecutionState)
    {context : Option Context} (hcontext : ∀ kept ∈ context, kept.hooks = some hooks) :
    (supervisor.conclude id state context).Tidy hooks := by
  unfold Supervisor.conclude
  split
  · refine ⟨htidy.session, fun kept hkept => ?_⟩
    rcases List.mem_append.mp hkept with hactive | hresult
    · exact htidy.held kept (List.mem_append_left _ hactive)
    · obtain ⟨result, hresult, hkept⟩ := List.mem_filterMap.mp hresult
      rcases List.mem_cons.mp hresult with rfl | hresult
      · exact hcontext kept hkept
      · exact htidy.held kept (List.mem_append_right _ (List.mem_filterMap.mpr ⟨_, hresult, hkept⟩))
  · exact htidy

theorem settle (htidy : supervisor.Tidy hooks) {task : Task}
    (htask : task.context.hooks = some hooks) {state : ExecutionState} {now : Instant}
    (hsettle : supervisor.settle task state now = .ok after) : after.Tidy hooks := by
  unfold Supervisor.settle at hsettle
  split at hsettle
  · obtain ⟨_, _, _, _, rfl⟩ := park_frame hsettle
    exact ⟨htidy.session, (htidy.keep htask).held⟩
  · cases hsettle
    exact htidy.conclude _ _ fun _ hnone => (Option.some_ne_none _ hnone.symm).elim
  · split at hsettle
    · cases hsettle
      refine htidy.conclude _ _ fun kept hkept => ?_
      rw [← Option.some.inj hkept]
      exact htask
    · cases hsettle
      exact ⟨htidy.session.release htask, htidy.held⟩

theorem abortAll (htidy : supervisor.Tidy hooks) : supervisor.abortAll.Tidy hooks := by
  have hresults := foldl_conclude_contexts supervisor.active
    { supervisor with active := [], ready := [], sleeping := [], waiting := [] }
  obtain ⟨results, habort, -⟩ := foldl_conclude [] [] supervisor.active
    { supervisor with active := [], ready := [], sleeping := [], waiting := [] }
  rw [habort] at hresults
  rw [Supervisor.abortAll, habort]
  refine ⟨htidy.session, fun context hcontext => htidy.held context ?_⟩
  rw [contexts, hresults] at hcontext
  exact List.mem_append_right _ hcontext

end Supervisor.Tidy

/-! ## Whole runs -/

namespace Recycling

variable (recycling : Recycling) {hooks : Hooks} {supervisor after : Supervisor}

theorem add_tidy (htidy : supervisor.Tidy hooks) (function : ScriptFunction) (retain : Bool) :
    (recycling.add supervisor function retain).2.Tidy hooks := by
  have hsupplied : Supervisor.Tidy hooks
      { supervisor with session := recycling.supply supervisor.session } :=
    ⟨htidy.session.supply recycling, htidy.held⟩
  exact hsupplied.add function retain

theorem spawn_tidy (htidy : supervisor.Tidy hooks) (functions : List ScriptFunction) :
    (recycling.spawn supervisor functions).Tidy hooks := by
  induction functions generalizing supervisor with
  | nil => exact htidy
  | cons function functions ih => exact ih (recycling.add_tidy htidy function false)

theorem perform_tidy (htidy : supervisor.Tidy hooks) (effects : Effects) :
    (recycling.perform supervisor effects).Tidy hooks :=
  (recycling.spawn_tidy (htidy.record effects) effects.spawned).foldl_deliver effects.signalled

theorem turn_tidy (htidy : supervisor.Tidy hooks) {task : Task}
    (htask : task.context.hooks = some hooks) (hturn : recycling.turn supervisor task = .ok after) :
    after.Tidy hooks := by
  refine (recycling.perform_tidy htidy.readClock _).settle ?_ hturn
  exact (Context.resume_hooks _ task.context).trans htask

theorem runQueue_tidy {ids : List ContextId} {more : Bool} (htidy : supervisor.Tidy hooks)
    (hrun : recycling.runQueue supervisor ids = .ok (more, after)) : after.Tidy hooks := by
  induction ids generalizing supervisor with
  | nil =>
      cases hrun
      exact htidy
  | cons id remaining ih =>
      rw [runQueue] at hrun
      cases hcontext : supervisor.context? id with
      | none =>
          rw [hcontext] at hrun
          exact ih htidy hrun
      | some context =>
          rw [hcontext] at hrun
          cases hturn : recycling.turn (supervisor.remove id) { id, context } with
          | error interruption => simp [hturn] at hrun
          | ok next =>
              have hnext : next.Tidy hooks :=
                recycling.turn_tidy (htidy.remove id) (htidy.context? hcontext) hturn
              simp only [hturn] at hrun
              split at hrun
              · cases hrun
                exact hnext.abortAll
              · exact ih hnext hrun

theorem pass_tidy {more : Bool} (htidy : supervisor.Tidy hooks)
    (hpass : recycling.pass supervisor = .ok (more, after)) : after.Tidy hooks := by
  unfold pass at hpass
  split at hpass
  · cases hpass
    exact htidy.abortAll
  · simp only at hpass
    split at hpass
    · have hafter := congrArg Prod.snd (Except.ok.inj hpass)
      change _ = after at hafter
      split at hafter
      · exact hafter ▸ htidy.refresh
      · exact hafter ▸ htidy.refresh.idle
    · exact recycling.runQueue_tidy htidy.refresh.takeReady hpass

theorem run_tidy {passes : Nat} (htidy : supervisor.Tidy hooks)
    (hrun : recycling.run passes supervisor = .ok after) : after.Tidy hooks := by
  induction passes generalizing supervisor with
  | zero => cases hrun
  | succ passes ih =>
      rw [run] at hrun
      split at hrun
      · cases hrun
      · rename_i next hpass
        exact ih (recycling.pass_tidy htidy hpass) hrun
      · rename_i hpass
        cases hrun
        exact recycling.pass_tidy htidy hpass

theorem close_tidy (htidy : supervisor.Tidy hooks) : (recycling.close supervisor).Tidy hooks :=
  htidy.session.foldl_release fun context hcontext =>
    htidy.held context ((recycling.order_perm supervisor).mem_iff.mp hcontext)

theorem supervise_tidy {runner next : Runner} {passes : Nat} {function : ScriptFunction}
    {exit : ExitRequest} {result : Except EngineError (Option ExecutionState × ExitRequest)}
    (htidy : runner.session.Tidy hooks)
    (hrun : recycling.supervise runner passes function exit = .ok (result, next)) :
    next.session.Tidy hooks := by
  have hadded := recycling.add_tidy
    (Supervisor.Tidy.create htidy runner.clock exit runner.idlePoll) function true
  unfold supervise at hrun
  simp only at hrun
  split at hrun
  · rename_i hadd
    rw [hadd] at hadded
    cases hrun
    exact recycling.close_tidy hadded
  · rename_i hadd
    rw [hadd] at hadded
    split at hrun
    · cases hrun
    · rename_i hlast
      cases hrun
      exact recycling.close_tidy (recycling.run_tidy hadded hlast)

end Recycling

end ScriptBundle
