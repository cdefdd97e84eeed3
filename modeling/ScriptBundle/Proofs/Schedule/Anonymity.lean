import ScriptBundle.Proofs.Schedule.Tidiness

/-!
# Anonymous contexts

A context is anonymous without the number that its engine gave to it, and so is a supervisor
without the numbers of its contexts and without its pool.  No operation looks at these
numbers, and a context that comes from a tidy pool is as good as a new one.  So two
supervisors that are the same but for them stay so, in whichever ways they recycle contexts.
-/

namespace ScriptBundle

def Context.anonymous (context : Context) : Context :=
  { context with id := 0 }

def Task.anonymous (task : Task) : Task :=
  { task with context := task.context.anonymous }

def Result.anonymous (result : Result) : Result :=
  { result with context := result.context.map Context.anonymous }

/-- A session without the idle contexts and without the counts of contexts made. -/
def Session.withoutPool (session : Session) : Session :=
  { session with
    pool := { session.pool with free := [], created := 0 }
    engine := { session.engine with contextsCreated := 0 } }

theorem Session.acquire_withoutPool (session : Session) :
    session.acquire.2.withoutPool = session.withoutPool := by
  unfold acquire ContextPool.acquire ContextPool.reuse?
  cases session.pool.free <;> rfl

/-- A turn does not depend on the number of its context. -/
theorem Context.resume_anonymous (program : Program) (context : Context) :
    context.anonymous.resume program =
      ((context.resume program).1.anonymous, (context.resume program).2) := by
  obtain ⟨id, hooks, running⟩ := context
  cases running <;> rfl

namespace Supervisor

def anonymous (supervisor : Supervisor) : Supervisor :=
  { supervisor with
    session := supervisor.session.withoutPool
    active := supervisor.active.map Task.anonymous
    results := supervisor.results.map Result.anonymous }

/-! ## Operations that look at no number -/

theorem remove_anonymous (supervisor : Supervisor) (id : ContextId) :
    (supervisor.remove id).anonymous = supervisor.anonymous.remove id := by
  unfold anonymous remove
  rw [List.filter_map]
  rfl

theorem keep_anonymous (supervisor : Supervisor) (task : Task) :
    (supervisor.keep task).anonymous = supervisor.anonymous.keep task.anonymous := by
  have hremoved := congrArg Supervisor.active (supervisor.remove_anonymous task.id)
  unfold keep
  rw [← show (supervisor.remove task.id).active.map Task.anonymous =
    (supervisor.anonymous.remove task.anonymous.id).active from hremoved]
  simp only [anonymous, List.map_append, List.map_cons, List.map_nil]

theorem context?_anonymous (supervisor : Supervisor) (id : ContextId) :
    supervisor.anonymous.context? id = (supervisor.context? id).map Context.anonymous := by
  unfold context? anonymous
  rw [List.find?_map, Option.map_map, Option.map_map]
  rfl

theorem state?_anonymous (supervisor : Supervisor) (id : ContextId) :
    supervisor.anonymous.state? id = supervisor.state? id := by
  unfold state? result? anonymous
  rw [List.find?_map, Option.map_map]
  rfl

theorem deliver_anonymous (supervisor : Supervisor) (event : EventId) :
    (supervisor.deliver event).anonymous = supervisor.anonymous.deliver event := by
  unfold deliver
  rw [show supervisor.anonymous.waiting = supervisor.waiting from rfl]
  split
  split <;> rfl

theorem foldl_deliver_anonymous (events : List EventId) (supervisor : Supervisor) :
    (events.foldl deliver supervisor).anonymous = events.foldl deliver supervisor.anonymous := by
  induction events generalizing supervisor with
  | nil => rfl
  | cons event events ih => rw [List.foldl_cons, List.foldl_cons, ih, deliver_anonymous]

theorem refresh_anonymous (supervisor : Supervisor) :
    supervisor.refresh.anonymous = supervisor.anonymous.refresh := by
  have hcollected : supervisor.collect.anonymous = supervisor.anonymous.collect :=
    foldl_deliver_anonymous supervisor.inbox { supervisor with inbox := [] }
  change (supervisor.collect.readClock.2.wake supervisor.collect.readClock.1).anonymous =
    supervisor.anonymous.collect.readClock.2.wake supervisor.anonymous.collect.readClock.1
  rw [← hcollected]
  rfl

theorem idle_anonymous (supervisor : Supervisor) :
    supervisor.anonymous.idle = (supervisor.idle.1, supervisor.idle.2.anonymous) := by
  unfold idle
  rw [show supervisor.anonymous.sleeping = supervisor.sleeping from rfl,
    show supervisor.anonymous.senders = supervisor.senders from rfl]
  split
  · split <;> rfl
  · rfl

theorem conclude_anonymous (supervisor : Supervisor) (id : ContextId) (state : ExecutionState)
    (context : Option Context) :
    (supervisor.conclude id state context).anonymous =
      supervisor.anonymous.conclude id state (context.map Context.anonymous) := by
  unfold conclude
  rw [show supervisor.anonymous.retained = supervisor.retained from rfl]
  split <;> rfl

theorem park_anonymous (supervisor : Supervisor) (id : ContextId) (suspension : Suspension)
    (now : Instant) :
    (supervisor.park id suspension now).map anonymous =
      supervisor.anonymous.park id suspension now := by
  cases suspension with
  | yield => rfl
  | sleep duration =>
      simp only [park]
      split <;> rfl
  | wait event =>
      simp only [park]
      change _ = if event ∈ supervisor.latched then _ else _
      split <;> rfl

theorem abortAll_anonymous (supervisor : Supervisor) :
    supervisor.abortAll.anonymous = supervisor.anonymous.abortAll := by
  have hfold : ∀ (tasks : List Task) (supervisor : Supervisor),
      (tasks.foldl (fun supervisor task => supervisor.conclude task.id .aborted none)
          supervisor).anonymous =
        (tasks.map Task.anonymous).foldl
          (fun supervisor task => supervisor.conclude task.id .aborted none)
          supervisor.anonymous := by
    intro tasks
    induction tasks with
    | nil => exact fun _ => rfl
    | cons task tasks ih =>
        intro supervisor
        rw [List.foldl_cons, ih, conclude_anonymous]
        rfl
  exact hfold supervisor.active _

/-- The supervisors are the same but for the numbers of their contexts, and their pools are
tidy. -/
structure Interchangeable (hooks : Hooks) (left right : Supervisor) : Prop where
  tidyLeft : left.Tidy hooks
  tidyRight : right.Tidy hooks
  same : left.anonymous = right.anonymous

namespace Interchangeable

variable {hooks : Hooks} {left right : Supervisor}

theorem remove (hsame : Interchangeable hooks left right) (id : ContextId) :
    Interchangeable hooks (left.remove id) (right.remove id) where
  tidyLeft := hsame.tidyLeft.remove id
  tidyRight := hsame.tidyRight.remove id
  same := by rw [remove_anonymous, remove_anonymous, hsame.same]

theorem abortAll (hsame : Interchangeable hooks left right) :
    Interchangeable hooks left.abortAll right.abortAll where
  tidyLeft := hsame.tidyLeft.abortAll
  tidyRight := hsame.tidyRight.abortAll
  same := by rw [abortAll_anonymous, abortAll_anonymous, hsame.same]

theorem refresh (hsame : Interchangeable hooks left right) :
    Interchangeable hooks left.refresh right.refresh where
  tidyLeft := hsame.tidyLeft.refresh
  tidyRight := hsame.tidyRight.refresh
  same := by rw [refresh_anonymous, refresh_anonymous, hsame.same]

theorem foldl_deliver (hsame : Interchangeable hooks left right) (events : List EventId) :
    Interchangeable hooks (events.foldl deliver left) (events.foldl deliver right) where
  tidyLeft := hsame.tidyLeft.foldl_deliver events
  tidyRight := hsame.tidyRight.foldl_deliver events
  same := by rw [foldl_deliver_anonymous, foldl_deliver_anonymous, hsame.same]

theorem idle (hsame : Interchangeable hooks left right) :
    left.idle.1 = right.idle.1 ∧ Interchangeable hooks left.idle.2 right.idle.2 := by
  have hidle := left.idle_anonymous
  rw [hsame.same, idle_anonymous, Prod.mk.injEq] at hidle
  exact ⟨hidle.1.symm, hsame.tidyLeft.idle, hsame.tidyRight.idle, hidle.2.symm⟩

theorem record (hsame : Interchangeable hooks left right) (effects : Effects) :
    Interchangeable hooks (left.record effects) (right.record effects) where
  tidyLeft := hsame.tidyLeft.record effects
  tidyRight := hsame.tidyRight.record effects
  same := (congrArg (Supervisor.record · effects) hsame.same :)

theorem readClock (hsame : Interchangeable hooks left right) :
    left.readClock.1 = right.readClock.1 ∧
      Interchangeable hooks left.readClock.2 right.readClock.2 :=
  ⟨(congrArg (·.clock.read.1) hsame.same :), hsame.tidyLeft.readClock, hsame.tidyRight.readClock,
    (congrArg (·.readClock.2) hsame.same :)⟩

theorem takeReady (hsame : Interchangeable hooks left right) :
    Interchangeable hooks { left with ready := [] } { right with ready := [] } where
  tidyLeft := hsame.tidyLeft.takeReady
  tidyRight := hsame.tidyRight.takeReady
  same := (congrArg (fun supervisor => { supervisor with ready := [] }) hsame.same :)

theorem exit (hsame : Interchangeable hooks left right) : left.exit = right.exit :=
  (congrArg Supervisor.exit hsame.same :)

theorem ready (hsame : Interchangeable hooks left right) : left.ready = right.ready :=
  (congrArg Supervisor.ready hsame.same :)

theorem isEmpty_active (hsame : Interchangeable hooks left right) :
    left.active.isEmpty = right.active.isEmpty := by
  have hactive := congrArg (fun supervisor => supervisor.active.isEmpty) hsame.same
  simp only [anonymous, List.isEmpty_map] at hactive
  exact hactive

theorem context? (hsame : Interchangeable hooks left right) (id : ContextId) :
    (left.context? id).map Context.anonymous = (right.context? id).map Context.anonymous := by
  rw [← context?_anonymous, ← context?_anonymous, hsame.same]

theorem state? (hsame : Interchangeable hooks left right) (id : ContextId) :
    left.state? id = right.state? id := by
  rw [← left.state?_anonymous, ← right.state?_anonymous, hsame.same]

end Interchangeable

theorem settle_anonymous {left right : Supervisor} (hsame : left.anonymous = right.anonymous)
    {task task' : Task} (htask : task.anonymous = task'.anonymous) (state : ExecutionState)
    (now : Instant) :
    (left.settle task state now).map anonymous = (right.settle task' state now).map anonymous := by
  have hid : task.id = task'.id := (congrArg Task.id htask :)
  have hcontext : task.context.anonymous = task'.context.anonymous :=
    (congrArg Task.context htask :)
  have hretained : left.retained = right.retained := (congrArg Supervisor.retained hsame :)
  unfold settle
  rw [hid]
  split
  · rw [park_anonymous, park_anonymous, keep_anonymous, keep_anonymous, hsame, htask]
  · exact congrArg Except.ok (by rw [conclude_anonymous, conclude_anonymous, hsame])
  · by_cases hkept : task'.id ∈ right.retained
    · rw [if_pos hkept, if_pos (hretained ▸ hkept)]
      refine congrArg Except.ok ?_
      rw [conclude_anonymous, conclude_anonymous, hsame, Option.map_some, Option.map_some,
        hcontext]
    · rw [if_neg hkept, if_neg (hretained ▸ hkept)]
      exact congrArg Except.ok hsame

end Supervisor

namespace Recycling

open Supervisor

variable (first second : Recycling) {hooks : Hooks} {left right : Supervisor}

/-- A function that is started gets a context with the hooks, wherever it comes from. -/
theorem add_anonymous (recycling : Recycling) {supervisor : Supervisor}
    (htidy : supervisor.Tidy hooks) (function : ScriptFunction) (retain : Bool) :
    (recycling.add supervisor function retain).1 = .ok supervisor.nextId ∧
      (recycling.add supervisor function retain).2.anonymous =
        { supervisor.anonymous.keep
            ⟨supervisor.nextId, ⟨0, some hooks, some (.start function)⟩⟩ with
          nextId := supervisor.nextId + 1
          retained :=
            if retain then supervisor.nextId :: supervisor.retained else supervisor.retained
          ready := supervisor.ready ++ [supervisor.nextId] } := by
  let supplied : Supervisor :=
    { supervisor with session := recycling.supply supervisor.session }
  obtain ⟨context, session, hacquire, hhooks, -, hadd⟩ :
      ∃ context session, supplied.session.acquire = (context, session) ∧ _ :=
    Supervisor.Tidy.add_eq (htidy.session.supply recycling) function retain
  have hsession : session.withoutPool = supervisor.session.withoutPool := by
    have hacquired := supplied.session.acquire_withoutPool
    rw [hacquire] at hacquired
    exact hacquired
  let task : Task := ⟨supervisor.nextId, { context with running := some (.start function) }⟩
  have hactive : (supervisor.keep task).active.map Task.anonymous =
      (supervisor.anonymous.keep
        ⟨supervisor.nextId, ⟨0, some hooks, some (.start function)⟩⟩).active := by
    have hkept := congrArg Supervisor.active (supervisor.keep_anonymous task)
    rw [show task.anonymous = ⟨supervisor.nextId, ⟨0, context.hooks, some (.start function)⟩⟩ from
      rfl, hhooks] at hkept
    exact hkept
  rw [show recycling.add supervisor function retain = _ from hadd]
  refine ⟨rfl, ?_⟩
  change ({ supervisor.anonymous with
    session := session.withoutPool
    active := (supervisor.keep task).active.map Task.anonymous
    nextId := supervisor.nextId + 1
    retained := if retain then supervisor.nextId :: supervisor.retained else supervisor.retained
    ready := supervisor.ready ++ [supervisor.nextId] } : Supervisor) = _
  rw [hsession, hactive]
  rfl

theorem add_interchangeable (hsame : Interchangeable hooks left right)
    (function : ScriptFunction) (retain : Bool) :
    (first.add left function retain).1 = (second.add right function retain).1 ∧
      Interchangeable hooks (first.add left function retain).2
        (second.add right function retain).2 := by
  obtain ⟨hid, hadded⟩ := first.add_anonymous hsame.tidyLeft function retain
  obtain ⟨hid', hadded'⟩ := second.add_anonymous hsame.tidyRight function retain
  have hnextId : left.nextId = right.nextId := (congrArg Supervisor.nextId hsame.same :)
  have hretained : left.retained = right.retained := (congrArg Supervisor.retained hsame.same :)
  refine ⟨by rw [hid, hid', hnextId],
    first.add_tidy hsame.tidyLeft function retain,
    second.add_tidy hsame.tidyRight function retain, ?_⟩
  rw [hadded, hadded', hsame.same, hnextId, hretained, hsame.ready]

theorem spawn_interchangeable (hsame : Interchangeable hooks left right)
    (functions : List ScriptFunction) :
    Interchangeable hooks (first.spawn left functions) (second.spawn right functions) := by
  induction functions generalizing left right with
  | nil => exact hsame
  | cons function functions ih => exact ih (add_interchangeable first second hsame function false).2

theorem perform_interchangeable (hsame : Interchangeable hooks left right) (effects : Effects) :
    Interchangeable hooks (first.perform left effects) (second.perform right effects) :=
  (spawn_interchangeable first second (hsame.record effects) effects.spawned).foldl_deliver
    effects.signalled

/-- The outcomes are the same if they are so but for the numbers of contexts. -/
theorem matches_of_map {left right : Except Interruption Supervisor}
    (hmap : left.map anonymous = right.map anonymous)
    (hleft : ∀ next, left = .ok next → next.Tidy hooks)
    (hright : ∀ next, right = .ok next → next.Tidy hooks) :
    Matches (Interchangeable hooks) left right := by
  cases left with
  | error interruption =>
      cases right with
      | error interruption' => exact Except.error.inj hmap
      | ok next' => cases hmap
  | ok next =>
      cases right with
      | error interruption' => cases hmap
      | ok next' => exact ⟨hleft next rfl, hright next' rfl, Except.ok.inj hmap⟩

theorem turn_interchangeable (hsame : Interchangeable hooks left right) {task task' : Task}
    (htask : task.anonymous = task'.anonymous) (hhooks : task.context.hooks = some hooks) :
    Matches (Interchangeable hooks) (first.turn left task) (second.turn right task') := by
  have hid : task.id = task'.id := (congrArg Task.id htask :)
  have hcontext : task.context.anonymous = task'.context.anonymous :=
    (congrArg Task.context htask :)
  have hhooks' : task'.context.hooks = some hooks :=
    (congrArg Context.hooks hcontext.symm :).trans hhooks
  have hprogram : left.session.engine.program = right.session.engine.program :=
    (congrArg (·.session.engine.program) hsame.same :)
  have hresumed := congrArg (Context.resume right.session.engine.program) hcontext
  rw [Context.resume_anonymous, Context.resume_anonymous, Prod.mk.injEq] at hresumed
  obtain ⟨hran, hoffers⟩ := hresumed
  obtain ⟨hnow, hread⟩ := hsame.readClock
  have hperformed := perform_interchangeable first second hread
    (task'.context.resume right.session.engine.program).2.1
  refine matches_of_map ?_ (fun _ hnext => first.turn_tidy hsame.tidyLeft hhooks hnext)
    (fun _ hnext => second.turn_tidy hsame.tidyRight hhooks' hnext)
  change Except.map _ ((first.perform left.readClock.2
      (task.context.resume left.session.engine.program).2.1).settle
        { task with context := (task.context.resume left.session.engine.program).1 }
        (task.context.resume left.session.engine.program).2.2 left.readClock.1) =
    Except.map _ ((second.perform right.readClock.2
      (task'.context.resume right.session.engine.program).2.1).settle
        { task' with context := (task'.context.resume right.session.engine.program).1 }
        (task'.context.resume right.session.engine.program).2.2 right.readClock.1)
  rw [hprogram, hoffers, hnow]
  refine settle_anonymous hperformed.same ?_ _ _
  exact (congrArg₂ Task.mk hid hran :)

theorem runQueue_interchangeable (hsame : Interchangeable hooks left right)
    (ids : List ContextId) :
    Matches (fun before after => before.1 = after.1 ∧ Interchangeable hooks before.2 after.2)
      (first.runQueue left ids) (second.runQueue right ids) := by
  induction ids generalizing left right with
  | nil => exact ⟨congrArg not hsame.isEmpty_active, hsame⟩
  | cons id remaining ih =>
      have hcontext := hsame.context? id
      rw [runQueue, runQueue]
      cases hleft : left.context? id with
      | none =>
          rw [hleft] at hcontext
          rw [Option.map_eq_none_iff.mp hcontext.symm]
          exact ih hsame
      | some context =>
          rw [hleft] at hcontext
          obtain ⟨context', hright, hanonymous⟩ := Option.map_eq_some_iff.mp hcontext.symm
          rw [hright]
          have htask : Task.anonymous ⟨id, context⟩ = Task.anonymous ⟨id, context'⟩ :=
            congrArg (Task.mk id) hanonymous.symm
          rcases (turn_interchangeable first second (hsame.remove id) htask
              (hsame.tidyLeft.context? hleft)).cases with
            ⟨interruption, hturn, hturn'⟩ | ⟨next, next', hturn, hturn', hnext⟩
          · simp only [hturn, hturn']
            rfl
          · simp only [hturn, hturn']
            rw [hnext.exit]
            split
            · exact ⟨rfl, hnext.abortAll⟩
            · exact ih hnext

theorem pass_interchangeable (hsame : Interchangeable hooks left right) :
    Matches (fun before after => before.1 = after.1 ∧ Interchangeable hooks before.2 after.2)
      (first.pass left) (second.pass right) := by
  have hrefreshed := hsame.refresh
  unfold pass
  rw [hsame.exit]
  split
  · exact ⟨rfl, hsame.abortAll⟩
  · simp only
    rw [hrefreshed.ready]
    split
    · rw [hrefreshed.isEmpty_active]
      split
      · exact ⟨rfl, hrefreshed⟩
      · exact hrefreshed.idle
    · exact runQueue_interchangeable first second hrefreshed.takeReady _

theorem run_interchangeable (hsame : Interchangeable hooks left right) (passes : Nat) :
    Matches (Interchangeable hooks) (first.run passes left) (second.run passes right) := by
  induction passes generalizing left right with
  | zero => rfl
  | succ passes ih =>
      rw [run, run]
      rcases (pass_interchangeable first second hsame).cases with
        ⟨interruption, hpass, hpass'⟩ | ⟨⟨more, next⟩, ⟨more', next'⟩, hpass, hpass', hnext⟩
      · simp only [hpass, hpass']
        rfl
      · obtain ⟨hmore, hnext⟩ := hnext
        obtain rfl : more = more' := hmore
        simp only [hpass, hpass']
        cases more with
        | true => exact ih hnext
        | false => exact hnext

theorem close_withoutPool (recycling : Recycling) (supervisor : Supervisor) :
    (recycling.close supervisor).withoutPool = supervisor.session.withoutPool := by
  have hreleased : ∀ (contexts : List Context) (session : Session),
      (contexts.foldl Session.release session).withoutPool = session.withoutPool := by
    intro contexts
    induction contexts with
    | nil => exact fun _ => rfl
    | cons context contexts ih => exact fun session => ih (session.release context)
  exact hreleased _ _

end Recycling

end ScriptBundle
