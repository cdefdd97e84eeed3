import Mathlib.Logic.Basic
import ScriptBundle.Proofs.Outcomes
import ScriptBundle.Proofs.Schedule.Outline

/-!
# Supervisors that differ in line cues

Two supervisors are alike if they agree on everything but line cues, call stacks
and the numbering of contexts.  Each operation keeps them alike, so their runs end
together.  The journal of the first one may have had some lines before.
-/

namespace ScriptBundle

/-! ## Sessions -/

/-- The sessions agree up to line cues; the first journal begins with `earlier`. -/
structure Session.Alike (earlier : List String) (left right : Session) : Prop where
  program : left.engine.program.Alike right.engine.program
  globals : left.engine.globalsFailure = none ∧ right.engine.globalsFailure = none
  journal : left.engine.journal = earlier ++ right.engine.journal
  free : left.pool.free.map (·.outline) = right.pool.free.map (·.outline)

namespace Session

variable {earlier : List String} {left right : Session}

theorem acquire_alike (halike : Alike earlier left right) :
    left.acquire.1.outline = right.acquire.1.outline ∧
      Alike earlier left.acquire.2 right.acquire.2 := by
  obtain ⟨hprogram, hglobals, hjournal, hfree⟩ := halike
  unfold acquire ContextPool.acquire ContextPool.reuse? ContextPool.create
  cases hleft : left.pool.free with
  | nil =>
      have hright : right.pool.free = [] := by
        rw [hleft] at hfree
        exact List.map_eq_nil_iff.mp hfree.symm
      simp only [hright]
      exact ⟨rfl, hprogram, hglobals, hjournal, rfl⟩
  | cons context free =>
      rw [hleft] at hfree
      obtain ⟨context', free', hright, hcontext, hrest⟩ := List.map_eq_cons_iff.mp hfree.symm
      simp only [hright]
      exact ⟨hcontext.symm, hprogram, hglobals, hjournal, hrest.symm⟩

theorem release_alike (halike : Alike earlier left right) (context context' : Context) :
    Alike earlier (left.release context) (right.release context') := by
  obtain ⟨hprogram, hglobals, hjournal, hfree⟩ := halike
  refine ⟨hprogram, hglobals, hjournal, ?_⟩
  simp only [release, ContextPool.release, List.map_cons, hfree]
  rfl

theorem absorb_alike (halike : Alike earlier left right) {effects effects' : Effects}
    (heffects : effects.outline = effects'.outline) :
    Alike earlier (left.absorb effects) (right.absorb effects') := by
  obtain ⟨hprogram, hglobals, hjournal, hfree⟩ := halike
  refine ⟨hprogram, hglobals, ?_, hfree⟩
  have hadded : effects.journal = effects'.journal := congrArg EffectsOutline.journal heffects
  simp only [absorb, hjournal, hadded, List.append_assoc]

end Session

/-! ## Supervisors -/

def Task.outline (task : Task) : ContextId × Option Outline :=
  (task.id, task.context.outline)

def Result.outline (result : Result) : ContextId × ExecutionState × Option (Option Outline) :=
  (result.id, result.state, result.context.map (·.outline))

namespace Supervisor

/-- The supervisors agree up to line cues. -/
structure Alike (earlier : List String) (left right : Supervisor) : Prop where
  session : left.session.Alike earlier right.session
  clock : left.clock = right.clock
  exit : left.exit = right.exit
  active : left.active.map (·.outline) = right.active.map (·.outline)
  ready : left.ready = right.ready
  sleeping : left.sleeping = right.sleeping
  waiting : left.waiting = right.waiting
  latched : left.latched = right.latched
  retained : left.retained = right.retained
  results : left.results.map (·.outline) = right.results.map (·.outline)
  inbox : left.inbox = right.inbox
  senders : left.senders = right.senders
  nextId : left.nextId = right.nextId
  idlePoll : left.idlePoll = right.idlePoll

variable {earlier : List String} {left right : Supervisor}

theorem create_alike {session session' : Session} (halike : session.Alike earlier session')
    (clock : Clock) (exit : ExitRequest) (idlePoll : Nat) :
    Alike earlier (create session clock exit idlePoll) (create session' clock exit idlePoll) :=
  ⟨halike, rfl, rfl, rfl, rfl, rfl, rfl, rfl, rfl, rfl, rfl, rfl, rfl, rfl⟩

/-- The active tasks with a property of their ids. -/
theorem filter_outline {tasks tasks' : List Task} (keeps : ContextId → Bool)
    (houtline : tasks.map (·.outline) = tasks'.map (·.outline)) :
    (tasks.filter fun task => keeps task.id).map (·.outline) =
      (tasks'.filter fun task => keeps task.id).map (·.outline) := by
  have hfilter : ∀ tasks : List Task, (tasks.filter fun task => keeps task.id).map (·.outline) =
      (tasks.map (·.outline)).filter fun entry => keeps entry.1 := by
    intro tasks
    rw [List.filter_map]
    rfl
  rw [hfilter, hfilter, houtline]

theorem remove_alike (halike : Alike earlier left right) (id : ContextId) :
    Alike earlier (left.remove id) (right.remove id) :=
  { halike with active := filter_outline (fun other => other ≠ id) halike.active }

theorem keep_alike (halike : Alike earlier left right) {task task' : Task}
    (htask : task.outline = task'.outline) :
    Alike earlier (left.keep task) (right.keep task') := by
  have hid : task.id = task'.id := congrArg Prod.fst htask
  refine { halike with active := ?_ }
  have hremoved := (remove_alike halike task.id).active
  simp only [keep, List.map_append, List.map_cons, List.map_nil, htask, hremoved]
  rw [hid]

theorem context?_alike (halike : Alike earlier left right) (id : ContextId) :
    (left.context? id).map (·.outline) = (right.context? id).map (·.outline) := by
  have hfind : ∀ tasks : List Task,
      ((tasks.find? fun task => task.id = id).map (·.context)).map (·.outline) =
        ((tasks.map (·.outline)).find? fun entry => entry.1 = id).map (·.2) := by
    intro tasks
    rw [List.find?_map, Option.map_map, Option.map_map]
    rfl
  rw [context?, context?, hfind, hfind, halike.active]

theorem add_alike (halike : Alike earlier left right) {function function' : ScriptFunction}
    (hfunction : function.outline = function'.outline) (retain : Bool) :
    (left.add function retain).1.toOption = (right.add function' retain).1.toOption ∧
      Alike earlier (left.add function retain).2 (right.add function' retain).2 := by
  obtain ⟨hcontext, hsession⟩ := Session.acquire_alike halike.session
  have hprepared := Context.isPrepared_of_outline hcontext
  unfold add Context.prepare
  generalize left.session.acquire = acquired at *
  generalize right.session.acquire = acquired' at *
  obtain ⟨context, session⟩ := acquired
  obtain ⟨context', session'⟩ := acquired'
  simp only at hcontext hsession hprepared ⊢
  rw [hprepared]
  by_cases hbound : context'.isPrepared
  · rw [if_pos hbound, if_pos hbound]
    exact ⟨rfl, { halike with session := Session.release_alike hsession _ _ }⟩
  · rw [if_neg hbound, if_neg hbound]
    have htask : Task.outline ⟨left.nextId, { context with running := some (.start function) }⟩ =
        Task.outline ⟨right.nextId, { context' with running := some (.start function') }⟩ := by
      simp only [Task.outline, Context.outline, Option.map_some, halike.nextId]
      exact congrArg (fun outline => (right.nextId, some outline)) hfunction
    have hkept := (keep_alike halike htask).active
    refine ⟨congrArg some halike.nextId, ?_⟩
    exact
      { halike with
        session := hsession
        active := hkept
        ready := by simp only [halike.ready, halike.nextId]
        retained := by simp only [halike.retained, halike.nextId]
        nextId := by simp only [halike.nextId] }

theorem spawn_alike (halike : Alike earlier left right) {functions functions' : List ScriptFunction}
    (hfunctions : functions.map (·.outline) = functions'.map (·.outline)) :
    Alike earlier (left.spawn functions) (right.spawn functions') := by
  unfold spawn
  induction functions generalizing functions' left right with
  | nil =>
      rw [List.map_eq_nil_iff.mp hfunctions.symm]
      exact halike
  | cons function functions ih =>
      obtain ⟨function', functions'', rfl, hfunction, hrest⟩ :=
        List.map_eq_cons_iff.mp hfunctions.symm
      exact ih (add_alike halike hfunction.symm false).2 hrest.symm

theorem deliver_alike (halike : Alike earlier left right) (event : EventId) :
    Alike earlier (left.deliver event) (right.deliver event) := by
  unfold deliver
  rw [halike.waiting]
  split
  split
  · exact { halike with waiting := rfl, latched := by simp only [halike.latched] }
  · exact { halike with ready := by simp only [halike.ready], waiting := rfl }

theorem foldl_deliver_alike (halike : Alike earlier left right) (events : List EventId) :
    Alike earlier (events.foldl deliver left) (events.foldl deliver right) := by
  induction events generalizing left right with
  | nil => exact halike
  | cons event events ih => exact ih (deliver_alike halike event)

theorem readClock_alike (halike : Alike earlier left right) :
    left.readClock.1 = right.readClock.1 ∧ Alike earlier left.readClock.2 right.readClock.2 := by
  unfold readClock
  rw [halike.clock]
  exact ⟨rfl, { halike with clock := rfl }⟩

theorem wake_alike (halike : Alike earlier left right) (now : Instant) :
    Alike earlier (left.wake now) (right.wake now) :=
  { halike with
    ready := by simp only [wake, halike.ready, halike.sleeping]
    sleeping := by simp only [wake, halike.sleeping] }

theorem refresh_alike (halike : Alike earlier left right) :
    Alike earlier left.refresh right.refresh := by
  have hcollected : Alike earlier left.collect right.collect := by
    unfold collect
    rw [halike.inbox]
    refine foldl_deliver_alike ?_ _
    exact { halike with inbox := rfl }
  obtain ⟨hnow, hread⟩ := readClock_alike hcollected
  change Alike earlier (left.collect.readClock.2.wake left.collect.readClock.1)
    (right.collect.readClock.2.wake right.collect.readClock.1)
  rw [hnow]
  exact wake_alike hread _

theorem perform_alike (halike : Alike earlier left right) {effects effects' : Effects}
    (heffects : effects.outline = effects'.outline) :
    Alike earlier (left.perform effects) (right.perform effects') := by
  have hspawned := congrArg EffectsOutline.spawned heffects
  have hsignalled : effects.signalled = effects'.signalled :=
    congrArg EffectsOutline.signalled heffects
  have hexit : effects.exit = effects'.exit := congrArg EffectsOutline.exit heffects
  have hrecorded : Alike earlier (left.record effects) (right.record effects') := by
    refine { halike with session := Session.absorb_alike halike.session heffects, exit := ?_ }
    simp only [record, hexit, halike.exit]
  rw [perform, perform, hsignalled]
  exact foldl_deliver_alike (spawn_alike hrecorded hspawned) _

theorem conclude_alike (halike : Alike earlier left right) (id : ContextId)
    (state : ExecutionState) {context context' : Option Context}
    (hcontext : context.map (·.outline) = context'.map (·.outline)) :
    Alike earlier (left.conclude id state context) (right.conclude id state context') := by
  unfold conclude
  rw [halike.retained]
  split
  · refine { halike with retained := rfl, results := congrArg₂ List.cons ?_ halike.results }
    simp only [Result.outline, hcontext]
  · exact halike

theorem park_alike (halike : Alike earlier left right) (id : ContextId) (suspension : Suspension)
    (now : Instant) :
    Matches (Alike earlier) (left.park id suspension now) (right.park id suspension now) := by
  cases suspension with
  | yield => exact { halike with ready := by simp only [halike.ready] }
  | sleep duration =>
      simp only [park]
      split
      · exact { halike with sleeping := by simp only [halike.sleeping] }
      · rfl
  | wait event =>
      simp only [park]
      rw [halike.latched]
      split
      · exact { halike with latched := rfl, ready := by simp only [halike.ready] }
      · exact { halike with waiting := by simp only [halike.waiting], latched := rfl }

theorem settle_alike (halike : Alike earlier left right) {task task' : Task}
    (htask : task.outline = task'.outline) (state : ExecutionState) (now : Instant) :
    Matches (Alike earlier) (left.settle task state now) (right.settle task' state now) := by
  have hid : task.id = task'.id := congrArg Prod.fst htask
  have hcontext : task.context.outline = task'.context.outline := congrArg Prod.snd htask
  unfold settle
  rw [hid]
  split
  · exact park_alike (keep_alike halike htask) _ _ _
  · exact conclude_alike halike _ _ rfl
  · rw [halike.retained]
    split
    · exact conclude_alike halike _ _ (congrArg some hcontext)
    · exact
        { halike with
          session := Session.release_alike halike.session _ _
          retained := rfl }

theorem turn_alike (halike : Alike earlier left right) {task task' : Task}
    (htask : task.outline = task'.outline) :
    Matches (Alike earlier) (left.turn task) (right.turn task') := by
  have hid : task.id = task'.id := congrArg Prod.fst htask
  have hcontext : task.context.outline = task'.context.outline := congrArg Prod.snd htask
  obtain ⟨hnow, hread⟩ := readClock_alike halike
  obtain ⟨hafter, heffects, hstate⟩ :=
    Context.resume_alike hread.session.program hcontext
  have hperformed := perform_alike hread heffects
  change Matches (Alike earlier)
    ((left.readClock.2.perform
      (task.context.resume left.readClock.2.session.engine.program).2.1).settle
        { task with
          context := (task.context.resume left.readClock.2.session.engine.program).1 }
        (task.context.resume left.readClock.2.session.engine.program).2.2 left.readClock.1)
    ((right.readClock.2.perform
      (task'.context.resume right.readClock.2.session.engine.program).2.1).settle
        { task' with
          context := (task'.context.resume right.readClock.2.session.engine.program).1 }
        (task'.context.resume right.readClock.2.session.engine.program).2.2 right.readClock.1)
  rw [hstate, hnow]
  refine settle_alike hperformed ?_ _ _
  exact congrArg₂ Prod.mk hid hafter

/-! ## Passes -/

theorem abortAll_alike (halike : Alike earlier left right) :
    Alike earlier left.abortAll right.abortAll := by
  have hids : left.active.map (·.id) = right.active.map (·.id) := by
    have hmapped := congrArg (List.map Prod.fst) halike.active
    rw [List.map_map, List.map_map] at hmapped
    exact hmapped
  have hfold : ∀ (ids : List ContextId) (left right : Supervisor), Alike earlier left right →
      Alike earlier (ids.foldl (fun supervisor id => supervisor.conclude id .aborted none) left)
        (ids.foldl (fun supervisor id => supervisor.conclude id .aborted none) right) := by
    intro ids
    induction ids with
    | nil => exact fun _ _ halike => halike
    | cons id ids ih =>
        intro left right halike
        exact ih _ _ (conclude_alike halike id .aborted rfl)
  have hcleared : Alike earlier
      { left with active := [], ready := [], sleeping := [], waiting := [] }
      { right with active := [], ready := [], sleeping := [], waiting := [] } :=
    { halike with active := rfl, ready := rfl, sleeping := rfl, waiting := rfl }
  have hall := hfold (left.active.map (·.id)) _ _ hcleared
  conv at hall => rhs; rw [hids]
  rw [List.foldl_map, List.foldl_map] at hall
  exact hall

theorem runQueue_alike (halike : Alike earlier left right) (ids : List ContextId) :
    Matches (fun first second => first.1 = second.1 ∧ Alike earlier first.2 second.2)
      (left.runQueue ids) (right.runQueue ids) := by
  induction ids generalizing left right with
  | nil =>
      have hempty := congrArg List.isEmpty halike.active
      rw [List.isEmpty_map, List.isEmpty_map] at hempty
      exact ⟨congrArg not hempty, halike⟩
  | cons id remaining ih =>
      have hcontext := context?_alike halike id
      rw [runQueue, runQueue]
      cases hleft : left.context? id with
      | none =>
          rw [hleft] at hcontext
          rw [Option.map_eq_none_iff.mp hcontext.symm]
          exact ih halike
      | some context =>
          rw [hleft] at hcontext
          obtain ⟨context', hright, houtline⟩ := Option.map_eq_some_iff.mp hcontext.symm
          rw [hright]
          have htask : Task.outline ⟨id, context⟩ = Task.outline ⟨id, context'⟩ :=
            Prod.ext rfl houtline.symm
          rcases (turn_alike (remove_alike halike id) htask).cases with
            ⟨interruption, hfirst, hsecond⟩ | ⟨next, next', hfirst, hsecond, hnext⟩
          · simp only [hfirst, hsecond]
            rfl
          · simp only [hfirst, hsecond]
            rw [hnext.exit]
            split
            · exact ⟨rfl, abortAll_alike hnext⟩
            · exact ih hnext

theorem idle_alike (halike : Alike earlier left right) :
    left.idle.1 = right.idle.1 ∧ Alike earlier left.idle.2 right.idle.2 := by
  unfold idle
  rw [halike.sleeping]
  split
  · rw [halike.senders]
    split
    · exact ⟨rfl, halike⟩
    · exact ⟨rfl,
        { halike with
          clock := by simp only [halike.clock, halike.idlePoll]
          sleeping := rfl
          senders := rfl }⟩
  · obtain ⟨hnow, hread⟩ := readClock_alike halike
    exact ⟨rfl, { hread with clock := by simp only [hnow, hread.clock, hread.idlePoll] }⟩

theorem pass_alike (halike : Alike earlier left right) :
    Matches (fun first second => first.1 = second.1 ∧ Alike earlier first.2 second.2)
      left.pass right.pass := by
  have hrefreshed := refresh_alike halike
  unfold pass
  simp only
  rw [halike.exit]
  split
  · exact ⟨rfl, abortAll_alike halike⟩
  · generalize left.refresh = left at hrefreshed ⊢
    generalize right.refresh = right at hrefreshed ⊢
    have hempty := congrArg List.isEmpty hrefreshed.active
    rw [List.isEmpty_map, List.isEmpty_map] at hempty
    rw [hrefreshed.ready]
    split
    · rw [hempty]
      split
      · exact ⟨rfl, hrefreshed⟩
      · exact idle_alike hrefreshed
    · refine runQueue_alike ?_ _
      exact { hrefreshed with ready := rfl }

theorem run_alike (halike : Alike earlier left right) (passes : Nat) :
    Matches (Alike earlier) (run passes left) (run passes right) := by
  induction passes generalizing left right with
  | zero => rfl
  | succ passes ih =>
      rw [run, run]
      rcases (pass_alike halike).cases with
        ⟨interruption, hfirst, hsecond⟩ | ⟨⟨more, next⟩, ⟨more', next'⟩, hfirst, hsecond, hnext⟩
      · simp only [hfirst, hsecond]
        rfl
      · obtain ⟨hmore, hnext⟩ := hnext
        obtain rfl : more = more' := hmore
        simp only [hfirst, hsecond]
        cases more with
        | true => exact ih hnext
        | false => exact hnext

theorem state?_alike (halike : Alike earlier left right) (id : ContextId) :
    left.state? id = right.state? id := by
  have hfind : ∀ results : List Result,
      (results.find? fun result => result.id = id).map (·.state) =
        ((results.map (·.outline)).find? fun entry => entry.1 = id).map (·.2.1) := by
    intro results
    rw [List.find?_map, Option.map_map]
    rfl
  rw [state?, state?, result?, result?, hfind, hfind, halike.results]

theorem close_alike (halike : Alike earlier left right) :
    left.close.Alike earlier right.close := by
  have hfold : ∀ (contexts contexts' : List Context) (left right : Session),
      left.Alike earlier right → contexts.length = contexts'.length →
        Session.Alike earlier (contexts.foldl Session.release left)
          (contexts'.foldl Session.release right) := by
    intro contexts
    induction contexts with
    | nil =>
        intro contexts' left right halike hlength
        rw [List.eq_nil_of_length_eq_zero hlength.symm]
        exact halike
    | cons context contexts ih =>
        intro contexts' left right halike hlength
        cases contexts' with
        | nil => cases hlength
        | cons context' contexts' =>
            exact ih contexts' _ _ (Session.release_alike halike context context')
              (Nat.succ.inj hlength)
  have hcontexts : ∀ results : List Result, (results.filterMap (·.context)).length =
      ((results.map (·.outline)).filterMap (·.2.2)).length := by
    intro results
    rw [List.filterMap_map]
    induction results with
    | nil => rfl
    | cons result results ih =>
        cases hcontext : result.context with
        | none => simpa [hcontext, Result.outline] using ih
        | some context => simpa [hcontext, Result.outline] using ih
  have hactive := congrArg List.length halike.active
  rw [List.length_map, List.length_map] at hactive
  apply hfold _ _ _ _ halike.session
  rw [List.length_append, List.length_append, List.length_map, List.length_map, hcontexts,
    hcontexts, halike.results, hactive]

end Supervisor

end ScriptBundle
