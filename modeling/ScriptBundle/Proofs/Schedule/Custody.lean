import Mathlib.Data.List.Nodup
import ScriptBundle.Proofs.Schedule.Accounting
import ScriptBundle.Proofs.Schedule.Frames

/-!
# Custody

Every context that an engine made is in one place: in the pool, with a supervisor, or in
other hands.  Operations move contexts about, make new ones and let go of others.  The
numbers that engines give to their contexts are counted over all places; no operation
makes a number appear a second time, and a number that is gone does not come back.
-/

namespace ScriptBundle

/-- The numbers of some contexts. -/
def numbers (contexts : List Context) : List Nat :=
  contexts.map (·.id)

/-- The numbers of all contexts that are somewhere, and the number of contexts made. -/
structure Custody where
  created : Nat
  numbers : List Nat

namespace Custody

/-- The contexts in the pool of a session and in other places. -/
def of (session : Session) (contexts : List Context) : Custody where
  created := session.engine.contextsCreated
  numbers := ScriptBundle.numbers (session.pool.free ++ contexts)

/-- Every context is in one place, and was made. -/
structure Sound (custody : Custody) : Prop where
  nodup : custody.numbers.Nodup
  bounded : ∀ number ∈ custody.numbers, number < custody.created

/-- No number appears but for those of new contexts. -/
structure Keeps (before after : Custody) : Prop where
  created : before.created ≤ after.created
  count : ∀ number, after.numbers.count number ≤ before.numbers.count number +
    if before.created ≤ number ∧ number < after.created then 1 else 0

namespace Keeps

variable {first second third : Custody}

theorem refl (custody : Custody) : Keeps custody custody :=
  ⟨Nat.le_refl _, fun _ => Nat.le_add_right _ _⟩

theorem trans (hleft : Keeps first second) (hright : Keeps second third) : Keeps first third where
  created := Nat.le_trans hleft.created hright.created
  count number := by
    have hfirst := hleft.count number
    have hsecond := hright.count number
    have hcreated := hleft.created
    have hcreated' := hright.created
    split at hfirst <;> split at hsecond <;> split <;> omega

theorem sound (hkeeps : Keeps first second) (hsound : first.Sound) : second.Sound := by
  -- An old number was in one place at most, and a new one appears once at most.
  have hcount : ∀ number, second.numbers.count number ≤ if number < second.created then 1 else 0 := by
    intro number
    have hkept := hkeeps.count number
    have hcreated := hkeeps.created
    by_cases hold : number < first.created
    · have hone := List.nodup_iff_count_le_one.mp hsound.nodup number
      rw [if_neg (fun hnew => Nat.not_lt.mpr hnew.1 hold)] at hkept
      rw [if_pos (Nat.lt_of_lt_of_le hold hcreated)]
      exact Nat.le_trans hkept hone
    · have hnone : first.numbers.count number = 0 :=
        List.count_eq_zero.mpr fun hmem => hold (hsound.bounded number hmem)
      rw [hnone, Nat.zero_add] at hkept
      split at hkept <;> split <;> omega
  constructor
  · rw [List.nodup_iff_count_le_one]
    intro number
    refine Nat.le_trans (hcount number) ?_
    split
    · exact Nat.le_refl 1
    · exact Nat.zero_le 1
  · intro number hmem
    by_contra hlarge
    have hnone := hcount number
    rw [if_neg hlarge, Nat.le_zero, List.count_eq_zero] at hnone
    exact hnone hmem

end Keeps

/-- Contexts that are put elsewhere or let go. -/
theorem keeps_of_count {session : Session} {before after : List Context}
    (hcount : ∀ number, (ScriptBundle.numbers after).count number ≤
      (ScriptBundle.numbers before).count number) :
    Keeps (.of session before) (.of session after) := by
  refine ⟨Nat.le_refl _, fun number => ?_⟩
  have hkept := hcount number
  simp only [of, ScriptBundle.numbers, List.map_append, List.count_append] at hkept ⊢
  omega

/-- A context may have run on in the meantime. -/
theorem replace_keeps (session : Session) {context changed : Context}
    (hsame : changed.id = context.id) (contexts : List Context) :
    Keeps (.of session (context :: contexts)) (.of session (changed :: contexts)) :=
  keeps_of_count fun number => by
    simp only [ScriptBundle.numbers, List.map_cons, hsame]
    exact Nat.le_refl _

theorem drop_keeps (session : Session) (context : Context) (contexts : List Context) :
    Keeps (.of session (context :: contexts)) (.of session contexts) :=
  keeps_of_count fun _ => List.count_le_count_cons

/-- Idle contexts may be dropped, and others be made that come to no place here. -/
theorem share_keeps {session after : Session}
    (hfree : after.pool.free.Sublist session.pool.free)
    (hcreated : session.engine.contextsCreated ≤ after.engine.contextsCreated)
    (contexts : List Context) : Keeps (.of session contexts) (.of after contexts) := by
  refine ⟨hcreated, fun number => ?_⟩
  have hnumber := (hfree.map (·.id)).count_le number
  simp only [of, ScriptBundle.numbers, List.map_append, List.count_append] at hnumber ⊢
  omega

/-- A new context gets a number that no context had before. -/
theorem make_keeps {session after : Session} {context : Context}
    (hid : context.id = session.engine.contextsCreated)
    (hfree : after.pool.free = session.pool.free)
    (hcreated : after.engine.contextsCreated = session.engine.contextsCreated + 1)
    (contexts : List Context) :
    Keeps (.of session contexts) (.of after (context :: contexts)) := by
  refine ⟨Nat.le_of_lt (Nat.lt_of_lt_of_eq (Nat.lt_succ_self _) hcreated.symm), fun number => ?_⟩
  simp only [of, ScriptBundle.numbers, List.map_append, List.map_cons, List.count_append,
    List.count_cons, hid, hfree, hcreated]
  by_cases hnew : session.engine.contextsCreated = number
  · rw [if_pos (beq_iff_eq.mpr hnew), if_pos (by omega)]
    omega
  · rw [if_neg (fun heq => hnew (beq_iff_eq.mp heq))]
    omega

theorem acquire_keeps (session : Session) (contexts : List Context) :
    Keeps (.of session contexts) (.of session.acquire.2 (session.acquire.1 :: contexts)) := by
  obtain ⟨engine, ⟨free, hooks, created⟩, slot, lines⟩ := session
  cases free with
  | nil => apply make_keeps <;> rfl
  | cons context free =>
      refine ⟨Nat.le_refl _, fun number => ?_⟩
      change ((ScriptBundle.numbers (free ++ context :: contexts)).count number) ≤
        (ScriptBundle.numbers (context :: free ++ contexts)).count number + _
      simp only [ScriptBundle.numbers, List.map_append, List.map_cons, List.count_append,
        List.count_cons]
      omega

theorem release_keeps (session : Session) {context changed : Context}
    (hsame : changed.id = context.id) (contexts : List Context) :
    Keeps (.of session (context :: contexts)) (.of (session.release changed) contexts) := by
  refine ⟨Nat.le_refl _, fun number => ?_⟩
  change (changed.id :: ScriptBundle.numbers (session.pool.free ++ contexts)).count number ≤
    (ScriptBundle.numbers (session.pool.free ++ context :: contexts)).count number + _
  simp only [ScriptBundle.numbers, List.map_append, List.map_cons, List.count_append,
    List.count_cons, hsame]
  omega

end Custody

/-! ## Contexts keep their numbers -/

theorem Context.prepare_id {context prepared : Context} {function : ScriptFunction}
    (hprepare : context.prepare function = .ok prepared) : prepared.id = context.id := by
  unfold prepare at hprepare
  split at hprepare
  · cases hprepare
  · cases hprepare
    rfl

theorem Context.resume_id (program : Program) (context : Context) :
    (context.resume program).1.id = context.id := by
  unfold resume
  split <;> rfl

namespace Supervisor

open Custody

/-- The contexts that a supervisor holds. -/
def contexts (supervisor : Supervisor) : List Context :=
  supervisor.active.map (·.context) ++ supervisor.results.filterMap (·.context)

/-- The custody of a supervisor, its pool and those who hold the other contexts. -/
def custody (supervisor : Supervisor) (elsewhere : List Context) : Custody :=
  .of supervisor.session (elsewhere ++ supervisor.contexts)

variable {elsewhere : List Context}

/-! ## Operations -/

theorem keep_keeps (supervisor : Supervisor) (task : Task) (session : Session) :
    Keeps (.of session (task.context :: (elsewhere ++ supervisor.contexts)))
      (.of session (elsewhere ++ (supervisor.keep task).contexts)) := by
  apply keeps_of_count
  intro number
  have hothers := ((List.filter_sublist (p := fun other : Task => other.id ≠ task.id)
    (l := supervisor.active)).map fun other => other.context.id).count_le number
  simp only [numbers, contexts, keep, remove, List.map_append, List.map_map, List.map_cons,
    List.map_nil, List.count_append, List.count_cons, List.count_nil] at hothers ⊢
  simp only [Function.comp_def]
  omega

theorem add_keeps (supervisor : Supervisor) (function : ScriptFunction) (retain : Bool) :
    Keeps (supervisor.custody elsewhere)
      ((supervisor.add function retain).2.custody elsewhere) := by
  have hacquired := acquire_keeps supervisor.session (elsewhere ++ supervisor.contexts)
  unfold add
  split
  rename_i context session hacquire
  rw [show supervisor.session.acquire = (context, session) from hacquire] at hacquired
  refine hacquired.trans ?_
  split
  · exact release_keeps session rfl _
  · rename_i prepared hprepare
    exact (replace_keeps session (Context.prepare_id hprepare) _).trans
      (supervisor.keep_keeps ⟨supervisor.nextId, prepared⟩ session)

theorem spawn_keeps (supervisor : Supervisor) (functions : List ScriptFunction) :
    Keeps (supervisor.custody elsewhere) ((supervisor.spawn functions).custody elsewhere) := by
  induction functions generalizing supervisor with
  | nil => exact .refl _
  | cons function functions ih =>
      exact (supervisor.add_keeps function false).trans (ih (supervisor.add function false).2)

theorem perform_keeps (supervisor : Supervisor) (effects : Effects) :
    Keeps (supervisor.custody elsewhere) ((supervisor.perform effects).custody elsewhere) := by
  obtain ⟨_, _, _, hdelivered⟩ :=
    foldl_deliver_eq effects.signalled ((supervisor.record effects).spawn effects.spawned)
  have hspawned : Keeps (supervisor.custody elsewhere) _ :=
    (supervisor.record effects).spawn_keeps effects.spawned
  rw [perform, hdelivered]
  exact hspawned

/-- A conclusion puts a context that is to be kept with the results. -/
theorem conclude_keeps (supervisor : Supervisor) (id : ContextId) (state : ExecutionState)
    (context : Option Context) :
    Keeps (.of supervisor.session (context.toList ++ (elsewhere ++ supervisor.contexts)))
      ((supervisor.conclude id state context).custody elsewhere) := by
  unfold conclude
  split
  · apply keeps_of_count
    intro number
    cases context with
    | none => exact Nat.le_refl _
    | some context =>
        simp only [numbers, contexts, Option.toList, List.filterMap_cons, List.map_append,
          List.map_cons, List.count_append, List.count_cons, List.map_nil, List.count_nil]
        omega
  · apply keeps_of_count
    intro number
    simp only [numbers, List.map_append, List.count_append]
    omega

theorem park_keeps {supervisor after : Supervisor} {id : ContextId} {suspension : Suspension}
    {now : Instant} (hpark : supervisor.park id suspension now = .ok after) :
    after.custody elsewhere = supervisor.custody elsewhere := by
  obtain ⟨_, _, _, _, rfl⟩ := park_frame hpark
  rfl

/-- At the end of its turn a context is kept, put with the results, given back to the pool
or let go. -/
theorem settle_keeps {supervisor after : Supervisor} {task : Task} {state : ExecutionState}
    {now : Instant} (hsettle : supervisor.settle task state now = .ok after) :
    Keeps (supervisor.custody (task.context :: elsewhere)) (after.custody elsewhere) := by
  unfold settle at hsettle
  split at hsettle
  · rw [park_keeps hsettle]
    exact supervisor.keep_keeps task supervisor.session
  · cases hsettle
    exact (drop_keeps supervisor.session task.context _).trans
      (supervisor.conclude_keeps task.id .aborted none)
  · split at hsettle
    · cases hsettle
      exact supervisor.conclude_keeps task.id _ (some task.context)
    · cases hsettle
      exact release_keeps supervisor.session rfl _

/-- What a turn does to the custody until its context is dealt with. -/
theorem turn_custody {supervisor after : Supervisor} {task : Task}
    (hturn : supervisor.turn task = .ok after) :
    ∃ context performed now, context.id = task.context.id ∧
      Keeps (supervisor.custody (task.context :: elsewhere))
        (performed.custody (context :: elsewhere)) ∧
      settle performed { task with context }
        (task.context.resume supervisor.session.engine.program).2.2 now = .ok after := by
  rcases hresume : task.context.resume supervisor.session.engine.program with
    ⟨context, effects, state⟩
  have hsame : context.id = task.context.id :=
    (congrArg (·.1.id) hresume).symm.trans (Context.resume_id _ task.context)
  rw [turn_eq hresume] at hturn
  have hresumed : Keeps (supervisor.custody (task.context :: elsewhere))
      (supervisor.custody (context :: elsewhere)) :=
    replace_keeps supervisor.session hsame _
  have hperformed : Keeps (supervisor.custody (context :: elsewhere)) _ :=
    supervisor.readClock.2.perform_keeps effects
  exact ⟨context, _, _, hsame, hresumed.trans hperformed, hturn⟩

theorem turn_keeps {supervisor after : Supervisor} {task : Task}
    (hturn : supervisor.turn task = .ok after) :
    Keeps (supervisor.custody (task.context :: elsewhere)) (after.custody elsewhere) := by
  obtain ⟨context, performed, now, -, hperformed, hsettle⟩ := turn_custody hturn
  exact hperformed.trans (settle_keeps hsettle)

theorem remove_keeps {supervisor : Supervisor} {id : ContextId} {context : Context}
    (hcontext : supervisor.context? id = some context) :
    Keeps (supervisor.custody elsewhere)
      ((supervisor.remove id).custody (context :: elsewhere)) := by
  obtain ⟨task, htask, rfl⟩ := Option.map_eq_some_iff.mp hcontext
  -- Whatever the ids, the tasks that are taken out include the one that was found.
  have hfound : task ∈ supervisor.active.filter (·.id = id) :=
    List.mem_filter.mpr ⟨List.mem_of_find?_eq_some htask, (List.find?_eq_some_iff_append.mp htask).1⟩
  have hone : [task.context.id].Sublist
      ((supervisor.active.filter (·.id = id)).map (·.context.id)) :=
    List.singleton_sublist.mpr (List.mem_map.mpr ⟨task, hfound, rfl⟩)
  have hsplit := (List.filter_append_perm (fun task : Task => task.id = id)
    supervisor.active).map (·.context.id)
  apply keeps_of_count
  intro number
  have hnumber := hsplit.count_eq number
  have hfirst := hone.count_le number
  simp only [numbers, contexts, remove, List.map_append, List.map_map, List.map_cons,
    List.count_append, List.count_cons, List.count_nil, Function.comp_def, ne_eq, decide_not] at *
  omega

theorem turnAmid_keeps {outside : ContextId → Option Int32} {supervisor after : Supervisor}
    {id : ContextId} {context : Context} (hcontext : supervisor.context? id = some context)
    (hturn : (supervisor.remove id).turnAmid outside { id, context } = .ok after) :
    Keeps (supervisor.custody elsewhere) (after.custody elsewhere) := by
  obtain ⟨next, hnext, rfl⟩ := turnAmid_eq_ok hturn
  exact (remove_keeps hcontext).trans (turn_keeps hnext)

theorem foldl_conclude_contexts (tasks : List Task) (supervisor : Supervisor) :
    (tasks.foldl (fun supervisor task => supervisor.conclude task.id .aborted none)
        supervisor).results.filterMap (·.context) =
      supervisor.results.filterMap (·.context) := by
  induction tasks generalizing supervisor with
  | nil => rfl
  | cons task tasks ih =>
      rw [List.foldl_cons, ih, conclude]
      split
      · exact List.filterMap_cons_none rfl
      · rfl

/-- The end of all contexts lets go of those that are active. -/
theorem abortAll_custody (supervisor : Supervisor) :
    supervisor.abortAll.custody elsewhere =
      .of supervisor.session (elsewhere ++ supervisor.results.filterMap (·.context)) := by
  have hkept := foldl_conclude_contexts supervisor.active
    { supervisor with active := [], ready := [], sleeping := [], waiting := [] }
  obtain ⟨results, hresults, -⟩ := foldl_conclude [] [] supervisor.active
    { supervisor with active := [], ready := [], sleeping := [], waiting := [] }
  rw [hresults] at hkept
  rw [abortAll, hresults, custody, contexts, List.map_nil, List.nil_append, hkept]

theorem abortAll_keeps (supervisor : Supervisor) :
    Keeps (supervisor.custody elsewhere) (supervisor.abortAll.custody elsewhere) := by
  rw [abortAll_custody]
  apply keeps_of_count
  intro number
  simp only [numbers, contexts, List.map_append, List.count_append]
  omega

theorem refresh_custody (supervisor : Supervisor) :
    supervisor.refresh.custody elsewhere = supervisor.custody elsewhere := by
  obtain ⟨_, _, _, _, _, hrefresh⟩ := supervisor.refresh_eq
  rw [hrefresh]
  rfl

theorem runQueueAmid_keeps {outside : ContextId → Option Int32} {supervisor after : Supervisor}
    {ids : List ContextId} {more : Bool}
    (hrun : supervisor.runQueueAmid outside ids = .ok (more, after)) :
    Keeps (supervisor.custody elsewhere) (after.custody elsewhere) := by
  induction ids generalizing supervisor with
  | nil =>
      cases hrun
      exact .refl _
  | cons id remaining ih =>
      rw [runQueueAmid] at hrun
      cases hcontext : supervisor.context? id with
      | none =>
          rw [hcontext] at hrun
          exact ih hrun
      | some context =>
          rw [hcontext] at hrun
          cases hturn : (supervisor.remove id).turnAmid outside { id, context } with
          | error interruption => simp [hturn] at hrun
          | ok next =>
              have hnext : Keeps (supervisor.custody elsewhere) (next.custody elsewhere) :=
                turnAmid_keeps hcontext hturn
              simp only [hturn] at hrun
              split at hrun
              · cases hrun
                exact hnext.trans next.abortAll_keeps
              · exact hnext.trans (ih hrun)

theorem passAmid_keeps {outside : ContextId → Option Int32} {supervisor after : Supervisor}
    {more : Bool} (hpass : supervisor.passAmid outside = .ok (more, after)) :
    Keeps (supervisor.custody elsewhere) (after.custody elsewhere) := by
  unfold passAmid at hpass
  split at hpass
  · cases hpass
    exact supervisor.abortAll_keeps
  · rw [← refresh_custody]
    simp only at hpass
    split at hpass
    · have hafter := congrArg Prod.snd (Except.ok.inj hpass)
      change _ = after at hafter
      split at hafter
      · cases hafter
        exact .refl _
      · obtain ⟨_, hidle⟩ := supervisor.refresh.idle_eq
        rw [← hafter, hidle]
        exact .refl _
    · let opened : Supervisor := { supervisor.refresh with ready := [] }
      have hqueue : Keeps (opened.custody elsewhere) (after.custody elsewhere) :=
        runQueueAmid_keeps hpass
      exact hqueue

theorem count_taken (results : List Result) (id : ContextId) (number : Nat) :
    (numbers (((results.find? fun result => result.id = id).bind (·.context)).toList)).count
        number +
      (numbers ((results.map fun result =>
        if result.id = id then { result with context := none } else result).filterMap
          (·.context))).count number ≤
      (numbers (results.filterMap (·.context))).count number := by
  induction results with
  | nil => exact Nat.le_refl _
  | cons result results ih =>
      by_cases hid : result.id = id
      · rw [List.find?_cons_of_pos (by simpa using hid), List.map_cons, if_pos hid]
        cases hcontext : result.context with
        | none =>
            simp only [List.filterMap_cons, Option.bind_some, hcontext]
            exact Nat.le_trans (Nat.add_le_add_right (Nat.zero_le _) _) ih
        | some context =>
            simp only [numbers, List.filterMap_cons, Option.bind_some, hcontext, Option.toList,
              List.map_cons, List.map_nil, List.count_cons, List.count_nil] at ih ⊢
            omega
      · rw [List.find?_cons_of_neg (by simpa using hid), List.map_cons, if_neg hid]
        cases hcontext : result.context with
        | none =>
            simp only [List.filterMap_cons, hcontext]
            exact ih
        | some context =>
            simp only [numbers, List.filterMap_cons, hcontext, List.map_cons, List.count_cons]
              at ih ⊢
            omega

/-- A result gives its context away once. -/
theorem takeContext_keeps (supervisor : Supervisor) (id : ContextId) :
    Keeps (supervisor.custody elsewhere)
      ((supervisor.takeContext id).2.custody
        ((supervisor.takeContext id).1.toList ++ elsewhere)) := by
  apply keeps_of_count
  intro number
  have htaken := count_taken supervisor.results id number
  simp only [takeContext, result?, numbers, contexts, List.map_append, List.count_append]
    at htaken ⊢
  omega

theorem foldl_release_keeps (contexts elsewhere : List Context) (session : Session) :
    Keeps (.of session (contexts ++ elsewhere))
      (.of (contexts.foldl Session.release session) elsewhere) := by
  induction contexts generalizing session with
  | nil => exact .refl _
  | cons context contexts ih =>
      exact (release_keeps session rfl _).trans (ih (session.release context))

/-- The end of a supervisor puts what it holds into the pool. -/
theorem close_keeps (supervisor : Supervisor) :
    Keeps (supervisor.custody elsewhere) (.of supervisor.close elsewhere) := by
  have hswap : Keeps (supervisor.custody elsewhere)
      (.of supervisor.session
        ((supervisor.results.filterMap (·.context) ++ supervisor.active.map (·.context)) ++
          elsewhere)) :=
    keeps_of_count fun number => by
      simp only [numbers, contexts, List.map_append, List.count_append]
      omega
  exact hswap.trans (foldl_release_keeps _ elsewhere supervisor.session)

/-! ## Aborted contexts -/

end Supervisor

end ScriptBundle
