import ScriptBundle.Proofs.Schedule.Tidiness

/-!
# Pools in many hands

Several callers share a pool.  A caller takes an idle context in one step; one that finds no
idle context makes one in a later step, and in between others may take contexts, make them
and put them back.  A context that is given back is cleared first and put into the pool in a
later step.  Whatever the order of all these steps, every context is in one place, and no
more contexts are made than were in use at one time.
-/

namespace ScriptBundle

/-- What the holder of a context can do with it. -/
inductive Context.Becomes : Context → Context → Prop where
  | prepare {context prepared : Context} {function : ScriptFunction}
      (hprepare : context.prepare function = .ok prepared) : Becomes context prepared
  | resume (context : Context) (program : Program) : Becomes context (context.resume program).1
  | unprepare (context : Context) : Becomes context context.unprepare

/-- What a context keeps as long as it exists: its number and its hooks. -/
def Context.label (context : Context) : Nat × Option Hooks :=
  (context.id, context.hooks)

theorem Context.Becomes.label_eq {context changed : Context}
    (hbecomes : context.Becomes changed) : changed.label = context.label := by
  cases hbecomes with
  | prepare hprepare =>
      unfold Context.prepare at hprepare
      split at hprepare
      · cases hprepare
      · cases hprepare
        rfl
  | resume program =>
      exact congrArg₂ Prod.mk (Context.resume_id program context)
        (Context.resume_hooks program context)
  | unprepare => rfl

/-- A pool, its engine, and what the callers are doing. -/
structure SharedPool (Caller : Type) where
  pool : ContextPool
  engine : Engine
  /-- The callers that found no idle context and have not made one yet. -/
  making : List Caller := []
  held : List (Caller × Context) := []
  /-- The contexts that were cleared and are not in the pool yet. -/
  releasing : List (Caller × Context) := []
  /-- The contexts that were dropped from the pool. -/
  drained : List Context := []
  /-- The contexts that were dropped by their holders. -/
  discarded : List Context := []

namespace SharedPool

variable {Caller : Type}

/-- A new pool, that nobody has used. -/
def fresh (hooks : Hooks) (engine : Engine) : SharedPool Caller :=
  { pool := { hooks }, engine }

/-- The number of contexts that are being acquired, held or released. -/
def inUse (state : SharedPool Caller) : Nat :=
  state.making.length + state.held.length + state.releasing.length

/-- The contexts of a pool, wherever they are. -/
def places (state : SharedPool Caller) : List Context :=
  state.pool.free ++ (state.held.map (·.2) ++ (state.releasing.map (·.2) ++
    (state.drained ++ state.discarded)))

inductive Event (Caller : Type) where
  /-- A caller takes an idle context. -/
  | take (caller : Caller) (context : Context)
  /-- A caller finds no idle context. -/
  | miss (caller : Caller)
  /-- A caller that found no idle context makes one. -/
  | make (caller : Caller) (context : Context)
  | use (caller : Caller) (context changed : Context)
  /-- A caller begins to give a context back. -/
  | clear (caller : Caller) (context : Context)
  | put (caller : Caller) (context : Context)
  | discard (caller : Caller) (context : Context)
  | drain
  /-- The engine makes contexts for others. -/
  | elsewhere (contexts : Nat)

/-- The steps of the callers, none of which another one can divide. -/
inductive Step : SharedPool Caller → Event Caller → SharedPool Caller → Prop where
  | take {state : SharedPool Caller} {caller : Caller} {context : Context} {pool : ContextPool}
      (htake : state.pool.reuse? = some (context, pool)) :
      Step state (.take caller context)
        { state with pool, held := (caller, context) :: state.held }
  | miss {state : SharedPool Caller} {caller : Caller} (hnone : state.pool.reuse? = none) :
      Step state (.miss caller) { state with making := caller :: state.making }
  | make {state : SharedPool Caller} {caller : Caller} {context : Context} {pool : ContextPool}
      {engine : Engine} {making : List Caller} (hmaking : state.making.Perm (caller :: making))
      (hcreate : state.pool.create state.engine = (context, pool, engine)) :
      Step state (.make caller context)
        { state with pool, engine, making, held := (caller, context) :: state.held }
  | use {state : SharedPool Caller} {caller : Caller} {context changed : Context}
      {held : List (Caller × Context)} (hheld : state.held.Perm ((caller, context) :: held))
      (hbecomes : context.Becomes changed) :
      Step state (.use caller context changed)
        { state with held := (caller, changed) :: held }
  | clear {state : SharedPool Caller} {caller : Caller} {context : Context}
      {held : List (Caller × Context)} (hheld : state.held.Perm ((caller, context) :: held)) :
      Step state (.clear caller context)
        { state with held, releasing := (caller, context.unprepare) :: state.releasing }
  | put {state : SharedPool Caller} {caller : Caller} {context : Context}
      {releasing : List (Caller × Context)}
      (hreleasing : state.releasing.Perm ((caller, context) :: releasing)) :
      Step state (.put caller context)
        { state with pool := state.pool.release context, releasing }
  | discard {state : SharedPool Caller} {caller : Caller} {context : Context}
      {held : List (Caller × Context)} (hheld : state.held.Perm ((caller, context) :: held)) :
      Step state (.discard caller context)
        { state with held, discarded := context :: state.discarded }
  | drain (state : SharedPool Caller) :
      Step state .drain
        { state with pool := state.pool.drain, drained := state.pool.free ++ state.drained }
  | elsewhere (state : SharedPool Caller) (contexts : Nat) :
      Step state (.elsewhere contexts)
        { state with
          engine :=
            { state.engine with contextsCreated := state.engine.contextsCreated + contexts } }

/-- The steps from a start to a state, each with the state that it leads to. -/
inductive Run (start : SharedPool Caller) :
    List (Event Caller × SharedPool Caller) → SharedPool Caller → Prop where
  | start : Run start [] start
  | step {history : List (Event Caller × SharedPool Caller)} {state after : SharedPool Caller}
      {event : Event Caller} (hrun : Run start history state) (hstep : Step state event after) :
      Run start (history ++ [(event, after)]) after

namespace Event

/-- The context that a caller gets. -/
def acquired : Event Caller → Option Context
  | .take _ context => some context
  | .make _ context => some context
  | _ => none

/-- The context that is made, with its hooks. -/
def made : Event Caller → Option Context
  | .make _ context => some context
  | _ => none

/-- The number of the context that is put back. -/
def putBack : Event Caller → Option Nat
  | .put _ context => some context.id
  | _ => none

end Event

/-- The contexts made so far, the first one first. -/
def madeIn (history : List (Event Caller × SharedPool Caller)) : List Context :=
  history.filterMap (·.1.made)

theorem madeIn_snoc (history : List (Event Caller × SharedPool Caller)) (event : Event Caller)
    (after : SharedPool Caller) :
    madeIn (history ++ [(event, after)]) = madeIn history ++ event.made.toList := by
  cases hmade : event.made <;> simp [madeIn, List.filterMap_append, hmade]

/-- The numbers of the contexts that were put back, in this order. -/
def putIn (history : List (Event Caller × SharedPool Caller)) : List Nat :=
  history.filterMap (·.1.putBack)

theorem putIn_snoc (history : List (Event Caller × SharedPool Caller)) (event : Event Caller)
    (after : SharedPool Caller) :
    putIn (history ++ [(event, after)]) = putIn history ++ event.putBack.toList := by
  cases hput : event.putBack <;> simp [putIn, List.filterMap_append, hput]

variable {state after : SharedPool Caller} {event : Event Caller}
  {history : List (Event Caller × SharedPool Caller)} {hooks : Hooks} {engine : Engine}

theorem reuse?_eq_some {pool rest : ContextPool} {context : Context}
    (htake : pool.reuse? = some (context, rest)) :
    pool.free = context :: rest.free ∧ rest = { pool with free := rest.free } := by
  unfold ContextPool.reuse? at htake
  split at htake
  · cases htake
  · cases htake
    exact ⟨by assumption, rfl⟩

/-- An acquisition that nobody interrupts is one of the runs. -/
theorem Run.acquire {start : SharedPool Caller} {context : Context} {pool : ContextPool}
    (hrun : Run start history state) (caller : Caller)
    (hacquire : state.pool.acquire state.engine = (context, pool, engine)) :
    ∃ more, Run start (history ++ more)
      { state with pool, engine, held := (caller, context) :: state.held } := by
  unfold ContextPool.acquire at hacquire
  cases hreuse : state.pool.reuse? with
  | some reused =>
      rw [hreuse] at hacquire
      cases hacquire
      exact ⟨_, .step hrun (.take hreuse)⟩
  | none =>
      rw [hreuse] at hacquire
      have hmiss := hrun.step (@Step.miss Caller state caller hreuse)
      exact ⟨_, List.append_assoc history _ _ ▸ hmiss.step (.make (.refl _) hacquire)⟩

theorem Run.release {start : SharedPool Caller} {caller : Caller} {context : Context}
    {held : List (Caller × Context)} (hrun : Run start history state)
    (hheld : state.held.Perm ((caller, context) :: held)) :
    ∃ more, Run start (history ++ more)
      { state with pool := state.pool.release context, held } :=
  ⟨_, List.append_assoc history _ _ ▸ (hrun.step (.clear hheld)).step (.put (.refl _))⟩

/-! ## Where the contexts are -/

theorem count_eq_of_perm {items rest : List (Caller × Context)} {item : Caller × Context}
    (hperm : items.Perm (item :: rest)) (label : Nat × Option Hooks) :
    (items.map (·.2.label)).count label =
      (rest.map (·.2.label)).count label + if item.2.label == label then 1 else 0 := by
  rw [(hperm.map (·.2.label)).count_eq label, List.map_cons, List.count_cons]

theorem count_places (state : SharedPool Caller) (label : Nat × Option Hooks) :
    (state.places.map Context.label).count label =
      (state.pool.free.map Context.label).count label +
        (state.held.map (·.2.label)).count label +
        (state.releasing.map (·.2.label)).count label +
        (state.drained.map Context.label).count label +
        (state.discarded.map Context.label).count label := by
  simp only [places, List.map_append, List.map_map, Function.comp_def, List.count_append]
  omega

/-- A step moves contexts from place to place, and adds the one that it makes. -/
theorem Step.labels_perm (hstep : Step state event after) :
    (after.places.map Context.label).Perm
      (event.made.toList.map Context.label ++ state.places.map Context.label) := by
  rw [List.perm_iff_count]
  intro label
  rw [List.count_append, count_places, count_places]
  cases hstep with
  | take htake =>
      have hfree := (reuse?_eq_some htake).1
      simp only [hfree, Event.made, Option.toList, List.map, List.count_nil, List.count_cons]
      omega
  | miss | elsewhere => exact (Nat.zero_add _).symm
  | make hmaking hcreate =>
      cases hcreate
      simp only [Event.made, Option.toList, List.map, List.count_nil, List.count_cons]
      omega
  | use hheld hbecomes =>
      have hcount := count_eq_of_perm hheld label
      simp only [hcount, hbecomes.label_eq, Event.made, Option.toList, List.map, List.count_nil,
        List.count_cons]
      omega
  | clear hheld =>
      have hcount := count_eq_of_perm hheld label
      simp only [hcount, (Context.Becomes.unprepare _).label_eq, Event.made, Option.toList,
        List.map, List.count_nil, List.count_cons]
      omega
  | put hreleasing =>
      have hcount := count_eq_of_perm hreleasing label
      simp only [hcount, ContextPool.release, (Context.Becomes.unprepare _).label_eq, Event.made,
        Option.toList, List.map, List.count_nil, List.count_cons]
      omega
  | discard hheld =>
      have hcount := count_eq_of_perm hheld label
      simp only [hcount, Event.made, Option.toList, List.map, List.count_nil, List.count_cons]
      omega
  | drain =>
      simp only [ContextPool.drain, Event.made, Option.toList, List.map_append, List.map,
        List.count_append, List.count_nil]
      omega

/-! ## What a step keeps -/

theorem Step.hooks_eq (hstep : Step state event after) : after.pool.hooks = state.pool.hooks := by
  cases hstep with
  | take htake => rw [(reuse?_eq_some htake).2]
  | make hmaking hcreate => cases hcreate; rfl
  | miss | use | clear | put | discard | drain | elsewhere => rfl

theorem Step.created_eq (hstep : Step state event after) :
    after.pool.created = state.pool.created + event.made.toList.length := by
  cases hstep with
  | take htake => rw [(reuse?_eq_some htake).2]; rfl
  | make hmaking hcreate => cases hcreate; rfl
  | miss | use | clear | put | discard | drain | elsewhere => rfl

theorem Step.contextsCreated_le (hstep : Step state event after) :
    state.engine.contextsCreated + event.made.toList.length ≤ after.engine.contextsCreated := by
  cases hstep with
  | make hmaking hcreate => cases hcreate; exact Nat.le_refl _
  | elsewhere => exact Nat.le_add_right _ _
  | take | miss | use | clear | put | discard | drain => exact Nat.le_refl _

/-- A new context has the next number of its engine, the hooks of its pool and no function. -/
theorem Step.made_eq (hstep : Step state event after) {context : Context}
    (hmade : event.made = some context) :
    context = ⟨state.engine.contextsCreated, some state.pool.hooks, none⟩ := by
  cases hstep with
  | make hmaking hcreate =>
      cases hcreate
      exact (Option.some.inj hmade).symm
  | take | miss | use | clear | put | discard | drain | elsewhere => cases hmade

/-- A context becomes idle by being put back. -/
theorem Step.mem_free (hstep : Step state event after) {context : Context}
    (hfree : context ∈ after.pool.free) :
    context ∈ state.pool.free ∨ ∃ caller cleared, event = .put caller cleared ∧
      context = cleared.unprepare := by
  cases hstep with
  | take htake => exact .inl ((reuse?_eq_some htake).1 ▸ List.mem_cons_of_mem _ hfree)
  | make hmaking hcreate => cases hcreate; exact .inl hfree
  | put hreleasing =>
      rcases List.mem_cons.mp hfree with rfl | hfree
      · exact .inr ⟨_, _, rfl, rfl⟩
      · exact .inl hfree
  | miss | use | clear | discard | elsewhere => exact .inl hfree
  | drain => exact (List.not_mem_nil hfree).elim

/-- Every context is where it was left, with the number and the hooks it was made with. -/
structure Accounted (hooks : Hooks) (history : List (Event Caller × SharedPool Caller))
    (state : SharedPool Caller) : Prop where
  conserved : (state.places.map Context.label).Perm ((madeIn history).map Context.label)
  madeOnce : (numbers (madeIn history)).Nodup
  madeBefore : ∀ context ∈ madeIn history, context.id < state.engine.contextsCreated
  hooked : ∀ context ∈ madeIn history, context.hooks = some hooks
  created : state.pool.created = (madeIn history).length
  installed : state.pool.hooks = hooks
  unbound : ∀ context ∈ state.pool.free, context.running = none

namespace Accounted

theorem fresh (hooks : Hooks) (engine : Engine) :
    Accounted hooks [] (fresh hooks engine : SharedPool Caller) where
  conserved := .refl _
  madeOnce := .nil
  madeBefore := List.forall_mem_nil _
  hooked := List.forall_mem_nil _
  created := rfl
  installed := rfl
  unbound := List.forall_mem_nil _

theorem step (haccounted : Accounted hooks history state) (hstep : Step state event after) :
    Accounted hooks (history ++ [(event, after)]) after where
  conserved := by
    rw [madeIn_snoc, List.map_append]
    exact hstep.labels_perm.trans
      ((haccounted.conserved.append_left _).trans List.perm_append_comm)
  madeOnce := by
    rw [madeIn_snoc, numbers, List.map_append]
    refine List.Nodup.append haccounted.madeOnce ?_ ?_
    · cases event.made <;> simp
    · intro number hold hnew
      obtain ⟨context, hcontext, rfl⟩ := List.mem_map.mp hnew
      obtain ⟨earlier, hearlier, hid⟩ := List.mem_map.mp hold
      have hbefore := haccounted.madeBefore earlier hearlier
      rw [hid, hstep.made_eq (Option.mem_toList.mp hcontext)] at hbefore
      exact Nat.lt_irrefl _ hbefore
  madeBefore context hcontext := by
    rw [madeIn_snoc, List.mem_append] at hcontext
    have hle := hstep.contextsCreated_le
    rcases hcontext with hold | hnew
    · exact Nat.lt_of_lt_of_le (haccounted.madeBefore context hold)
        (Nat.le_trans (Nat.le_add_right _ _) hle)
    · rw [Option.mem_toList] at hnew
      rw [Option.mem_def.mp hnew] at hle
      rw [hstep.made_eq hnew]
      exact hle
  hooked context hcontext := by
    rw [madeIn_snoc, List.mem_append] at hcontext
    rcases hcontext with hold | hnew
    · exact haccounted.hooked context hold
    · rw [hstep.made_eq (Option.mem_toList.mp hnew), haccounted.installed]
  created := by
    rw [madeIn_snoc, List.length_append, ← haccounted.created]
    exact hstep.created_eq
  installed := hstep.hooks_eq.trans haccounted.installed
  unbound context hcontext := by
    rcases hstep.mem_free hcontext with hold | ⟨-, cleared, -, rfl⟩
    · exact haccounted.unbound context hold
    · rfl

theorem numbers_perm (haccounted : Accounted hooks history state) :
    (numbers state.places).Perm (numbers (madeIn history)) := by
  have hperm := haccounted.conserved.map Prod.fst
  rwa [List.map_map, List.map_map] at hperm

theorem numbers_nodup (haccounted : Accounted hooks history state) :
    (numbers state.places).Nodup :=
  haccounted.numbers_perm.nodup_iff.mpr haccounted.madeOnce

theorem hooks_eq (haccounted : Accounted hooks history state) {context : Context}
    (hcontext : context ∈ state.places) : context.hooks = some hooks := by
  have hlabel := haccounted.conserved.mem_iff.mp (List.mem_map_of_mem hcontext)
  obtain ⟨made, hmade, heq⟩ := List.mem_map.mp hlabel
  rw [← haccounted.hooked made hmade]
  exact (congrArg Prod.snd heq).symm

end Accounted

/-! ## Which context is taken -/

/-- After `older` was put back for the last time, `newer` was put back. -/
def PutAfter (puts : List Nat) (newer older : Nat) : Prop :=
  ∃ earlier later, puts = earlier ++ newer :: later ∧ older ∈ earlier ∧ older ∉ later

/-- The idle contexts were put back, each one after those that follow it. -/
structure LatestFirst (puts : List Nat) (free : List Context) : Prop where
  put : ∀ context ∈ free, context.id ∈ puts
  ordered : free.Pairwise fun newer older => PutAfter puts newer.id older.id

theorem PutAfter.snoc {puts : List Nat} {newer older number : Nat}
    (hafter : PutAfter puts newer older) (hother : older ≠ number) :
    PutAfter (puts ++ [number]) newer older := by
  obtain ⟨earlier, later, rfl, hearlier, hlater⟩ := hafter
  refine ⟨earlier, later ++ [number], by simp, hearlier, ?_⟩
  simp [hlater, hother]

namespace LatestFirst

variable {puts : List Nat} {free : List Context}

theorem tail {context : Context} (hlatest : LatestFirst puts (context :: free)) :
    LatestFirst puts free :=
  ⟨fun other hother => hlatest.put other (List.mem_cons_of_mem _ hother), hlatest.ordered.of_cons⟩

theorem cons (hlatest : LatestFirst puts free) {context : Context}
    (hnew : context.id ∉ numbers free) :
    LatestFirst (puts ++ [context.id]) (context :: free) where
  put other hother := by
    rcases List.mem_cons.mp hother with rfl | hold
    · exact List.mem_append_right _ (List.mem_singleton.mpr rfl)
    · exact List.mem_append_left _ (hlatest.put other hold)
  ordered := by
    refine List.pairwise_cons.mpr ⟨fun other hother => ?_, ?_⟩
    · exact ⟨puts, [], rfl, hlatest.put other hother, List.not_mem_nil⟩
    · refine hlatest.ordered.imp_of_mem fun _ holder hafter => hafter.snoc fun heq => hnew ?_
      exact heq ▸ List.mem_map_of_mem holder

theorem step (hlatest : LatestFirst (putIn history) state.pool.free)
    (haccounted : Accounted hooks history state) (hstep : Step state event after) :
    LatestFirst (putIn (history ++ [(event, after)])) after.pool.free := by
  rw [putIn_snoc]
  cases hstep with
  | take htake =>
      rw [(reuse?_eq_some htake).1] at hlatest
      simpa only [Event.putBack, Option.toList, List.append_nil] using hlatest.tail
  | make hmaking hcreate =>
      cases hcreate
      simpa only [Event.putBack, Option.toList, List.append_nil] using hlatest
  | miss | use | clear | discard | elsewhere =>
      simpa only [Event.putBack, Option.toList, List.append_nil] using hlatest
  | drain => exact ⟨List.forall_mem_nil _, .nil⟩
  | @put caller context releasing hreleasing =>
      have hreleased : context ∈ state.releasing.map (·.2) :=
        List.mem_map_of_mem (hreleasing.mem_iff.mpr List.mem_cons_self)
      have hapart := haccounted.numbers_nodup
      rw [places, numbers, List.map_append] at hapart
      have helsewhere := List.mem_map_of_mem (f := Context.id)
        (List.mem_append_right (state.held.map (·.2))
          (List.mem_append_left (state.drained ++ state.discarded) hreleased))
      have hnew : context.unprepare.id ∉ numbers state.pool.free := fun hidle =>
        List.disjoint_of_nodup_append hapart hidle helsewhere
      exact hlatest.cons hnew

end LatestFirst

/-! ## How many contexts are made -/

/-- Counting the ones to come, no more contexts were made than were in use in a visited state. -/
def Bounded (visited : List (SharedPool Caller)) (state : SharedPool Caller) : Prop :=
  state.drained = [] → state.discarded = [] →
    ∃ peak ∈ visited, state.pool.created + state.making.length ≤ peak.inUse

theorem Step.lost_eq_nil (hstep : Step state event after) :
    (after.drained = [] → state.drained = []) ∧
      (after.discarded = [] → state.discarded = []) := by
  cases hstep with
  | discard => exact ⟨id, fun hnil => (List.cons_ne_nil _ _ hnil).elim⟩
  | drain => exact ⟨fun hnil => (List.append_eq_nil_iff.mp hnil).2, id⟩
  | take | miss | make | use | clear | put | elsewhere => exact ⟨id, id⟩

/-- Only a caller that finds no idle context makes more contexts necessary. -/
theorem Step.created_add_making (hstep : Step state event after) :
    after.pool.created + after.making.length = state.pool.created + state.making.length ∨
      state.pool.free = [] ∧ ∃ caller, after = { state with making := caller :: state.making } := by
  have hcreated := hstep.created_eq
  cases hstep with
  | miss hnone =>
      refine .inr ⟨?_, _, rfl⟩
      unfold ContextPool.reuse? at hnone
      split at hnone
      · assumption
      · cases hnone
  | make hmaking =>
      refine .inl ?_
      rw [hcreated, hmaking.length_eq, List.length_cons]
      exact Nat.add_right_comm _ _ _
  | take | use | clear | put | discard | drain | elsewhere =>
      exact .inl (congrArg (· + state.making.length) hcreated)

theorem Accounted.created_eq_length (haccounted : Accounted hooks history state) :
    state.pool.created = state.places.length := by
  have hlength := haccounted.conserved.length_eq
  rw [List.length_map, List.length_map] at hlength
  rw [haccounted.created, hlength]

theorem Bounded.step {visited : List (SharedPool Caller)} (hbounded : Bounded visited state)
    (haccounted : Accounted hooks history state) (hstep : Step state event after) :
    Bounded (visited ++ [after]) after := by
  intro hdrained hdiscarded
  have hdrainedBefore := hstep.lost_eq_nil.1 hdrained
  have hdiscardedBefore := hstep.lost_eq_nil.2 hdiscarded
  rcases hstep.created_add_making with hsame | ⟨hfree, caller, rfl⟩
  · obtain ⟨peak, hpeak, hle⟩ := hbounded hdrainedBefore hdiscardedBefore
    exact ⟨peak, List.mem_append_left _ hpeak, hsame ▸ hle⟩
  · -- no context is idle, so all of them are in use now
    have hcreated := haccounted.created_eq_length
    simp only [places, hfree, hdrainedBefore, hdiscardedBefore, List.length_append,
      List.length_map, List.length_nil] at hcreated
    refine ⟨_, List.mem_append_right _ (List.mem_singleton.mpr rfl), ?_⟩
    simp only [inUse, List.length_cons]
    omega

/-! ## Whole runs -/

theorem Run.invariant (hrun : Run (fresh hooks engine) history state) :
    Accounted hooks history state ∧ LatestFirst (putIn history) state.pool.free ∧
      Bounded (fresh hooks engine :: history.map (·.2)) state := by
  induction hrun with
  | start =>
      exact ⟨.fresh hooks engine, ⟨List.forall_mem_nil _, .nil⟩,
        fun _ _ => ⟨_, List.mem_cons_self, Nat.le_refl _⟩⟩
  | step hrun hstep ih =>
      obtain ⟨haccounted, hlatest, hbounded⟩ := ih
      refine ⟨haccounted.step hstep, hlatest.step haccounted hstep, ?_⟩
      rw [List.map_append, ← List.cons_append]
      exact hbounded.step haccounted hstep

/-- What callers rely on after the steps so far. -/
structure Reliable (start : SharedPool Caller) (history : List (Event Caller × SharedPool Caller))
    (state : SharedPool Caller) : Prop where
  /-- No context is in two places or in the hands of two callers. -/
  apart : (numbers state.places).Nodup
  /-- The contexts in all the places are the ones that were made. -/
  conserved : (numbers state.places).Perm (numbers (madeIn history))
  created : state.pool.created = (madeIn history).length
  /-- A context is made once, with the hooks of the pool, and keeps them. -/
  hooked : ∀ context ∈ state.places,
    context.hooks = some start.pool.hooks ∧ (numbers (madeIn history)).count context.id = 1
  unbound : ∀ event after context, Step state event after → event.acquired = some context →
    context.hooks = some start.pool.hooks ∧ context.running = none
  /-- The context that is taken was put back after all others that are idle. -/
  latest : ∀ caller context after, Step state (.take caller context) after →
    state.pool.free = context :: after.pool.free ∧ context.id ∈ putIn history ∧
      ∀ other ∈ after.pool.free, PutAfter (putIn history) context.id other.id
  /-- If no context is lost, no more were made than were in use at one time. -/
  bounded : state.drained = [] → state.discarded = [] →
    ∃ peak ∈ start :: history.map (·.2), state.pool.created ≤ peak.inUse

theorem run_reliable (hrun : Run (fresh hooks engine) history state) :
    Reliable (fresh hooks engine) history state := by
  obtain ⟨haccounted, hlatest, hbounded⟩ := hrun.invariant
  constructor
  case apart => exact haccounted.numbers_nodup
  case conserved => exact haccounted.numbers_perm
  case created => exact haccounted.created
  case hooked =>
    intro context hcontext
    refine ⟨haccounted.hooks_eq hcontext, List.count_eq_one_of_mem haccounted.madeOnce ?_⟩
    exact haccounted.numbers_perm.mem_iff.mp (List.mem_map_of_mem hcontext)
  case unbound =>
    intro event after context hstep hacquired
    cases hstep with
    | take htake =>
        cases hacquired
        have hmem : context ∈ state.pool.free :=
          (reuse?_eq_some htake).1 ▸ List.mem_cons_self
        exact ⟨haccounted.hooks_eq (List.mem_append_left _ hmem), haccounted.unbound _ hmem⟩
    | make hmaking hcreate =>
        cases hacquired
        cases hcreate
        exact ⟨congrArg some haccounted.installed, rfl⟩
    | miss | use | clear | put | discard | drain | elsewhere => cases hacquired
  case latest =>
    intro caller context after hstep
    cases hstep with
    | take htake =>
        have hfree := (reuse?_eq_some htake).1
        rw [hfree] at hlatest
        exact ⟨hfree, hlatest.put context List.mem_cons_self,
          (List.pairwise_cons.mp hlatest.ordered).1⟩
  case bounded =>
    intro hdrained hdiscarded
    obtain ⟨peak, hpeak, hle⟩ := hbounded hdrained hdiscarded
    exact ⟨peak, hpeak, Nat.le_trans (Nat.le_add_right _ _) hle⟩

/-- A caller makes a context although another one has come back in the meantime. -/
theorem run_reliable_late :
    ∃ (history : List (Event Bool × SharedPool Bool)) (state : SharedPool Bool),
      Run (fresh ⟨true⟩ default) history state ∧
        state.pool.created = 2 ∧ numbers (state.held.map (·.2)) = [0, 1] ∧
        Reliable (fresh ⟨true⟩ default) history state := by
  have hfirst : Run (fresh ⟨true⟩ default) _ _ :=
    .step (.step .start (@Step.miss Bool _ false rfl)) (.make (.refl _) rfl)
  have hback : Run (fresh ⟨true⟩ default) _ _ :=
    .step (.step (.step hfirst (@Step.miss Bool _ true rfl)) (.clear (.refl _))) (.put (.refl _))
  have hrun : Run (fresh ⟨true⟩ default) _ _ :=
    .step (.step hback (.make (.refl _) rfl)) (@Step.take Bool _ false _ _ rfl)
  exact ⟨_, _, hrun, rfl, rfl, run_reliable hrun⟩

end SharedPool
end ScriptBundle
