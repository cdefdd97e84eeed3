import ScriptBundle.Proofs.Schedule.Ledger
import ScriptBundle.Proofs.Schedule.Turns

/-!
# The books of a supervisor

Each operation of a supervisor is read as moves of its ledger.  Within a pass the
ledger also counts the ids whose turn is still to come, which no queue holds, and
the context whose turn it is, which is not among the active ones.
-/

namespace ScriptBundle.Supervisor

open Ledger

/-- The ids of the active contexts. -/
def activeIds (supervisor : Supervisor) : List ContextId :=
  supervisor.active.map (·.id)

/-- The ids in the three queues. -/
def queued (supervisor : Supervisor) : List ContextId :=
  supervisor.ready ++ supervisor.sleeping.map (·.2) ++ supervisor.waiting.map (·.2)

/-- The ids of the contexts whose final state is kept. -/
def finishedIds (supervisor : Supervisor) : List ContextId :=
  supervisor.results.map (·.id)

/-- The ledger in the middle of a pass, with the ids still to come and the one
whose turn it is. -/
def ledger (supervisor : Supervisor) (pending running : List ContextId) : Ledger where
  queued := pending ++ supervisor.queued
  running
  active := supervisor.activeIds
  retained := supervisor.retained
  nextId := supervisor.nextId
  final := supervisor.state?

variable {pending running : List ContextId}

/-- What is a sequence of moves for each item is one for all of them. -/
theorem foldl_moves {α : Type} {step : Supervisor → α → Supervisor}
    (hstep : ∀ supervisor item,
      Moves (supervisor.ledger pending running) ((step supervisor item).ledger pending running))
    (items : List α) (supervisor : Supervisor) :
    Moves (supervisor.ledger pending running)
      ((items.foldl step supervisor).ledger pending running) := by
  induction items generalizing supervisor with
  | nil => exact .refl
  | cons item items ih => exact (hstep supervisor item).trans (ih (step supervisor item))

/-! ## Queues -/

/-- A change of the queues alone is a move if they hold the same ids. -/
theorem requeue_moves (supervisor : Supervisor) {pending pending' : List ContextId}
    (ready : List ContextId) (sleeping : List (Instant × ContextId))
    (waiting : List (EventId × ContextId)) (latched : List EventId)
    (hqueued : (pending' ++ (ready ++ sleeping.map (·.2) ++ waiting.map (·.2))).Perm
      (pending ++ supervisor.queued)) :
    Moves (supervisor.ledger pending running)
      (Supervisor.ledger { supervisor with ready, sleeping, waiting, latched }
        pending' running) :=
  .single (.requeue (supervisor.ledger pending running) _ hqueued)

theorem deliver_moves (supervisor : Supervisor) (event : EventId) :
    Moves (supervisor.ledger pending running)
      ((supervisor.deliver event).ledger pending running) := by
  unfold deliver
  split
  rename_i woken waiting hpartition
  have hperm : (woken ++ waiting).Perm supervisor.waiting := by
    rw [List.partition_eq_filter_filter, Prod.mk.injEq] at hpartition
    obtain ⟨rfl, rfl⟩ := hpartition
    exact List.filter_append_perm _ _
  split
  · exact .refl
  · refine supervisor.requeue_moves _ _ _ _ (List.Perm.append_left _ ?_)
    have hids := hperm.map (·.2)
    rw [List.map_append] at hids
    simp only [queued, List.append_assoc]
    apply List.Perm.append_left
    calc woken.map (·.2) ++ (supervisor.sleeping.map (·.2) ++ waiting.map (·.2))
      _ = (woken.map (·.2) ++ supervisor.sleeping.map (·.2)) ++ waiting.map (·.2) := by
          rw [List.append_assoc]
      List.Perm _ ((supervisor.sleeping.map (·.2) ++ woken.map (·.2)) ++ waiting.map (·.2)) :=
          List.Perm.append_right _ List.perm_append_comm
      _ = supervisor.sleeping.map (·.2) ++ (woken.map (·.2) ++ waiting.map (·.2)) := by
          rw [List.append_assoc]
      List.Perm _ (supervisor.sleeping.map (·.2) ++ supervisor.waiting.map (·.2)) :=
          List.Perm.append_left _ hids

theorem collect_moves (supervisor : Supervisor) :
    Moves (supervisor.ledger pending running) (supervisor.collect.ledger pending running) :=
  foldl_moves deliver_moves supervisor.inbox { supervisor with inbox := [] }

theorem wake_moves (supervisor : Supervisor) (now : Instant) :
    Moves (supervisor.ledger pending running) ((supervisor.wake now).ledger pending running) := by
  refine supervisor.requeue_moves _ _ _ _ (List.Perm.append_left _ (.of_eq ?_))
  have hsplit := List.prefix_iff_eq_append.mp
    (List.takeWhile_prefix (fun entry : Instant × ContextId => entry.1 ≤ now)
      (l := supervisor.sleeping))
  conv_rhs => rw [queued, ← hsplit]
  simp only [List.map_append, List.append_assoc]

theorem refresh_moves (supervisor : Supervisor) :
    Moves (supervisor.ledger pending running) (supervisor.refresh.ledger pending running) :=
  supervisor.collect_moves.trans (supervisor.collect.readClock.2.wake_moves _)

theorem insertSleeper_perm (deadline : Instant) (id : ContextId)
    (entries : List (Instant × ContextId)) :
    (insertSleeper deadline id entries).Perm ((deadline, id) :: entries) := by
  induction entries with
  | nil => exact .refl _
  | cons entry entries ih =>
      rw [insertSleeper]
      split
      · exact .refl _
      · exact (ih.cons entry).trans (.swap _ _ _)

/-- A parked context is in one more place of the queues. -/
theorem park_queued {supervisor after : Supervisor} {id : ContextId} {suspension : Suspension}
    {now : Instant} (hpark : supervisor.park id suspension now = .ok after) :
    after.queued.Perm (id :: supervisor.queued) := by
  have hready : (supervisor.ready ++ [id] ++ supervisor.sleeping.map (·.2) ++
      supervisor.waiting.map (·.2)).Perm (id :: supervisor.queued) := by
    simp only [queued, List.append_assoc, List.singleton_append]
    exact List.perm_middle
  cases suspension with
  | yield =>
      cases hpark
      exact hready
  | sleep duration =>
      simp only [park] at hpark
      split at hpark
      · cases hpark
        have hsleeping := (insertSleeper_perm (now + duration.inNanoseconds) id
          supervisor.sleeping).map (·.2)
        calc (supervisor.ready ++ (insertSleeper (now + duration.inNanoseconds) id
              supervisor.sleeping).map (·.2)) ++ supervisor.waiting.map (·.2)
          List.Perm _ ((supervisor.ready ++ (id :: supervisor.sleeping.map (·.2))) ++
              supervisor.waiting.map (·.2)) :=
              List.Perm.append_right _ (List.Perm.append_left _ hsleeping)
          List.Perm _ (id :: supervisor.queued) := by
              rw [List.append_assoc, List.cons_append, queued, List.append_assoc]
              exact List.perm_middle
      · cases hpark
  | wait event =>
      simp only [park] at hpark
      split at hpark
      · cases hpark
        exact hready
      · cases hpark
        simp only [queued, List.map_append, List.map_cons, List.map_nil, ← List.append_assoc]
        exact List.perm_append_singleton _ _

theorem park_eq_ok {supervisor after : Supervisor} {id : ContextId} {suspension : Suspension}
    {now : Instant} (hpark : supervisor.park id suspension now = .ok after) :
    after.active = supervisor.active ∧ after.retained = supervisor.retained ∧
      after.nextId = supervisor.nextId ∧ after.results = supervisor.results := by
  obtain ⟨_, _, _, _, rfl⟩ := park_frame hpark
  exact ⟨rfl, rfl, rfl, rfl⟩

/-! ## Turns -/

theorem remove_activeIds (supervisor : Supervisor) (id : ContextId) :
    (supervisor.remove id).activeIds = supervisor.activeIds.filter (· ≠ id) := by
  unfold activeIds
  rw [List.filter_map]
  rfl

theorem keep_activeIds (supervisor : Supervisor) (task : Task) :
    (supervisor.keep task).activeIds = supervisor.activeIds.filter (· ≠ task.id) ++ [task.id] := by
  rw [← remove_activeIds]
  exact List.map_append

theorem add_moves (supervisor : Supervisor) (function : ScriptFunction) (retain : Bool) :
    Moves (supervisor.ledger pending running)
      ((supervisor.add function retain).2.ledger pending running) := by
  unfold add
  split
  rename_i context session _
  split
  · exact .refl
  · rename_i prepared _
    have hperm : (pending ++ (supervisor.ready ++ [supervisor.nextId] ++
        supervisor.sleeping.map (·.2) ++ supervisor.waiting.map (·.2))).Perm
          (supervisor.nextId :: (pending ++ supervisor.queued)) := by
      simp only [queued, List.append_assoc, List.singleton_append]
      rw [← List.append_assoc, ← List.append_assoc pending]
      exact List.perm_middle
    have hmove := Move.register (supervisor.ledger pending running) retain _ hperm
    rw [show (supervisor.ledger pending running).active = supervisor.activeIds from rfl,
      show (supervisor.ledger pending running).nextId = supervisor.nextId from rfl,
      ← supervisor.keep_activeIds ⟨supervisor.nextId, prepared⟩] at hmove
    exact .single hmove

theorem spawn_moves (supervisor : Supervisor) (functions : List ScriptFunction) :
    Moves (supervisor.ledger pending running)
      ((supervisor.spawn functions).ledger pending running) :=
  foldl_moves (fun supervisor function => supervisor.add_moves function false) functions supervisor

theorem perform_moves (supervisor : Supervisor) (effects : Effects) :
    Moves (supervisor.ledger pending running)
      ((supervisor.perform effects).ledger pending running) :=
  ((supervisor.record effects).spawn_moves effects.spawned).trans
    (foldl_moves deliver_moves effects.signalled _)

theorem conclude_state? (supervisor : Supervisor) (id : ContextId) (state : ExecutionState)
    (context : Option Context) :
    (supervisor.conclude id state context).state? =
      (supervisor.ledger pending running).recording [id] state := by
  funext other
  unfold conclude recording
  by_cases hretained : id ∈ supervisor.retained
  · by_cases hother : other = id
    · subst hother
      simp [ledger, hretained, state?, result?]
    · simp [ledger, hretained, hother, state?, result?, Ne.symm hother]
  · have hnot : ¬ (other ∈ [id] ∧ other ∈ supervisor.retained) := by
      rintro ⟨hmem, hother⟩
      rw [List.mem_singleton.mp hmem] at hother
      exact hretained hother
    rw [if_neg hretained]
    exact (if_neg hnot).symm

/-- A conclusion changes nothing but the results. -/
theorem conclude_eq (supervisor : Supervisor) (id : ContextId) (state : ExecutionState)
    (context : Option Context) :
    ∃ results, supervisor.conclude id state context = { supervisor with results } := by
  unfold conclude
  split
  · exact ⟨_, rfl⟩
  · exact ⟨_, rfl⟩

theorem conclude_moves (supervisor : Supervisor) (id : ContextId) {state : ExecutionState}
    (hterminal : state.isTerminal = true) (context : Option Context) :
    Moves (supervisor.ledger pending [id])
      ((supervisor.conclude id state context).ledger pending []) := by
  have hmove := Move.conclude (supervisor.ledger pending [id]) id state hterminal rfl
  rw [← supervisor.conclude_state? id state context] at hmove
  obtain ⟨results, hresults⟩ := supervisor.conclude_eq id state context
  rw [hresults] at hmove ⊢
  exact .single hmove

/-- A context that ends without being retained leaves no trace. -/
theorem forget_moves (supervisor : Supervisor) (id : ContextId) (session : Session)
    (hretained : id ∉ supervisor.retained) :
    Moves (supervisor.ledger pending [id])
      (Supervisor.ledger { supervisor with session } pending []) := by
  have hmoves : Moves (supervisor.ledger pending [id])
      ((supervisor.conclude id .aborted none).ledger pending []) :=
    supervisor.conclude_moves id rfl none
  rw [conclude, if_neg hretained] at hmoves
  exact hmoves

theorem park_moves {supervisor after : Supervisor} {task : Task} {suspension : Suspension}
    {now : Instant} (hpark : (supervisor.keep task).park task.id suspension now = .ok after) :
    Moves (supervisor.ledger pending [task.id]) (after.ledger pending []) := by
  have hqueued := park_queued hpark
  obtain ⟨hactive, hretained, hnextId, hresults⟩ := park_eq_ok hpark
  have hperm : (pending ++ after.queued).Perm (task.id :: (pending ++ supervisor.queued)) :=
    (hqueued.append_left pending).trans List.perm_middle
  have hmove := Move.suspend (supervisor.ledger pending [task.id]) task.id _ rfl hperm
  rw [show (supervisor.ledger pending [task.id]).active = supervisor.activeIds from rfl,
    ← keep_activeIds] at hmove
  have hledger : after.ledger pending [] =
      { supervisor.ledger pending [task.id] with
        queued := pending ++ after.queued
        running := []
        active := (supervisor.keep task).activeIds } := by
    unfold ledger activeIds state? result?
    rw [hactive, hretained, hnextId, hresults]
    rfl
  rw [hledger]
  exact .single hmove

theorem settle_moves {supervisor after : Supervisor} {task : Task} {state : ExecutionState}
    {now : Instant} (hsettle : supervisor.settle task state now = .ok after) :
    Moves (supervisor.ledger pending [task.id]) (after.ledger pending []) := by
  unfold settle at hsettle
  split at hsettle
  · exact park_moves hsettle
  · cases hsettle
    exact supervisor.conclude_moves _ rfl _
  · rename_i hsuspended _
    have hterminal : state.isTerminal = true := by
      cases state with
      | suspended suspension => exact (hsuspended suspension rfl).elim
      | finished | exception | aborted => rfl
    split at hsettle
    · cases hsettle
      exact supervisor.conclude_moves _ hterminal _
    · rename_i hretained
      cases hsettle
      exact supervisor.forget_moves _ _ hretained

theorem remove_moves (supervisor : Supervisor) (id : ContextId) :
    Moves (supervisor.ledger (id :: pending) []) ((supervisor.remove id).ledger pending [id]) := by
  have hstart := Move.start (supervisor.ledger (id :: pending) []) id
    (pending ++ supervisor.queued) rfl rfl
  rw [show (supervisor.ledger (id :: pending) []).active = supervisor.activeIds from rfl,
    ← remove_activeIds] at hstart
  exact .single hstart

theorem turn_moves {supervisor after : Supervisor} {id : ContextId} {context : Context}
    (hturn : (supervisor.remove id).turn { id, context } = .ok after) :
    Moves (supervisor.ledger (id :: pending) []) (after.ledger pending []) := by
  have hperform : Moves ((supervisor.remove id).ledger pending [id]) _ :=
    (supervisor.remove id).readClock.2.perform_moves
      (context.resume (supervisor.remove id).readClock.2.session.engine.program).2.1
  exact (supervisor.remove_moves id).trans (hperform.trans (settle_moves hturn))

/-! ## Passes -/

/-- The results after the end of several contexts. -/
theorem foldl_conclude (pending running : List ContextId) (tasks : List Task)
    (supervisor : Supervisor) :
    ∃ results,
      tasks.foldl (fun supervisor task => supervisor.conclude task.id .aborted none) supervisor =
          { supervisor with results } ∧
        Supervisor.state? { supervisor with results } =
          (supervisor.ledger pending running).recording (tasks.map (·.id)) .aborted := by
  induction tasks generalizing supervisor with
  | nil => exact ⟨supervisor.results, rfl, by funext id; simp [recording, ledger]⟩
  | cons task tasks ih =>
      obtain ⟨first, hfirst⟩ := supervisor.conclude_eq task.id .aborted none
      have hstate : (supervisor.conclude task.id .aborted none).state? =
          (supervisor.ledger pending running).recording [task.id] .aborted :=
        supervisor.conclude_state? task.id .aborted none
      obtain ⟨results, hresults, hrest⟩ := ih { supervisor with results := first }
      refine ⟨results, ?_, ?_⟩
      · rw [List.foldl_cons, hfirst, hresults]
      · rw [hfirst] at hstate
        rw [hrest]
        funext id
        have hid := congrFun hstate id
        simp only [recording, ledger, List.mem_singleton] at hid
        simp only [recording, ledger, List.map_cons, List.mem_cons, hid]
        by_cases hlater : id ∈ tasks.map (·.id) ∧ id ∈ supervisor.retained
        · simp [hlater.1, hlater.2]
        · by_cases hretained : id ∈ supervisor.retained
          · have hnot : id ∉ tasks.map (·.id) := fun hmem => hlater ⟨hmem, hretained⟩
            simp [hnot, hretained]
          · simp [hretained]

/-- The active contexts that are to be retained end as aborted ones. -/
theorem abortAll_state? (supervisor : Supervisor) :
    supervisor.abortAll.state? =
      (supervisor.ledger [] []).recording supervisor.activeIds .aborted := by
  obtain ⟨results, hresults, hstate⟩ := foldl_conclude [] [] supervisor.active
    { supervisor with active := [], ready := [], sleeping := [], waiting := [] }
  rw [abortAll, hresults]
  exact hstate

theorem abortAll_moves (supervisor : Supervisor) :
    Moves (supervisor.ledger pending []) (supervisor.abortAll.ledger [] []) := by
  obtain ⟨results, hresults, hstate⟩ := foldl_conclude pending [] supervisor.active
    { supervisor with active := [], ready := [], sleeping := [], waiting := [] }
  have hmove := Move.abort (supervisor.ledger pending []) rfl
  unfold abortAll
  rw [hresults]
  apply Relation.ReflTransGen.single
  have hfinal : (supervisor.ledger pending []).recording
      (supervisor.ledger pending []).active .aborted =
        Supervisor.state?
          { supervisor with active := [], ready := [], sleeping := [], waiting := [], results } :=
    hstate.symm
  rw [hfinal] at hmove
  exact hmove

theorem mem_activeIds_iff (supervisor : Supervisor) (id : ContextId) :
    id ∈ supervisor.activeIds ↔ (supervisor.context? id).isSome := by
  unfold activeIds context?
  rw [Option.isSome_map, List.find?_isSome, List.mem_map]
  simp only [decide_eq_true_eq]

theorem turnAmid_moves {outside : ContextId → Option Int32} {supervisor after : Supervisor}
    {id : ContextId} {context : Context}
    (hturn : (supervisor.remove id).turnAmid outside { id, context } = .ok after) :
    Moves (supervisor.ledger (id :: pending) []) (after.ledger pending []) := by
  obtain ⟨next, hnext, rfl⟩ := turnAmid_eq_ok hturn
  have hmoves : Moves (supervisor.ledger (id :: pending) []) (next.ledger pending []) :=
    turn_moves hnext
  exact hmoves

/-- The turns of a pass are moves.  Each id finds its context, since the books are
balanced. -/
theorem runQueueAmid_moves {outside : ContextId → Option Int32} {supervisor after : Supervisor}
    {ids : List ContextId} {more : Bool} (hbalanced : Balanced (supervisor.ledger ids []))
    (hrun : supervisor.runQueueAmid outside ids = .ok (more, after)) :
    Moves (supervisor.ledger ids []) (after.ledger [] []) := by
  induction ids generalizing supervisor with
  | nil =>
      cases hrun
      exact .refl
  | cons id remaining ih =>
      have hactive : id ∈ supervisor.activeIds := hbalanced.queued.subset List.mem_cons_self
      obtain ⟨context, hcontext⟩ :=
        Option.isSome_iff_exists.mp ((supervisor.mem_activeIds_iff id).mp hactive)
      rw [runQueueAmid, hcontext] at hrun
      cases hturn : (supervisor.remove id).turnAmid outside { id, context } with
      | error interruption => simp [hturn] at hrun
      | ok next =>
          have hmoves : Moves (supervisor.ledger (id :: remaining) []) (next.ledger remaining []) :=
            turnAmid_moves hturn
          simp only [hturn] at hrun
          split at hrun
          · cases hrun
            exact hmoves.trans next.abortAll_moves
          · exact hmoves.trans (ih (hmoves.balanced_and_continues hbalanced).1 hrun)

theorem idle_moves (supervisor : Supervisor) :
    Moves (supervisor.ledger pending running) (supervisor.idle.2.ledger pending running) := by
  obtain ⟨_, hidle⟩ := supervisor.idle_eq
  rw [hidle]
  exact .refl

/-- A pass takes the ready contexts out of their queue. -/
theorem takeReady_moves (supervisor : Supervisor) :
    Moves (supervisor.ledger [] [])
      (Supervisor.ledger { supervisor with ready := [] } supervisor.ready []) :=
  supervisor.requeue_moves _ _ _ _ (.of_eq (by simp [queued]))

theorem passAmid_moves {outside : ContextId → Option Int32} {supervisor after : Supervisor}
    {more : Bool} (hbalanced : Balanced (supervisor.ledger [] []))
    (hpass : supervisor.passAmid outside = .ok (more, after)) :
    Moves (supervisor.ledger [] []) (after.ledger [] []) := by
  unfold passAmid at hpass
  split at hpass
  · cases hpass
    exact supervisor.abortAll_moves
  · have hrefreshed : Moves (supervisor.ledger [] []) (supervisor.refresh.ledger [] []) :=
      supervisor.refresh_moves
    simp only at hpass
    generalize supervisor.refresh = next at hpass hrefreshed
    split at hpass
    · have hafter := (Prod.ext_iff.mp (Except.ok.inj hpass)).2
      change _ = after at hafter
      split at hafter
      · rw [← hafter]
        exact hrefreshed
      · rw [← hafter]
        exact hrefreshed.trans next.idle_moves
    · have hturns : Moves (supervisor.ledger [] []) _ := hrefreshed.trans next.takeReady_moves
      exact hturns.trans (runQueueAmid_moves (hturns.balanced_and_continues hbalanced).1 hpass)

theorem pass_moves {supervisor after : Supervisor} {more : Bool}
    (hbalanced : Balanced (supervisor.ledger [] [])) (hpass : supervisor.pass = .ok (more, after)) :
    Moves (supervisor.ledger [] []) (after.ledger [] []) := by
  rw [← passAmid_undisturbed] at hpass
  exact passAmid_moves hbalanced hpass

end ScriptBundle.Supervisor
