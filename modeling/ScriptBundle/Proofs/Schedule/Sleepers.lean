import Mathlib.Data.List.Sort
import ScriptBundle.Proofs.Schedule.Queueing

/-!
# Sleepers

The sleeping contexts stand in the order of their deadlines, and in the order of their ids
where deadlines are the same.  If the readings of the clock do not go back, a context that
goes to sleep is not ready before its deadline, and the first pass after the deadline makes
it ready.
-/

namespace ScriptBundle

open Ledger

/-! ## The order of the sleepers -/

/-- A sleeper comes before another one by its deadline, and by its id within a deadline. -/
def Sooner (first second : Instant × ContextId) : Prop :=
  first.1 < second.1 ∨ first.1 = second.1 ∧ first.2 ≤ second.2

instance : DecidableRel Sooner := fun first second =>
  inferInstanceAs (Decidable (first.1 < second.1 ∨ first.1 = second.1 ∧ first.2 ≤ second.2))

instance : Std.Total Sooner where
  total first second := by
    rcases Nat.lt_trichotomy first.1 second.1 with hlt | heq | hgt
    · exact .inl (.inl hlt)
    · exact (Nat.le_total first.2 second.2).imp (.inr ⟨heq, ·⟩) (.inr ⟨heq.symm, ·⟩)
    · exact .inr (.inl hgt)

instance : IsTrans (Instant × ContextId) Sooner where
  trans first second third hleft hright := by
    rcases hleft with hlt | ⟨heq, hle⟩
    · exact .inl (Nat.lt_of_lt_of_le hlt (hright.elim Nat.le_of_lt fun h => Nat.le_of_eq h.1))
    · rcases hright with hlt' | ⟨heq', hle'⟩
      · exact .inl (Nat.lt_of_le_of_lt (Nat.le_of_eq heq) hlt')
      · exact .inr ⟨heq.trans heq', Nat.le_trans hle hle'⟩

theorem Sooner.le {first second : Instant × ContextId} (hsooner : Sooner first second) :
    first.1 ≤ second.1 :=
  hsooner.elim Nat.le_of_lt fun heq => Nat.le_of_eq heq.1

namespace Supervisor

theorem insertSleeper_eq (deadline : Instant) (id : ContextId)
    (entries : List (Instant × ContextId)) :
    insertSleeper deadline id entries = entries.orderedInsert Sooner (deadline, id) := by
  induction entries with
  | nil => rfl
  | cons entry entries ih =>
      rw [insertSleeper, List.orderedInsert_cons, ih]
      rfl

theorem mem_insertSleeper {deadline : Instant} {id : ContextId} {entry : Instant × ContextId}
    {entries : List (Instant × ContextId)} :
    entry ∈ insertSleeper deadline id entries ↔ entry = (deadline, id) ∨ entry ∈ entries := by
  rw [insertSleeper_eq]
  exact List.mem_orderedInsert Sooner

/-- Among sleepers in order, those whose deadline has come are in front. -/
theorem split_due {entries : List (Instant × ContextId)} (hordered : entries.Pairwise Sooner)
    (now : Instant) :
    (entries.takeWhile fun entry => entry.1 ≤ now) = entries.filter (fun entry => entry.1 ≤ now) ∧
      (entries.drop (entries.takeWhile fun entry => entry.1 ≤ now).length) =
        entries.filter fun entry => now < entry.1 := by
  induction entries with
  | nil => exact ⟨rfl, rfl⟩
  | cons entry entries ih =>
      obtain ⟨hfirst, hrest⟩ := List.pairwise_cons.mp hordered
      obtain ⟨htake, hdrop⟩ := ih hrest
      by_cases hdue : entry.1 ≤ now
      · have hearly : ¬now < entry.1 := Nat.not_lt.mpr hdue
        simp only [List.takeWhile_cons, List.filter_cons, hdue, hearly, decide_true, decide_false,
          if_true, Bool.false_eq_true, if_false, List.length_cons, List.drop_succ_cons]
        exact ⟨congrArg _ htake, hdrop⟩
      · have hlate : ∀ other ∈ entry :: entries, now < other.1 := by
          intro other hother
          rcases List.mem_cons.mp hother with rfl | hother
          · exact Nat.lt_of_not_le hdue
          · exact Nat.lt_of_lt_of_le (Nat.lt_of_not_le hdue) (hfirst other hother).le
        have hnone : (entry :: entries).filter (fun other => other.1 ≤ now) = [] :=
          List.filter_eq_nil_iff.mpr fun other hother => by simpa using hlate other hother
        have hall : (entry :: entries).filter (fun other => now < other.1) = entry :: entries :=
          List.filter_eq_self.mpr fun other hother => by simpa using hlate other hother
        have htaken : (entry :: entries).takeWhile (fun other => other.1 ≤ now) = [] :=
          List.takeWhile_cons_of_neg (by simpa using hdue)
        rw [hnone, hall, htaken]
        exact ⟨rfl, rfl⟩

/-- The sleepers stand in their order, and the clock can show their deadlines. -/
structure Ordered (supervisor : Supervisor) : Prop where
  sorted : supervisor.sleeping.Pairwise Sooner
  representable : ∀ entry ∈ supervisor.sleeping, entry.1 < clockEnd

theorem Ordered.of_sublist {supervisor after : Supervisor} (hordered : supervisor.Ordered)
    (hsleeping : after.sleeping.Sublist supervisor.sleeping) : after.Ordered where
  sorted := hordered.sorted.sublist hsleeping
  representable entry hentry := hordered.representable entry (hsleeping.subset hentry)

/-! ## Going to sleep -/

end Supervisor

/-- The deadline of a context that goes to sleep at the end of its turn. -/
def TurnStart.deadline? (start : TurnStart) : Option Instant :=
  match (start.task.context.resume start.supervisor.session.engine.program).2.2 with
  | .suspended (.sleep duration) => some (start.supervisor.clock.read.1 + duration.inNanoseconds)
  | _ => none

namespace Supervisor

variable {supervisor after last : Supervisor} {starts : List TurnStart} {more : Bool}

theorem perform_time (supervisor : Supervisor) (effects : Effects) :
    (supervisor.perform effects).clock = supervisor.clock ∧
      (supervisor.perform effects).sleeping = supervisor.sleeping := by
  obtain ⟨_, _, _, _, hspawned, -⟩ := (supervisor.record effects).spawn_frame effects.spawned
  obtain ⟨_, _, _, hdelivered⟩ :=
    foldl_deliver_eq effects.signalled ((supervisor.record effects).spawn effects.spawned)
  rw [perform, hdelivered, hspawned]
  exact ⟨rfl, rfl⟩

theorem conclude_time (supervisor : Supervisor) (id : ContextId) (state : ExecutionState)
    (context : Option Context) :
    (supervisor.conclude id state context).clock = supervisor.clock ∧
      (supervisor.conclude id state context).sleeping = supervisor.sleeping := by
  obtain ⟨results, hconclude⟩ := supervisor.conclude_eq id state context
  rw [hconclude]
  exact ⟨rfl, rfl⟩

/-- Nothing but a sleep that the clock can measure changes the sleepers at the end of a turn. -/
theorem settle_time {task : Task} {state : ExecutionState} {now : Instant}
    (hsettle : supervisor.settle task state now = .ok after) :
    after.clock = supervisor.clock ∧
      match state with
      | .suspended (.sleep duration) => now + duration.inNanoseconds < clockEnd ∧
          after.sleeping =
            insertSleeper (now + duration.inNanoseconds) task.id supervisor.sleeping
      | _ => after.sleeping = supervisor.sleeping := by
  match state with
  | .suspended .yield =>
      cases hsettle
      exact ⟨rfl, rfl⟩
  | .suspended (.wait event) =>
      rw [settle_wait] at hsettle
      cases hsettle
      split <;> exact ⟨rfl, rfl⟩
  | .suspended (.sleep duration) =>
      simp only [settle, park] at hsettle
      split at hsettle <;> cases hsettle
      rename_i hdeadline
      exact ⟨rfl, hdeadline, rfl⟩
  | .aborted =>
      cases hsettle
      exact supervisor.conclude_time _ _ _
  | .finished _ | .exception _ =>
      simp only [settle] at hsettle
      split at hsettle <;> cases hsettle
      · exact supervisor.conclude_time _ _ _
      · exact ⟨rfl, rfl⟩

/-- A turn reads the clock once, and its context goes to sleep at the most. -/
theorem turn_time {task : Task} (hturn : supervisor.turn task = .ok after) :
    after.clock = supervisor.clock.read.2 ∧
      match TurnStart.deadline? ⟨supervisor, task⟩ with
      | some deadline => deadline < clockEnd ∧
          after.sleeping = insertSleeper deadline task.id supervisor.sleeping
      | none => after.sleeping = supervisor.sleeping := by
  rcases hresume : task.context.resume supervisor.session.engine.program with
    ⟨context, effects, state⟩
  obtain ⟨hclock, hsleeping⟩ := supervisor.readClock.2.perform_time effects
  rw [turn_eq hresume] at hturn
  obtain ⟨hsettled, hslept⟩ := settle_time hturn
  rw [hsleeping] at hslept
  refine ⟨hsettled.trans hclock, ?_⟩
  rw [TurnStart.deadline?, hresume]
  match state with
  | .suspended (.sleep duration) => exact hslept
  | .suspended .yield | .suspended (.wait event) | .finished _ | .exception _ | .aborted =>
      exact hslept

namespace Round

theorem later (hround : supervisor.Round starts last) : supervisor.clock.Later last.clock := by
  induction hround with
  | done => exact .refl _
  | @turn supervisor next last id context starts hcontext hturn hrest ih =>
      obtain ⟨hclock, -⟩ := turn_time hturn
      have hnext : supervisor.clock.Later next.clock := by
        rw [hclock]
        exact supervisor.clock.later_read
      exact hnext.trans ih

theorem ordered (hround : supervisor.Round starts last) (hordered : supervisor.Ordered) :
    last.Ordered := by
  induction hround with
  | done => exact hordered
  | @turn supervisor next last id context starts hcontext hturn hrest ih =>
      apply ih
      obtain ⟨-, hslept⟩ := turn_time hturn
      split at hslept
      · rename_i deadline _
        obtain ⟨hdeadline, hsleeping⟩ := hslept
        constructor
        case sorted =>
          rw [hsleeping, insertSleeper_eq]
          exact hordered.sorted.orderedInsert _ _
        case representable =>
          intro entry hentry
          rw [hsleeping] at hentry
          rcases mem_insertSleeper.mp hentry with rfl | hold
          · exact hdeadline
          · exact hordered.representable entry hold
      · apply hordered.of_sublist
        rw [hslept]
        exact .refl _

/-- Nobody wakes up in the middle of a round. -/
theorem sleeping_subset (hround : supervisor.Round starts last) :
    supervisor.sleeping ⊆ last.sleeping := by
  induction hround with
  | done => exact List.Subset.refl _
  | @turn supervisor next last id context starts hcontext hturn hrest ih =>
      obtain ⟨-, hslept⟩ := turn_time hturn
      refine List.Subset.trans (fun entry hentry => ?_) ih
      split at hslept
      · rw [hslept.2]
        exact mem_insertSleeper.mpr (.inr hentry)
      · rw [hslept]
        exact hentry

/-- A context that goes to sleep in a round sleeps at its end. -/
theorem mem_sleeping (hround : supervisor.Round starts last) {start : TurnStart}
    (hstart : start ∈ starts) {deadline : Instant} (hdeadline : start.deadline? = some deadline) :
    (deadline, start.task.id) ∈ last.sleeping := by
  induction hround with
  | done => exact (List.not_mem_nil hstart).elim
  | @turn supervisor next last id context starts hcontext hturn hrest ih =>
      rcases List.mem_cons.mp hstart with rfl | hstart
      · obtain ⟨-, hslept⟩ := turn_time hturn
        rw [hdeadline] at hslept
        apply hrest.sleeping_subset
        rw [hslept.2]
        exact mem_insertSleeper.mpr (.inl rfl)
      · exact ih hstart

end Round

/-! ## Waking up -/

theorem refresh_sleeping (supervisor : Supervisor) :
    supervisor.refresh.sleeping = supervisor.sleeping.drop
      (supervisor.sleeping.takeWhile fun entry => entry.1 ≤ supervisor.clock.read.1).length := by
  obtain ⟨_, _, _, hcollect⟩ := supervisor.collect_eq
  calc supervisor.refresh.sleeping
    _ = supervisor.collect.sleeping.drop (supervisor.collect.sleeping.takeWhile fun entry =>
          entry.1 ≤ supervisor.collect.clock.read.1).length := rfl
    _ = _ := by rw [hcollect]

theorem opened_ordered (hordered : supervisor.Ordered) : supervisor.opened.Ordered := by
  apply hordered.of_sublist
  change supervisor.refresh.sleeping.Sublist supervisor.sleeping
  rw [refresh_sleeping]
  exact List.drop_sublist _ _

/-- A pass wakes the sleepers whose deadline has come, in their order, and puts them behind
those that are ready already. -/
structure WakesInOrder (supervisor : Supervisor) : Prop where
  ready_eq : supervisor.refresh.ready =
    supervisor.ready ++ supervisor.board.woken supervisor.inbox ++
      (supervisor.sleeping.filter fun entry => entry.1 ≤ supervisor.clock.read.1).map (·.2)
  sorted : (supervisor.sleeping.filter fun entry =>
    entry.1 ≤ supervisor.clock.read.1).Pairwise Sooner
  nodup : supervisor.refresh.ready.Nodup
  sleeping_eq : supervisor.refresh.sleeping =
    supervisor.sleeping.filter fun entry => supervisor.clock.read.1 < entry.1

theorem wakesInOrder (hbalanced : Balanced (supervisor.ledger [] []))
    (hordered : supervisor.Ordered) : supervisor.WakesInOrder := by
  obtain ⟨htake, hdrop⟩ := split_due hordered.sorted supervisor.clock.read.1
  constructor
  case ready_eq => rw [refresh_ready, due, htake]
  case sorted => exact hordered.sorted.sublist List.filter_sublist
  case nodup => exact ready_nodup (refresh_balanced hbalanced)
  case sleeping_eq => rw [refresh_sleeping, hdrop]

/-! ## Passes and other requests -/

theorem abortAll_ordered (supervisor : Supervisor) : supervisor.abortAll.Ordered := by
  obtain ⟨results, habort⟩ := supervisor.abortAll_frame
  rw [habort]
  exact ⟨List.Pairwise.nil, List.forall_mem_nil _⟩

theorem abortAll_clock (supervisor : Supervisor) :
    supervisor.abortAll.clock = supervisor.clock := by
  obtain ⟨results, habort⟩ := supervisor.abortAll_frame
  rw [habort]

theorem pass_ordered (hbalanced : Balanced (supervisor.ledger [] []))
    (hordered : supervisor.Ordered) (hpass : supervisor.pass = .ok (more, after)) :
    after.Ordered := by
  obtain ⟨first, last, hfirst, hround, hending⟩ := pass_rounds hbalanced hpass
  have hopened : first.Ordered := by
    rcases hfirst with rfl | rfl
    · exact hordered
    · exact opened_ordered hordered
  rcases hending with rfl | ⟨clock, -, rfl⟩
  · exact last.abortAll_ordered
  · exact ⟨(hround.ordered hopened).sorted, (hround.ordered hopened).representable⟩

theorem pass_later (hbalanced : Balanced (supervisor.ledger [] []))
    (hpass : supervisor.pass = .ok (more, after)) : supervisor.clock.Later after.clock := by
  obtain ⟨first, last, hfirst, hround, hending⟩ := pass_rounds hbalanced hpass
  have hopened : supervisor.clock.Later first.clock := by
    rcases hfirst with rfl | rfl
    · exact .refl _
    · rw [opened, refresh_clock]
      exact supervisor.clock.later_read
  have hlast := hopened.trans hround.later
  rcases hending with rfl | ⟨clock, hlater, rfl⟩
  · rw [abortAll_clock]
    exact hlast
  · exact hlast.trans hlater

/-- Requests other than a pass let the sleepers sleep, or end them. -/
theorem handle_time {request : Request} (hhandle : supervisor.handle request = .ok after)
    (hpass : request ≠ .pass) :
    after.clock = supervisor.clock ∧
      (after.sleeping = supervisor.sleeping ∨ request = .abortAll ∧ after.sleeping = []) := by
  cases request with
  | pass => exact (hpass rfl).elim
  | add function retain =>
      cases hhandle
      unfold add
      split
      split <;> exact ⟨rfl, .inl rfl⟩
  | abortAll =>
      cases hhandle
      obtain ⟨results, habort⟩ := supervisor.abortAll_frame
      rw [habort]
      exact ⟨rfl, .inr ⟨rfl, rfl⟩⟩
  | send | exit | takeContext | addSender | dropSender | share =>
      cases hhandle
      exact ⟨rfl, .inl rfl⟩

/-- What every request keeps is kept by all of them. -/
theorem handleAll_keeps (kept : Supervisor → Prop)
    (hstep : ∀ {supervisor after : Supervisor} {request : Request},
      Balanced (supervisor.ledger [] []) → supervisor.handle request = .ok after →
      kept supervisor → kept after)
    {requests : List Request} (hbalanced : Balanced (supervisor.ledger [] []))
    (hhandle : supervisor.handleAll requests = .ok after) (hkept : kept supervisor) :
    kept after := by
  induction requests generalizing supervisor with
  | nil =>
      cases hhandle
      exact hkept
  | cons request requests ih =>
      rw [handleAll] at hhandle
      split at hhandle
      · cases hhandle
      · rename_i next hnext
        have hmoves := handle_moves hbalanced hnext
        exact ih (hmoves.balanced_and_continues hbalanced).1 hhandle (hstep hbalanced hnext hkept)

theorem handle_pass {request : Request} (hhandle : supervisor.handle request = .ok after)
    (hrequest : request = .pass) : ∃ more, supervisor.pass = .ok (more, after) := by
  subst hrequest
  simp only [handle] at hhandle
  split at hhandle <;> cases hhandle
  rename_i hpass
  exact ⟨_, hpass⟩

theorem handle_ordered (hbalanced : Balanced (supervisor.ledger [] [])) {request : Request}
    (hhandle : supervisor.handle request = .ok after) (hordered : supervisor.Ordered) :
    after.Ordered := by
  by_cases hrequest : request = .pass
  · obtain ⟨more, hpass⟩ := handle_pass hhandle hrequest
    exact pass_ordered hbalanced hordered hpass
  · obtain ⟨-, hsleeping | ⟨-, hnone⟩⟩ := handle_time hhandle hrequest
    · apply hordered.of_sublist
      rw [hsleeping]
    · apply hordered.of_sublist
      rw [hnone]
      exact List.nil_sublist _

theorem handle_later (hbalanced : Balanced (supervisor.ledger [] [])) {request : Request}
    (hhandle : supervisor.handle request = .ok after) : supervisor.clock.Later after.clock := by
  by_cases hrequest : request = .pass
  · obtain ⟨more, hpass⟩ := handle_pass hhandle hrequest
    exact pass_later hbalanced hpass
  · rw [(handle_time hhandle hrequest).1]
    exact .refl _

/-- A request to exit is not taken back. -/
theorem exit_of_handle {request : Request} (hhandle : supervisor.handle request = .ok after)
    (hexit : after.exit.requested = false) : supervisor.exit.requested = false := by
  cases request with
  | pass =>
      obtain ⟨more, hpass⟩ := handle_pass hhandle rfl
      exact exit_of_pass hpass hexit
  | add function retain =>
      cases hhandle
      rwa [add_exit] at hexit
  | abortAll =>
      cases hhandle
      rwa [abortAll_exit] at hexit
  | exit code =>
      cases hhandle
      cases hexit
  | send | takeContext | addSender | dropSender | share =>
      cases hhandle
      exact hexit

theorem exit_of_handleAll {requests : List Request}
    (hhandle : supervisor.handleAll requests = .ok after)
    (hexit : after.exit.requested = false) : supervisor.exit.requested = false := by
  induction requests generalizing supervisor with
  | nil =>
      cases hhandle
      exact hexit
  | cons request requests ih =>
      rw [handleAll] at hhandle
      split at hhandle
      · cases hhandle
      · rename_i next hnext
        exact exit_of_handle hnext (ih hhandle)

/-! ## Before the deadline -/

variable {deadline : Instant} {id : ContextId}

/-- A context that went to sleep sleeps on or has come to an end, as long as the clock does
not show its deadline. -/
def Rests (supervisor : Supervisor) (deadline : Instant) (id : ContextId) : Prop :=
  supervisor.clock.read.1 < deadline →
    (deadline, id) ∈ supervisor.sleeping ∨ id ∉ supervisor.activeIds ∧ id < supervisor.nextId

/-- A sleeper is an active context. -/
theorem lt_nextId_of_sleeping {pending : List ContextId}
    (hbalanced : Balanced (supervisor.ledger pending []))
    (hasleep : (deadline, id) ∈ supervisor.sleeping) : id < supervisor.nextId := by
  have hqueued : id ∈ pending ++ supervisor.queued := by
    simp only [queued, List.mem_append, List.mem_map]
    exact .inr (.inl (.inr ⟨(deadline, id), hasleep, rfl⟩))
  exact hbalanced.bounded id (.inl (hbalanced.queued.subset hqueued))

/-- A pass before the deadline of a sleeper lets it sleep, unless it ends all contexts. -/
theorem pass_asleep (hbalanced : Balanced (supervisor.ledger [] []))
    (hordered : supervisor.Ordered) (hpass : supervisor.pass = .ok (more, after))
    (hasleep : (deadline, id) ∈ supervisor.sleeping)
    (hearly : supervisor.clock.read.1 < deadline) :
    (deadline, id) ∈ after.sleeping ∨
      after.exit.requested = true ∧ id ∉ after.activeIds ∧ id < after.nextId := by
  have hcontinues := ((pass_moves hbalanced hpass).balanced_and_continues hbalanced).2
  have hbounded : id < after.nextId :=
    Nat.lt_of_lt_of_le (lt_nextId_of_sleeping hbalanced hasleep) hcontinues.nextId
  by_cases hexit : after.exit.requested = true
  · obtain ⟨-, hactive⟩ := pass_active hpass hexit
    refine .inr ⟨hexit, ?_, hbounded⟩
    rw [activeIds, hactive]
    exact List.not_mem_nil
  · rw [Bool.not_eq_true] at hexit
    obtain ⟨last, clock, hround, -, -, rfl⟩ := pass_round hbalanced hpass hexit
    have hopened : (deadline, id) ∈ supervisor.opened.sleeping := by
      rw [opened, (wakesInOrder hbalanced hordered).sleeping_eq]
      exact List.mem_filter.mpr ⟨hasleep, by simpa using hearly⟩
    exact .inl (hround.sleeping_subset hopened)

theorem handle_rests (hreadings : Monotone supervisor.clock.readings)
    (hbalanced : Balanced (supervisor.ledger [] [])) (hordered : supervisor.Ordered)
    {request : Request} (hhandle : supervisor.handle request = .ok after)
    (hrests : supervisor.Rests deadline id) : after.Rests deadline id := by
  intro hearly
  have hcontinues := ((handle_moves hbalanced hhandle).balanced_and_continues hbalanced).2
  have hbefore : supervisor.clock.read.1 < deadline :=
    Nat.lt_of_le_of_lt ((handle_later hbalanced hhandle).read_le hreadings) hearly
  rcases hrests hbefore with hasleep | ⟨hgone, hbounded⟩
  · by_cases hrequest : request = .pass
    · obtain ⟨more, hpass⟩ := handle_pass hhandle hrequest
      exact (pass_asleep hbalanced hordered hpass hasleep hbefore).imp_right And.right
    · obtain ⟨-, hsleeping | ⟨rfl, -⟩⟩ := handle_time hhandle hrequest
      · rw [hsleeping]
        exact .inl hasleep
      · cases hhandle
        have hbounded := lt_nextId_of_sleeping hbalanced hasleep
        obtain ⟨results, habort⟩ := supervisor.abortAll_frame
        rw [habort]
        exact .inr ⟨List.not_mem_nil, hbounded⟩
  · exact .inr ⟨(hcontinues.ended id hbounded hgone).1,
      Nat.lt_of_lt_of_le hbounded hcontinues.nextId⟩

/-- A context that rests is not among those that a pass makes ready. -/
theorem notMem_ready_of_rests (hbalanced : Balanced (supervisor.ledger [] []))
    (hordered : supervisor.Ordered) (hrests : supervisor.Rests deadline id)
    (hearly : supervisor.clock.read.1 < deadline) : id ∉ supervisor.refresh.ready := by
  intro hready
  have hrefreshed := refresh_balanced hbalanced
  rcases hrests hearly with hasleep | ⟨hgone, -⟩
  · have hnodup : (supervisor.refresh.ready ++ (supervisor.refresh.sleeping.map (·.2) ++
        supervisor.refresh.waiting.map (·.2))).Nodup := by
      rw [← List.append_assoc]
      exact queued_nodup hrefreshed
    have hsleeping : (deadline, id) ∈ supervisor.refresh.sleeping := by
      rw [(wakesInOrder hbalanced hordered).sleeping_eq]
      exact List.mem_filter.mpr ⟨hasleep, by simpa using hearly⟩
    exact (List.nodup_append.mp hnodup).2.2 id hready id
      (List.mem_append_left _ (List.mem_map.mpr ⟨_, hsleeping, rfl⟩)) rfl
  · have hqueued : id ∈ supervisor.refresh.queued :=
      List.mem_append_left _ (List.mem_append_left _ hready)
    have hactive : id ∈ supervisor.refresh.activeIds := hrefreshed.queued.subset hqueued
    rw [activeIds, refresh_active] at hactive
    exact hgone hactive

/-! ## At the deadline -/

/-- As long as no pass comes at its deadline or later, and nobody ends all contexts, a
sleeper sleeps. -/
theorem handleAll_asleep {requests : List Request}
    (hbalanced : Balanced (supervisor.ledger [] [])) (hordered : supervisor.Ordered)
    (hasleep : (deadline, id) ∈ supervisor.sleeping)
    (hhandle : supervisor.handleAll requests = .ok after)
    (hexit : after.exit.requested = false) (habort : .abortAll ∉ requests)
    (hearly : ∀ before rest state, requests = before ++ .pass :: rest →
      supervisor.handleAll before = .ok state → state.clock.read.1 < deadline) :
    (deadline, id) ∈ after.sleeping := by
  induction requests generalizing supervisor with
  | nil =>
      cases hhandle
      exact hasleep
  | cons request requests ih =>
      rw [List.mem_cons, not_or] at habort
      rw [handleAll] at hhandle
      split at hhandle
      · cases hhandle
      · rename_i next hnext
        have hmoves := handle_moves hbalanced hnext
        refine ih (hmoves.balanced_and_continues hbalanced).1
          (handle_ordered hbalanced hnext hordered) ?_ hhandle habort.2 ?_
        · by_cases hrequest : request = .pass
          · obtain ⟨more, hpass⟩ := handle_pass hnext hrequest
            have hbefore := hearly [] requests supervisor (by rw [hrequest]; rfl) rfl
            refine (pass_asleep hbalanced hordered hpass hasleep hbefore).resolve_right ?_
            rintro ⟨hrequested, -⟩
            rw [exit_of_handleAll hhandle hexit] at hrequested
            cases hrequested
          · obtain ⟨-, hsleeping | ⟨hends, -⟩⟩ := handle_time hnext hrequest
            · rw [hsleeping]
              exact hasleep
            · exact (habort.1 hends.symm).elim
        · intro before rest state hrequests hstate
          refine hearly (request :: before) rest state (by rw [hrequests]; rfl) ?_
          rw [handleAll, hnext]
          exact hstate

/-- What comes of a sleep, from the pass on in which the context has gone to sleep. -/
structure SleepsUntil (supervisor : Supervisor) (deadline : Instant) (id : ContextId) :
    Prop where
  /-- No pass before the deadline makes the context ready or gives it a turn. -/
  not_early : ∀ requests middle, supervisor.handleAll requests = .ok middle →
    middle.clock.read.1 < deadline →
      id ∉ middle.refresh.ready ∧ ∀ outside, id ∉ takers (middle.passStarts outside)
  /-- The first pass at the deadline or after it wakes the context. -/
  on_time : ∀ requests middle, supervisor.handleAll requests = .ok middle →
    .abortAll ∉ requests → middle.exit.requested = false →
    (∀ before rest state, requests = before ++ .pass :: rest →
      supervisor.handleAll before = .ok state → state.clock.read.1 < deadline) →
    deadline ≤ middle.clock.read.1 → id ∈ middle.due middle.clock.read.1

theorem sleepsUntil_of_rests (hreadings : Monotone supervisor.clock.readings)
    (hbalanced : Balanced (supervisor.ledger [] [])) (hordered : supervisor.Ordered)
    (hrests : supervisor.Rests deadline id)
    (hasleep : supervisor.exit.requested = false → (deadline, id) ∈ supervisor.sleeping) :
    supervisor.SleepsUntil deadline id := by
  constructor
  case not_early =>
    intro requests middle hmiddle hearly
    have hbalanced' := ((handleAll_moves hbalanced hmiddle).balanced_and_continues hbalanced).1
    obtain ⟨-, hordered', hrests'⟩ : Monotone middle.clock.readings ∧ middle.Ordered ∧
        middle.Rests deadline id := by
      refine handleAll_keeps
        (fun state => Monotone state.clock.readings ∧ state.Ordered ∧ state.Rests deadline id) ?_
        hbalanced hmiddle ⟨hreadings, hordered, hrests⟩
      rintro supervisor after request hbalanced hhandle ⟨hreadings, hordered, hrests⟩
      refine ⟨?_, handle_ordered hbalanced hhandle hordered,
        handle_rests hreadings hbalanced hordered hhandle hrests⟩
      rw [(handle_later hbalanced hhandle).readings]
      exact hreadings
    have hready := notMem_ready_of_rests hbalanced' hordered' hrests' hearly
    exact ⟨hready, fun outside htaker => hready ((takers_passStarts outside middle).subset htaker)⟩
  case on_time =>
    intro requests middle hmiddle habort hexit hearly hdue
    have hordered' : middle.Ordered :=
      handleAll_keeps Ordered (fun hbalanced hhandle => handle_ordered hbalanced hhandle) hbalanced
        hmiddle hordered
    have hstill := handleAll_asleep hbalanced hordered
      (hasleep (exit_of_handleAll hmiddle hexit)) hmiddle hexit habort hearly
    rw [due, (split_due hordered'.sorted _).1]
    exact List.mem_map.mpr
      ⟨(deadline, id), List.mem_filter.mpr ⟨hstill, by simpa using hdue⟩, rfl⟩

/-- A context that goes to sleep in a pass sleeps at its end, unless the pass ends all
contexts. -/
theorem pass_sleeps (hbalanced : Balanced (supervisor.ledger [] []))
    (hpass : supervisor.pass = .ok (more, after)) {start : TurnStart}
    (hstart : start ∈ supervisor.passStarts undisturbed)
    (hdeadline : start.deadline? = some deadline) :
    (deadline, start.task.id) ∈ after.sleeping ∨
      after.exit.requested = true ∧ start.task.id ∉ after.activeIds ∧
        start.task.id < after.nextId := by
  have hexit : supervisor.exit.requested = false := by
    by_contra hrequested
    rw [Bool.not_eq_false] at hrequested
    rw [passStarts, if_pos hrequested] at hstart
    exact List.not_mem_nil hstart
  obtain ⟨last, pending, hround, hqueue, hending⟩ := pass_played hbalanced hexit hpass
  have hasleep := hround.mem_sleeping hstart hdeadline
  rcases hending with ⟨hrequested, rfl⟩ | ⟨-, -, clock, -, rfl⟩
  · have hopened := opened_balanced hbalanced
    rw [hqueue] at hopened
    have hbounded := lt_nextId_of_sleeping (hround.balanced hopened) hasleep
    obtain ⟨results, habort⟩ := last.abortAll_frame
    rw [habort]
    exact .inr ⟨hrequested, List.not_mem_nil, hbounded⟩
  · exact .inl hasleep

/-- Whatever is asked of a supervisor whose clock does not go back, a pass wakes the
sleepers in the order of their deadlines and ids, and a context that goes to sleep in a
pass takes no other turn until its deadline has come. -/
theorem sleep_untilDeadline (session : Session) {clock : Clock}
    (hreadings : Monotone clock.readings) (exit : ExitRequest) (idlePoll : Nat)
    {requests : List Request} {supervisor : Supervisor}
    (hreach : (create session clock exit idlePoll).handleAll requests = .ok supervisor) :
    supervisor.WakesInOrder ∧
      ∀ more after, supervisor.pass = .ok (more, after) →
        ∀ start ∈ supervisor.passStarts undisturbed, ∀ deadline,
          start.deadline? = some deadline →
            (takers (supervisor.passStarts undisturbed)).count start.task.id = 1 ∧
              after.SleepsUntil deadline start.task.id := by
  have hcreated := create_balanced session clock exit idlePoll
  have hbalanced := ((handleAll_moves hcreated hreach).balanced_and_continues hcreated).1
  have hempty : (create session clock exit idlePoll).Ordered :=
    ⟨List.Pairwise.nil, List.forall_mem_nil _⟩
  obtain ⟨hordered, hmonotone⟩ : supervisor.Ordered ∧ Monotone supervisor.clock.readings := by
    refine handleAll_keeps (fun state => state.Ordered ∧ Monotone state.clock.readings) ?_
      hcreated hreach ⟨hempty, hreadings⟩
    rintro supervisor after request hbalanced hhandle ⟨hordered, hreadings⟩
    refine ⟨handle_ordered hbalanced hhandle hordered, ?_⟩
    rw [(handle_later hbalanced hhandle).readings]
    exact hreadings
  refine ⟨wakesInOrder hbalanced hordered, ?_⟩
  intro more after hpass start hstart deadline hdeadline
  have hafter := ((pass_moves hbalanced hpass).balanced_and_continues hbalanced).1
  have hslept := pass_sleeps hbalanced hpass hstart hdeadline
  refine ⟨?_, sleepsUntil_of_rests ?_ hafter (pass_ordered hbalanced hordered hpass) ?_ ?_⟩
  · exact List.count_eq_one_of_mem (takers_nodup undisturbed hbalanced)
      (List.mem_map.mpr ⟨start, hstart, rfl⟩)
  · rw [(pass_later hbalanced hpass).readings]
    exact hmonotone
  · exact fun _ => hslept.imp_right And.right
  · intro hexit
    refine hslept.resolve_right ?_
    rintro ⟨hrequested, -⟩
    rw [hexit] at hrequested
    cases hrequested

/-- Three contexts go to sleep, two of them up to the same time.  The next pass comes too
early, the one after it wakes them. -/
theorem sleep_untilDeadline_three :
    let nap (span : UInt32) (hspan : span < 1000000000) : Request :=
      .add ⟨"void nap()", [.sleep ⟨0, span, hspan⟩, .finish .void]⟩ false
    let clock : Clock := { readings := fun index => 10 * index }
    let first := create (.ofEngine {} false) clock {} defaultIdlePoll
    let requests := [nap 45 (by decide), nap 35 (by decide), nap 20 (by decide)]
    ∃ supervisor after middle start later, first.handleAll requests = .ok supervisor ∧
      supervisor.pass = .ok (true, after) ∧ after.handle .pass = .ok middle ∧
      supervisor.passStarts undisturbed = start :: later ∧ start.task.id = 1 ∧
      start.deadline? = some 55 ∧ after.SleepsUntil 55 1 ∧
      after.clock.read.1 = 40 ∧ 1 ∉ after.refresh.ready ∧
      middle.clock.read.1 = 60 ∧ 1 ∈ middle.due 60 ∧ middle.refresh.ready = [3, 1, 2] := by
  intro nap clock first requests
  have hreadings : Monotone clock.readings := fun _ _ hle => Nat.mul_le_mul_left 10 hle
  obtain ⟨supervisor, hreach, hproperty⟩ := exists_eq_ok_of_any (first.handleAll requests)
    (fun supervisor =>
      ((supervisor.passStarts undisturbed).head?.any fun start =>
        start.task.id = 1 ∧ start.deadline? = some 55) ∧
      supervisor.pass.toOption.any fun (more, after) => more ∧ after.clock.read.1 = 40 ∧
        (after.handle .pass).toOption.any fun middle => middle.exit.requested = false ∧
          middle.clock.read.1 = 60 ∧ middle.refresh.ready = [3, 1, 2])
    (by decide +kernel)
  obtain ⟨hhead, hpassed⟩ := of_decide_eq_true hproperty
  obtain ⟨⟨more, after⟩, hpass, hafter⟩ := exists_eq_ok_of_any _ _ hpassed
  obtain ⟨rfl, hearly, hlater⟩ := of_decide_eq_true hafter
  obtain ⟨middle, hmiddle, hwoken⟩ := exists_eq_ok_of_any _ _ hlater
  obtain ⟨hexit, hreading, hready⟩ := of_decide_eq_true hwoken
  obtain ⟨start, later, hstarts⟩ : ∃ start later,
      supervisor.passStarts undisturbed = start :: later := by
    cases hstarts : supervisor.passStarts undisturbed with
    | nil => simp [hstarts] at hhead
    | cons start later => exact ⟨start, later, rfl⟩
  rw [hstarts] at hhead
  obtain ⟨hid, hdeadline⟩ := of_decide_eq_true hhead
  obtain ⟨-, hsleeps⟩ := sleep_untilDeadline _ hreadings _ _ hreach
  obtain ⟨-, hsleep⟩ := hsleeps true after hpass start
    (by rw [hstarts]; exact List.mem_cons_self) 55 hdeadline
  rw [hid] at hsleep
  have hnext : after.handleAll [.pass] = .ok middle := by rw [handleAll, hmiddle]; rfl
  have honly : ∀ before rest state, [Request.pass] = before ++ .pass :: rest →
      after.handleAll before = .ok state → state.clock.read.1 < 55 := by
    intro before rest state hsplit hstate
    cases before with
    | nil =>
        cases hstate
        rw [hearly]
        decide
    | cons request before => simp at hsplit
  have hdue := hsleep.on_time [.pass] middle hnext (by simp) hexit honly
    (by rw [hreading]; decide)
  rw [hreading] at hdue
  exact ⟨supervisor, after, middle, start, later, hreach, hpass, hmiddle, hstarts, hid, hdeadline,
    hsleep, hearly, (hsleep.not_early [] after rfl (by rw [hearly]; decide)).1, hreading, hdue,
    hready⟩

end Supervisor

end ScriptBundle
