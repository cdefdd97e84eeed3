import ScriptBundle.Proofs.Schedule.ExitCode
import ScriptBundle.Proofs.Schedule.Frames
import ScriptBundle.Proofs.Schedule.Moments

/-!
# Standstill

A supervisor is dead when no context is left, or when all that are left wait for events
that nobody can signal any more.  A pass that nobody asks to be the last tells that there
can be no other one only then, and from then on no pass changes anything.
-/

namespace ScriptBundle

open Ledger

namespace Supervisor

/-- All active contexts wait for events that are not latched, and nobody can send one. -/
structure Stuck (supervisor : Supervisor) : Prop where
  ready : supervisor.ready = []
  sleeping : supervisor.sleeping = []
  waiting : ∀ id ∈ supervisor.activeIds,
    ∃ event, (event, id) ∈ supervisor.waiting ∧ event ∉ supervisor.latched
  inbox : supervisor.inbox = []
  senders : supervisor.senders = 0

/-- No context can run any more. -/
def Dead (supervisor : Supervisor) : Prop :=
  supervisor.active = [] ∨ supervisor.Stuck

/-! ## What a pass begins with -/

theorem ready_of_refresh {supervisor : Supervisor} (hready : supervisor.refresh.ready = []) :
    supervisor.ready = [] := by
  obtain ⟨_, _, _, _, _, hrefresh⟩ := supervisor.refresh_eq
  rw [hrefresh] at hready
  exact (List.append_eq_nil_iff.mp hready).1

/-- A sleeper is woken or sleeps on. -/
theorem sleeping_of_refresh {supervisor : Supervisor} (hready : supervisor.refresh.ready = []) :
    supervisor.refresh.sleeping = supervisor.sleeping := by
  obtain ⟨_, _, _, hcollect⟩ := supervisor.collect_eq
  have hdue := List.map_eq_nil_iff.mp (List.append_eq_nil_iff.mp hready).2
  have hsleeping : supervisor.collect.sleeping = supervisor.sleeping := by rw [hcollect]
  calc supervisor.refresh.sleeping
    _ = supervisor.collect.sleeping.drop (List.length _) := rfl
    _ = supervisor.collect.sleeping := by rw [hdue]; rfl
    _ = supervisor.sleeping := hsleeping

theorem foldl_deliver_ready {events : List EventId} {supervisor : Supervisor} {event : EventId}
    (hevent : event ∈ events) (hparked : supervisor.parked event ≠ []) :
    (events.foldl deliver supervisor).ready ≠ [] := by
  induction events generalizing supervisor with
  | nil => exact (List.not_mem_nil hevent).elim
  | cons first events ih =>
      rw [List.foldl_cons]
      by_cases hfirst : first = event
      · obtain ⟨woken, waiting, latched, hrest⟩ :=
          foldl_deliver_eq events (supervisor.deliver first)
        rw [hrest, hfirst, deliver_eq, if_neg hparked]
        simp [hparked]
      · refine ih ((List.mem_cons.mp hevent).resolve_left (Ne.symm hfirst)) ?_
        rw [parked, board_deliver, Board.after]
        split
        · exact hparked
        · rw [Board.parked_filter_ne, if_neg (Ne.symm hfirst)]
          exact hparked

/-- An event that was sent wakes those who wait for it. -/
theorem parked_of_refresh {supervisor : Supervisor} (hready : supervisor.refresh.ready = [])
    {event : EventId} (hevent : event ∈ supervisor.inbox) : supervisor.parked event = [] := by
  by_contra hparked
  have hwoken : supervisor.collect.ready ≠ [] := foldl_deliver_ready hevent hparked
  exact hwoken (List.append_eq_nil_iff.mp hready).1

/-! ## What a pass comes to -/

/-- A pass that is not asked to be the last one finds nobody left, waits, or gives turns. -/
theorem pass_eq_ok {supervisor after : Supervisor} {more : Bool}
    (hexit : supervisor.exit.requested = false) (hpass : supervisor.pass = .ok (more, after)) :
    supervisor.refresh.ready = [] ∧ supervisor.active = [] ∧ more = false ∧
        after = supervisor.refresh ∨
      supervisor.refresh.ready = [] ∧ supervisor.active ≠ [] ∧
        (more, after) = supervisor.refresh.idle ∨
      supervisor.refresh.ready ≠ [] ∧
        runQueue { supervisor.refresh with ready := [] } supervisor.refresh.ready =
          .ok (more, after) := by
  rw [pass, if_neg (Bool.eq_false_iff.mp hexit)] at hpass
  simp only at hpass
  cases hready : supervisor.refresh.ready with
  | nil =>
      rw [hready] at hpass
      simp only [refresh_active] at hpass
      cases hactive : supervisor.active with
      | nil =>
          rw [hactive] at hpass
          cases hpass
          exact .inl ⟨rfl, rfl, rfl, rfl⟩
      | cons task tasks =>
          rw [hactive] at hpass
          exact .inr (.inl ⟨rfl, List.cons_ne_nil _ _, (Except.ok.inj hpass).symm⟩)
  | cons id remaining =>
      rw [hready] at hpass
      exact .inr (.inr ⟨List.cons_ne_nil _ _, hpass⟩)

/-- Unless the end is asked for, the turns of a pass leave room for another pass if they
leave a context. -/
theorem runQueue_more {supervisor after : Supervisor} {ids : List ContextId} {more : Bool}
    (hrun : supervisor.runQueue ids = .ok (more, after))
    (hexit : after.exit.requested = false) : more = !after.active.isEmpty := by
  induction ids generalizing supervisor with
  | nil =>
      cases hrun
      rfl
  | cons id remaining ih =>
      rw [runQueue] at hrun
      split at hrun
      · exact ih hrun
      · split at hrun
        · cases hrun
        · split at hrun
          · rename_i hrequested
            cases hrun
            rw [abortAll_exit, hrequested] at hexit
            cases hexit
          · exact ih hrun

theorem idle_eq_false {supervisor after : Supervisor}
    (hidle : supervisor.idle = (false, after)) :
    supervisor.sleeping = [] ∧ supervisor.senders = 0 ∧ after = supervisor := by
  unfold idle at hidle
  split at hidle
  · split at hidle
    · rename_i hsleeping hsenders
      exact ⟨hsleeping, hsenders, (Prod.ext_iff.mp hidle).2.symm⟩
    · cases hidle
  · cases hidle

theorem exit_of_pass {supervisor after : Supervisor} {more : Bool}
    (hpass : supervisor.pass = .ok (more, after)) (hexit : after.exit.requested = false) :
    supervisor.exit.requested = false := by
  by_contra hrequested
  rw [pass, if_pos (Bool.not_eq_false _ ▸ hrequested)] at hpass
  cases hpass
  exact hrequested (supervisor.abortAll_exit ▸ hexit)

/-! ## Dead supervisors -/

/-- If nothing is ready or asleep, the active contexts wait for events, which are not
latched. -/
theorem stuck_of_waiting {supervisor : Supervisor}
    (hbalanced : Balanced (supervisor.ledger [] [])) (hboard : supervisor.board.Exclusive)
    (hready : supervisor.ready = []) (hsleeping : supervisor.sleeping = [])
    (hinbox : supervisor.inbox = []) (hsenders : supervisor.senders = 0) : supervisor.Stuck where
  ready := hready
  sleeping := hsleeping
  inbox := hinbox
  senders := hsenders
  waiting id hid := by
    have hqueued : id ∈ supervisor.queued := hbalanced.queued.symm.subset hid
    rw [queued, hready, hsleeping] at hqueued
    obtain ⟨⟨event, id⟩, hentry, rfl⟩ := List.mem_map.mp hqueued
    refine ⟨event, hentry, fun hlatched => ?_⟩
    have hparked : id ∈ supervisor.parked event :=
      List.mem_map.mpr ⟨(event, id), List.mem_filter.mpr ⟨hentry, by simp⟩, rfl⟩
    rw [parked, hboard.parked_eq_nil event hlatched] at hparked
    exact List.not_mem_nil hparked

/-- A pass that is not asked to be the last one leaves a dead supervisor if it tells that
there can be no other one. -/
theorem pass_dead {supervisor after : Supervisor}
    (hbalanced : Balanced (supervisor.ledger [] [])) (hboard : supervisor.board.Exclusive)
    (hpass : supervisor.pass = .ok (false, after)) (hexit : after.exit.requested = false) :
    after.Dead := by
  rcases pass_eq_ok (exit_of_pass hpass hexit) hpass with
    ⟨-, hactive, -, rfl⟩ | ⟨hready, -, hidle⟩ | ⟨-, hrun⟩
  · exact .inl (supervisor.refresh_active.trans hactive)
  · obtain ⟨hsleeping, hsenders, rfl⟩ := idle_eq_false hidle.symm
    have hmoves : Moves (supervisor.ledger [] []) (supervisor.refresh.ledger [] []) :=
      supervisor.refresh_moves
    refine .inr (stuck_of_waiting (hmoves.balanced_and_continues hbalanced).1 ?_ hready hsleeping
      supervisor.refresh_inbox hsenders)
    rw [board_refresh]
    exact hboard.afterAll _
  · have hmore := runQueue_more hrun hexit
    exact .inl (List.isEmpty_iff.mp (by simpa using hmore.symm))

/-- If a context is ready or asleep, if an event was sent for which a context waits, or if
someone can send events to those that are left, a pass leaves room for another one unless
it leaves no context. -/
theorem pass_goes_on {supervisor after : Supervisor} {more : Bool}
    (hpass : supervisor.pass = .ok (more, after)) (hexit : after.exit.requested = false)
    (hlive : supervisor.ready ≠ [] ∨ supervisor.sleeping ≠ [] ∨
      (∃ event ∈ supervisor.inbox, supervisor.parked event ≠ []) ∨
      supervisor.active ≠ [] ∧ supervisor.senders ≠ 0) :
    more = true ↔ after.active ≠ [] := by
  rcases pass_eq_ok (exit_of_pass hpass hexit) hpass with
    ⟨-, hactive, rfl, rfl⟩ | ⟨hready, hactive, hidle⟩ | ⟨-, hrun⟩
  · rw [refresh_active, hactive]
    simp
  · have hmore : more = true := by
      by_contra hfalse
      rw [Bool.not_eq_true] at hfalse
      obtain ⟨hsleeping, hsenders, -⟩ := idle_eq_false (hfalse ▸ hidle.symm)
      rw [sleeping_of_refresh hready] at hsleeping
      rw [refresh_senders] at hsenders
      rcases hlive with hlive | hlive | ⟨event, hevent, hlive⟩ | ⟨-, hlive⟩
      · exact hlive (ready_of_refresh hready)
      · exact hlive hsleeping
      · exact hlive (parked_of_refresh hready hevent)
      · exact hlive hsenders
    have hafter : after.active = supervisor.active :=
      calc after.active
        _ = supervisor.refresh.idle.2.active := congrArg (·.2.active) hidle
        _ = supervisor.refresh.active := supervisor.refresh.idle_active
        _ = supervisor.active := supervisor.refresh_active
    rw [hafter]
    exact iff_of_true hmore hactive
  · rw [runQueue_more hrun hexit]
    cases after.active <;> simp

theorem ready_of_active {supervisor : Supervisor}
    (hbalanced : Balanced (supervisor.ledger [] [])) (hactive : supervisor.active = []) :
    supervisor.ready = [] := by
  have hqueued : supervisor.queued.Perm [] := by
    have hperm : supervisor.queued.Perm supervisor.activeIds := hbalanced.queued
    rwa [activeIds, hactive] at hperm
  have hnone := hqueued.eq_nil
  rw [queued, List.append_assoc] at hnone
  exact (List.append_eq_nil_iff.mp hnone).1

theorem idle_of_stuck {supervisor : Supervisor} (hstuck : supervisor.Stuck) :
    supervisor.idle = (false, supervisor) := by
  rw [idle]
  simp only [hstuck.sleeping, hstuck.senders, if_true]

theorem Stuck.withClock {supervisor : Supervisor} (hstuck : supervisor.Stuck) (clock : Clock) :
    Stuck { supervisor with clock } :=
  ⟨hstuck.ready, hstuck.sleeping, hstuck.waiting, hstuck.inbox, hstuck.senders⟩

/-- The beginning of a pass changes nothing but the clock of a stuck supervisor. -/
theorem Stuck.refresh {supervisor : Supervisor} (hstuck : supervisor.Stuck) :
    supervisor.refresh = { supervisor with clock := supervisor.clock.read.2 } := by
  change supervisor.collect.readClock.2.wake supervisor.collect.readClock.1 = _
  have hopened : { supervisor with inbox := [] } = supervisor := by rw [← hstuck.inbox]
  have hcollect : supervisor.collect = supervisor := by
    rw [collect, hopened, hstuck.inbox]
    rfl
  rw [hcollect, wake]
  simp [readClock, hstuck.sleeping]

/-- A pass over a dead supervisor gives no turn and leaves it dead. -/
theorem Dead.pass {supervisor : Supervisor} (hdead : supervisor.Dead)
    (hbalanced : Balanced (supervisor.ledger [] []))
    (hexit : supervisor.exit.requested = false) :
    supervisor.pass = .ok (false, supervisor.refresh) ∧
      supervisor.passStarts undisturbed = [] ∧ supervisor.refresh.Dead := by
  have hmoves : Moves (supervisor.ledger [] []) (supervisor.refresh.ledger [] []) :=
    supervisor.refresh_moves
  have hrefreshed := (hmoves.balanced_and_continues hbalanced).1
  have hready : supervisor.refresh.ready = [] := by
    rcases hdead with hactive | hstuck
    · exact ready_of_active hrefreshed (supervisor.refresh_active.trans hactive)
    · rw [hstuck.refresh]
      exact hstuck.ready
  refine ⟨?_, ?_, ?_⟩
  · rw [Supervisor.pass, if_neg (Bool.eq_false_iff.mp hexit)]
    simp only [hready, refresh_active]
    rcases hdead with hactive | hstuck
    · rw [hactive]
      rfl
    · rw [hstuck.refresh, idle_of_stuck (hstuck.withClock _), ite_self]
  · rw [passStarts, if_neg (Bool.eq_false_iff.mp hexit), hready]
    rfl
  · rcases hdead with hactive | hstuck
    · exact .inl (supervisor.refresh_active.trans hactive)
    · rw [hstuck.refresh]
      exact .inr (hstuck.withClock _)

end Supervisor

end ScriptBundle
