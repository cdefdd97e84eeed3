import ScriptBundle.Proofs.Schedule.Moments

/-!
# Wake-ups

No wake-up is lost, whatever the order of passes, signals, events from outside and waits.
The board of a supervisor follows from the occasions so far, so what holds of every
sequence of occasions holds of every use of a supervisor.
-/

namespace ScriptBundle

open Ledger

namespace Supervisor

/-! ## No wake-up is lost -/

theorem InOrder.queued_nodup {supervisor : Supervisor} (horder : supervisor.InOrder) :
    supervisor.queued.Nodup := by
  obtain ⟨pending, running, hbalanced⟩ := horder
  have hactive : supervisor.activeIds.Nodup := (List.nodup_append.mp hbalanced.nodup).2.1
  exact (List.nodup_append.mp (hbalanced.queued.nodup_iff.mpr hactive)).2.1

theorem InOrder.deliver {supervisor : Supervisor} (horder : supervisor.InOrder)
    (event : EventId) : (supervisor.deliver event).InOrder := by
  obtain ⟨pending, running, hbalanced⟩ := horder
  exact ⟨pending, running, ((supervisor.deliver_moves event).balanced_and_continues hbalanced).1⟩

/-- Nobody waits for an event that was just delivered. -/
theorem parked_deliver (supervisor : Supervisor) (event : EventId) :
    (supervisor.deliver event).parked event = [] := by
  rw [parked, board_deliver, Board.after]
  split
  · assumption
  · rw [Board.parked_filter_ne, if_pos rfl]

/-- Those whom a delivery wakes are ready once. -/
theorem count_ready_deliver {supervisor : Supervisor} (horder : supervisor.InOrder)
    {event : EventId} {id : ContextId} (hparked : id ∈ supervisor.parked event) :
    (supervisor.deliver event).ready.count id = 1 := by
  have hnodup : (supervisor.deliver event).ready.Nodup := by
    have hqueued := (horder.deliver event).queued_nodup
    rw [queued, List.append_assoc] at hqueued
    exact (List.nodup_append.mp hqueued).1
  apply List.count_eq_one_of_mem hnodup
  rw [deliver_eq, if_neg (List.ne_nil_of_mem hparked)]
  exact List.mem_append_right _ hparked

/-- No wake-up is lost.  At all moments of the use of a supervisor, and at its end, the
board follows from the occasions so far, and no event is latched while a context waits
for it.  A delivery makes all contexts ready that wait for the event, each of them once
and in the order they came, or latches the event.  A latched event lets the next context
that asks for it go on, and no further one unless it is delivered again. -/
theorem moments_wakeups (session : Session) (clock : Clock) (exit : ExitRequest)
    (idlePoll : Nat) (requests : List Request) :
    let first := create session clock exit idlePoll
    (∀ last, first.handleAll requests = .ok last →
      last.board = Board.afterAll {} (occasions (first.moments requests)) ∧
        ∀ event ∈ last.latched, last.parked event = []) ∧
    (∀ earlier moment later, first.moments requests = earlier ++ moment :: later →
      moment.before.board = Board.afterAll {} (occasions earlier) ∧
        ∀ event ∈ moment.before.latched, moment.before.parked event = []) ∧
    (∀ earlier before event later,
      first.moments requests = earlier ++ ⟨before, .delivery event⟩ :: later →
        before.parked event <:+ askers event (occasions earlier) ∧
        before.deliver event =
          (if before.parked event = [] then
            { before with latched := before.latched.insert event }
          else
            { before with
              ready := before.ready ++ before.parked event
              waiting := before.waiting.filter fun entry => entry.1 ≠ event }) ∧
        (before.deliver event).parked event = [] ∧
        ∀ id ∈ before.parked event, (before.deliver event).ready.count id = 1) ∧
    (∀ earlier before event id later,
      first.moments requests = earlier ++ ⟨before, .wait event id⟩ :: later →
        ∀ task now, task.id = id → before.settle task (.suspended (.wait event)) now =
          .ok (if event ∈ before.latched then
              { before.keep task with
                latched := before.latched.erase event
                ready := before.ready ++ [id] }
            else
              { before.keep task with waiting := before.waiting ++ [(event, id)] })) ∧
    (∀ earlier latching event between asking id later,
      first.moments requests =
          earlier ++ ⟨latching, .delivery event⟩ :: (between ++ ⟨asking, .wait event id⟩ :: later) →
        latching.parked event = [] → (∀ other, .wait event other ∉ occasions between) →
          event ∈ asking.latched) ∧
    ∀ earlier passing event other between asking id later,
      first.moments requests =
          earlier ++ ⟨passing, .wait event other⟩ :: (between ++ ⟨asking, .wait event id⟩ :: later) →
        .delivery event ∉ occasions between → event ∉ asking.latched := by
  intro first
  have hbrings := moments_brings (create_balanced session clock exit idlePoll) requests
  have hexclusive : ∀ occasions, (Board.afterAll {} occasions).Exclusive := fun occasions =>
    Board.exclusive_empty.afterAll occasions
  have hsplit : ∀ {earlier moment later}, first.moments requests = earlier ++ moment :: later →
      moment.before.board = Board.afterAll {} (occasions earlier) ∧ moment.before.InOrder := by
    intro earlier moment later hmoments
    exact (hmoments ▸ hbrings.consistent).split
  refine ⟨?_, ?_, ?_, ?_, ?_, ?_⟩
  · intro last hlast
    have hboard := hbrings.board last hlast
    refine ⟨hboard, fun event hevent => ?_⟩
    exact (hboard ▸ hexclusive _ : last.board.Exclusive).parked_eq_nil event hevent
  · intro earlier moment later hmoments
    have hboard := (hsplit hmoments).1
    refine ⟨hboard, fun event hevent => ?_⟩
    exact (hboard ▸ hexclusive _ : moment.before.board.Exclusive).parked_eq_nil event hevent
  · intro earlier before event later hmoments
    obtain ⟨hboard, horder⟩ := hsplit hmoments
    refine ⟨?_, before.deliver_eq event, before.parked_deliver event,
      fun id hid => count_ready_deliver horder hid⟩
    rw [parked, hboard]
    exact Board.parked_afterAll_empty_suffix (occasions earlier)
  · intro earlier before event id later hmoments task now hid
    rw [settle_wait, hid]
  · intro earlier latching event between asking id later hmoments hparked hnobody
    have hboard : asking.board =
        (latching.board.after (.delivery event)).afterAll (occasions between) :=
      (hmoments ▸ hbrings.consistent).between
    have hlatched : event ∈ (latching.board.after (.delivery event)).latched := by
      rw [Board.after, if_pos (show latching.board.parked event = [] from hparked)]
      exact List.mem_insert_self
    change event ∈ asking.board.latched
    rw [hboard]
    exact Board.mem_latched_afterAll hlatched hnobody
  · intro earlier passing event other between asking id later hmoments hsilent
    have hboard : asking.board =
        (passing.board.after (.wait event other)).afterAll (occasions between) :=
      (hmoments ▸ hbrings.consistent).between
    have hpassing : passing.board.Exclusive := (hsplit hmoments).1 ▸ hexclusive _
    change event ∉ asking.board.latched
    rw [hboard]
    exact Board.notMem_latched_afterAll (Board.notMem_latched_after_wait hpassing other) hsilent

/-- Two contexts are woken in order, and of the two the first uses up the event that
was signalled too early. -/
theorem moments_wakeups_early :
    let program := Program.ofFunctions true
      [("void main()", [.spawn "void left()", .spawn "void right()", .yield, .signal 1, .signal 2]),
        ("void left()", [.wait 1, .wait 2, .wait 2]), ("void right()", [.wait 1, .wait 2])]
    let first := create (.ofEngine { program } false) (.ticking 1000) {} defaultIdlePoll
    let requests : List Request :=
      [.add ⟨"void main()",
          [.spawn "void left()", .spawn "void right()", .yield, .signal 1, .signal 2]⟩ false,
        .pass, .pass, .pass]
    ∃ earlier waking latching passing asking,
      first.moments requests =
          earlier ++ [⟨waking, .delivery 1⟩, ⟨latching, .delivery 2⟩, ⟨passing, .wait 2 2⟩,
            ⟨asking, .wait 2 3⟩] ∧
        waking.parked 1 = [2, 3] ∧ (∀ id ∈ [2, 3], (waking.deliver 1).ready.count id = 1) ∧
        latching.parked 2 = [] ∧ 2 ∈ passing.latched ∧ 2 ∉ asking.latched := by
  intro program first requests
  obtain ⟨-, hboards, hdeliveries, -, hlatched, hused⟩ := moments_wakeups
    (.ofEngine { program } false) (.ticking 1000) {} defaultIdlePoll requests
  have hoccasions : occasions (first.moments requests) =
      [.wait 1 2, .wait 1 3] ++
        [.delivery 1, .delivery 2, .wait 2 2, .wait 2 3] := by decide +kernel
  obtain ⟨earlier, rest, hmoments, hearlier, hrest⟩ := List.map_eq_append_iff.mp hoccasions
  simp only [List.map_eq_cons_iff, List.map_eq_nil_iff] at hrest
  obtain ⟨⟨waking, _⟩, _, rfl, rfl, ⟨latching, _⟩, _, rfl, rfl, ⟨passing, _⟩, _, rfl, rfl,
    ⟨asking, _⟩, _, rfl, rfl, rfl⟩ := hrest
  have hlatching : first.moments requests =
      (earlier ++ [⟨waking, .delivery 1⟩]) ++ ⟨latching, .delivery 2⟩ ::
        ([] ++ ⟨passing, .wait 2 2⟩ :: [⟨asking, .wait 2 3⟩]) := by
    rw [hmoments, List.append_assoc]
    rfl
  have hpassing : first.moments requests =
      (earlier ++ [⟨waking, .delivery 1⟩, ⟨latching, .delivery 2⟩]) ++ ⟨passing, .wait 2 2⟩ ::
        ([] ++ ⟨asking, .wait 2 3⟩ :: []) := by
    rw [hmoments, List.append_assoc]
    rfl
  have hparked : waking.parked 1 = [2, 3] := by
    rw [parked, (hboards _ _ _ hmoments).1]
    change (Board.afterAll {} (earlier.map (·.occasion))).parked 1 = [2, 3]
    rw [hearlier]
    decide
  have hnobody : latching.parked 2 = [] := by
    rw [parked, (hboards _ _ _ hlatching).1, occasions, List.map_append, hearlier]
    change (Board.afterAll {} [.wait 1 2, .wait 1 3, .delivery 1]).parked 2 = []
    decide
  obtain ⟨-, -, -, hcount⟩ := hdeliveries _ _ _ _ hmoments
  rw [hparked] at hcount
  exact ⟨earlier, waking, latching, passing, asking, hmoments, hparked, hcount, hnobody,
    hlatched _ _ _ _ _ _ _ hlatching hnobody fun _ => List.not_mem_nil,
    hused _ _ _ _ _ _ _ _ hpassing List.not_mem_nil⟩

end Supervisor

end ScriptBundle
