import ScriptBundle.Schedule.Supervisor

/-!
# Frames

What the operations of a supervisor leave alone.  Deliveries, the beginning of a pass and
an idle pass move ids between queues and read the clock; they touch no context.
-/

namespace ScriptBundle.Supervisor

/-- A delivery makes contexts ready or latches its event. -/
theorem deliver_frame (supervisor : Supervisor) (event : EventId) :
    ∃ woken waiting latched, supervisor.deliver event =
      { supervisor with ready := supervisor.ready ++ woken, waiting, latched } := by
  unfold deliver
  split
  split
  · exact ⟨[], _, _, by rw [List.append_nil]⟩
  · exact ⟨_, _, _, rfl⟩

theorem foldl_deliver_eq (events : List EventId) (supervisor : Supervisor) :
    ∃ woken waiting latched, events.foldl deliver supervisor =
      { supervisor with ready := supervisor.ready ++ woken, waiting, latched } := by
  induction events generalizing supervisor with
  | nil => exact ⟨[], _, _, by rw [List.append_nil]; rfl⟩
  | cons event events ih =>
      obtain ⟨first, _, _, hfirst⟩ := supervisor.deliver_frame event
      obtain ⟨woken, waiting, latched, hrest⟩ := ih (supervisor.deliver event)
      refine ⟨first ++ woken, waiting, latched, ?_⟩
      rw [List.foldl_cons, hrest, hfirst, ← List.append_assoc]

theorem collect_eq (supervisor : Supervisor) :
    ∃ woken waiting latched, supervisor.collect =
      { supervisor with inbox := [], ready := supervisor.ready ++ woken, waiting, latched } :=
  foldl_deliver_eq supervisor.inbox { supervisor with inbox := [] }

/-- The beginning of a pass delivers all events and makes contexts ready. -/
theorem refresh_eq (supervisor : Supervisor) :
    ∃ clock woken sleeping waiting latched, supervisor.refresh =
      { supervisor with
        clock, inbox := [], ready := supervisor.ready ++ woken, sleeping, waiting, latched } := by
  obtain ⟨woken, waiting, latched, hcollect⟩ := supervisor.collect_eq
  change ∃ _ _ _ _ _, supervisor.collect.readClock.2.wake supervisor.collect.readClock.1 = _
  rw [hcollect]
  exact ⟨_, woken ++ _, _, waiting, latched, by rw [← List.append_assoc]; rfl⟩

@[simp]
theorem refresh_active (supervisor : Supervisor) :
    supervisor.refresh.active = supervisor.active := by
  obtain ⟨_, _, _, _, _, hrefresh⟩ := supervisor.refresh_eq
  rw [hrefresh]

@[simp]
theorem refresh_inbox (supervisor : Supervisor) : supervisor.refresh.inbox = [] := by
  obtain ⟨_, _, _, _, _, hrefresh⟩ := supervisor.refresh_eq
  rw [hrefresh]

@[simp]
theorem refresh_senders (supervisor : Supervisor) :
    supervisor.refresh.senders = supervisor.senders := by
  obtain ⟨_, _, _, _, _, hrefresh⟩ := supervisor.refresh_eq
  rw [hrefresh]

/-- An idle pass changes nothing but the clock. -/
theorem idle_eq (supervisor : Supervisor) :
    ∃ clock, supervisor.idle.2 = { supervisor with clock } := by
  unfold idle
  split
  · split
    · exact ⟨_, rfl⟩
    · exact ⟨_, rfl⟩
  · exact ⟨_, rfl⟩

theorem idle_active (supervisor : Supervisor) : supervisor.idle.2.active = supervisor.active := by
  obtain ⟨_, hidle⟩ := supervisor.idle_eq
  rw [hidle]

/-- A context that is queued changes nothing but the queues and the latched events. -/
theorem park_frame {supervisor after : Supervisor} {id : ContextId} {suspension : Suspension}
    {now : Instant} (hpark : supervisor.park id suspension now = .ok after) :
    ∃ ready sleeping waiting latched, after =
      { supervisor with ready, sleeping, waiting, latched } := by
  cases suspension with
  | yield =>
      cases hpark
      exact ⟨_, _, _, _, rfl⟩
  | sleep duration =>
      simp only [park] at hpark
      split at hpark <;> cases hpark
      exact ⟨_, _, _, _, rfl⟩
  | wait event =>
      simp only [park] at hpark
      split at hpark
      · cases hpark
        exact ⟨_, _, _, _, rfl⟩
      · cases hpark
        exact ⟨_, _, _, _, rfl⟩

end ScriptBundle.Supervisor
