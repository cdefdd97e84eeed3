import ScriptBundle.Proofs.Schedule.Trace

/-!
# Turns given

The turns of a pass are listed beside it, each with the supervisor at its beginning.
Someone outside may ask for the end while a pass goes on; such a request belongs to the
turn at whose end it is seen first.  A pass amid such requests differs from an undisturbed
one only in what the check after a turn sees.
-/

namespace ScriptBundle

/-- The beginning of a turn: the supervisor without the context, and the context. -/
structure TurnStart where
  supervisor : Supervisor
  task : Task

namespace Supervisor

/-- A turn carries out the effects of its context and then deals with the context. -/
theorem turn_eq {supervisor : Supervisor} {task : Task} {context : Context} {effects : Effects}
    {state : ExecutionState}
    (hresume : task.context.resume supervisor.session.engine.program = (context, effects, state)) :
    supervisor.turn task =
      (supervisor.readClock.2.perform effects).settle { task with context } state
        supervisor.readClock.1 := by
  simp only [turn, readClock, hresume]

/-- Nobody asks for the end from outside. -/
def undisturbed : ContextId → Option Int32 := fun _ => none

/-- A turn during which someone outside may ask for the end.  No other part of a turn
looks at the request. -/
def turnAmid (outside : ContextId → Option Int32) (supervisor : Supervisor) (task : Task) :
    Except Interruption Supervisor :=
  (supervisor.turn task).map fun next =>
    { next with exit := next.exit.after (outside task.id) }

/-- The turns of a pass, with what is asked for from outside during the turn of each
context. -/
def runQueueAmid (outside : ContextId → Option Int32) (supervisor : Supervisor) :
    List ContextId → Except Interruption (Bool × Supervisor)
  | [] => .ok (!supervisor.active.isEmpty, supervisor)
  | id :: remaining =>
      match supervisor.context? id with
      | none => supervisor.runQueueAmid outside remaining
      | some context =>
          match (supervisor.remove id).turnAmid outside { id, context } with
          | .error interruption => .error interruption
          | .ok next =>
              if next.exit.requested then .ok (false, next.abortAll)
              else next.runQueueAmid outside remaining

def passAmid (outside : ContextId → Option Int32) (supervisor : Supervisor) :
    Except Interruption (Bool × Supervisor) :=
  if supervisor.exit.requested then .ok (false, supervisor.abortAll)
  else
    let supervisor := supervisor.refresh
    match supervisor.ready with
    | [] => .ok (if supervisor.active.isEmpty then (false, supervisor) else supervisor.idle)
    | queue => runQueueAmid outside { supervisor with ready := [] } queue

/-- The turns that are given to the contexts of a queue. -/
def queueStarts (outside : ContextId → Option Int32) (supervisor : Supervisor) :
    List ContextId → List TurnStart
  | [] => []
  | id :: remaining =>
      match supervisor.context? id with
      | none => supervisor.queueStarts outside remaining
      | some context =>
          ⟨supervisor.remove id, { id, context }⟩ ::
            match (supervisor.remove id).turnAmid outside { id, context } with
            | .error _ => []
            | .ok next => if next.exit.requested then [] else next.queueStarts outside remaining

/-- The turns that are given in a pass. -/
def passStarts (outside : ContextId → Option Int32) (supervisor : Supervisor) :
    List TurnStart :=
  if supervisor.exit.requested then []
  else queueStarts outside { supervisor.refresh with ready := [] } supervisor.refresh.ready

theorem turnAmid_eq_ok {outside : ContextId → Option Int32} {supervisor after : Supervisor}
    {task : Task} (hturn : supervisor.turnAmid outside task = .ok after) :
    ∃ next, supervisor.turn task = .ok next ∧
      after = { next with exit := next.exit.after (outside task.id) } := by
  unfold turnAmid at hturn
  cases hnext : supervisor.turn task with
  | error interruption =>
      rw [hnext] at hturn
      cases hturn
  | ok next =>
      rw [hnext] at hturn
      cases hturn
      exact ⟨next, rfl, rfl⟩

theorem turnAmid_undisturbed (supervisor : Supervisor) (task : Task) :
    supervisor.turnAmid undisturbed task = supervisor.turn task := by
  unfold turnAmid
  cases supervisor.turn task <;> rfl

theorem runQueueAmid_undisturbed (supervisor : Supervisor) (ids : List ContextId) :
    supervisor.runQueueAmid undisturbed ids = supervisor.runQueue ids := by
  induction ids generalizing supervisor with
  | nil => rfl
  | cons id remaining ih =>
      rw [runQueueAmid, runQueue]
      cases supervisor.context? id with
      | none => exact ih supervisor
      | some context =>
          simp only [turnAmid_undisturbed]
          cases (supervisor.remove id).turn { id, context } with
          | error interruption => rfl
          | ok next => simp only [ih]

theorem passAmid_undisturbed (supervisor : Supervisor) :
    supervisor.passAmid undisturbed = supervisor.pass := by
  unfold passAmid pass
  split
  · rfl
  · simp only
    cases supervisor.refresh.ready with
    | nil => rfl
    | cons id remaining => exact runQueueAmid_undisturbed _ _

end Supervisor

end ScriptBundle
