import ScriptBundle.Proofs.Schedule.Trace
import ScriptBundle.Proofs.Schedule.Turns

/-!
# Interruptions

A pass breaks off only in a turn whose context wants to sleep beyond the end of the
clock.  Such a turn asks for no exit, so a run in which some context asks for the end
does come to its end.
-/

namespace ScriptBundle

/-- A turn after which its context is suspended asked for no exit. -/
theorem lastExitCode?_of_suspended {program : Program} {declaration : String}
    {rest : List Step} {taken : Nat} {line : UInt32} {suspension : Suspension}
    (hstate : (runSteps program declaration rest taken line).state = .suspended suspension) :
    lastExitCode? (executed program rest) = none := by
  induction rest generalizing taken line with
  | nil => rfl
  | cons step rest ih =>
      cases step with
      | signal | line | log =>
          rw [executed, Step.goesOn, if_pos rfl, lastExitCode?_cons_of_none rfl]
          exact ih hstate
      | spawn target =>
          rw [executed, Step.goesOn, lastExitCode?_cons_of_none rfl]
          rw [runSteps] at hstate
          cases htarget : program.find? target with
          | none => rfl
          | some function =>
              rw [htarget] at hstate
              rw [Option.isSome_some, if_pos rfl]
              exact ih hstate
      | yield | sleep | wait | raise | finish => rfl
      | exit | exitThenRaise => cases hstate

theorem Context.lastExitCode?_of_suspended {program : Program} {context : Context}
    {suspension : Suspension} (hstate : (context.resume program).2.2 = .suspended suspension) :
    lastExitCode? (context.nextSteps program) = none := by
  unfold resume at hstate
  unfold nextSteps
  cases hrunning : context.running with
  | none => rfl
  | some running =>
      rw [hrunning] at hstate
      exact ScriptBundle.lastExitCode?_of_suspended hstate

/-- The context of a turn wants to sleep beyond the end of the clock. -/
def TurnStart.Oversleeps (start : TurnStart) : Prop :=
  ∃ duration,
    (start.task.context.resume start.supervisor.session.engine.program).2.2 =
        .suspended (.sleep duration) ∧
      clockEnd ≤ start.supervisor.clock.read.1 + duration.inNanoseconds

namespace Supervisor

/-! ## What breaks a pass off -/

theorem turn_eq_error {supervisor : Supervisor} {task : Task} {interruption : Interruption}
    (hturn : supervisor.turn task = .error interruption) :
    interruption = .clockOverflow ∧ TurnStart.Oversleeps ⟨supervisor, task⟩ := by
  rcases hresume : task.context.resume supervisor.session.engine.program with
    ⟨context, effects, state⟩
  rw [turn_eq hresume] at hturn
  match state with
  | .suspended (.sleep duration) =>
      simp only [settle, park] at hturn
      split at hturn
      · cases hturn
      · rename_i hlate
        cases hturn
        exact ⟨rfl, duration, congrArg (·.2.2) hresume, Nat.le_of_not_lt hlate⟩
  | .suspended (.wait event) =>
      rw [settle, park] at hturn
      split at hturn <;> cases hturn
  | .suspended .yield | .aborted => cases hturn
  | .finished _ | .exception _ =>
      simp only [settle] at hturn
      split at hturn <;> cases hturn

theorem runQueue_eq_error {supervisor : Supervisor} {ids : List ContextId}
    {interruption : Interruption} (hrun : supervisor.runQueue ids = .error interruption) :
    interruption = .clockOverflow ∧
      ∃ earlier start, supervisor.queueStarts undisturbed ids = earlier ++ [start] ∧
        start.Oversleeps := by
  induction ids generalizing supervisor with
  | nil => cases hrun
  | cons id remaining ih =>
      rw [runQueue] at hrun
      rw [queueStarts]
      cases hcontext : supervisor.context? id with
      | none =>
          rw [hcontext] at hrun
          exact ih hrun
      | some context =>
          rw [hcontext] at hrun
          simp only [turnAmid_undisturbed]
          cases hturn : (supervisor.remove id).turn { id, context } with
          | error broken =>
              simp only [hturn] at hrun
              cases hrun
              obtain ⟨hoverflow, hoversleeps⟩ := turn_eq_error hturn
              exact ⟨hoverflow, [], _, rfl, hoversleeps⟩
          | ok next =>
              simp only [hturn] at hrun
              split at hrun
              · cases hrun
              · rename_i hexit
                obtain ⟨hoverflow, earlier, start, hstarts, hoversleeps⟩ := ih hrun
                simp only [if_neg hexit, hstarts]
                exact ⟨hoverflow, _ :: earlier, start, rfl, hoversleeps⟩

/-- A pass that breaks off does so in its last turn. -/
theorem pass_eq_error {supervisor : Supervisor} {interruption : Interruption}
    (hpass : supervisor.pass = .error interruption) :
    interruption = .clockOverflow ∧
      ∃ earlier start, supervisor.passStarts undisturbed = earlier ++ [start] ∧
        start.Oversleeps := by
  unfold pass at hpass
  unfold passStarts
  split at hpass
  · cases hpass
  · rename_i hexit
    rw [if_neg hexit]
    simp only at hpass
    split at hpass
    · cases hpass
    · exact runQueue_eq_error hpass

/-! ## A request to exit ends a run -/

theorem requested_of_turn {supervisor next : Supervisor} {task : Task} {code : Int32}
    (hturn : supervisor.turn task = .ok next)
    (hcode : lastExitCode? (task.context.nextSteps supervisor.session.engine.program) =
      some code) : next.exit.requested = true := by
  rw [turn_exit hturn, hcode]
  rfl

theorem runQueue_of_lastExitCode? {supervisor : Supervisor} {ids : List ContextId} {code : Int32}
    (hcode : lastExitCode? (steps (supervisor.queueTrace ids)) = some code) :
    ∃ after, supervisor.runQueue ids = .ok (false, after) := by
  induction ids generalizing supervisor code with
  | nil => cases hcode
  | cons id remaining ih =>
      rw [queueTrace] at hcode
      rw [runQueue]
      cases hcontext : supervisor.context? id with
      | none =>
          rw [hcontext] at hcode
          exact ih hcode
      | some context =>
          rw [hcontext] at hcode
          simp only [steps_append, steps_turnTrace, lastExitCode?_append] at hcode ⊢
          cases hturn : (supervisor.remove id).turn { id, context } with
          | error interruption =>
              obtain ⟨-, duration, hstate, -⟩ := turn_eq_error hturn
              rw [hturn] at hcode
              have hnone := Context.lastExitCode?_of_suspended hstate
              have hsome : lastExitCode?
                  (context.nextSteps supervisor.session.engine.program) = some code := hcode
              rw [show supervisor.session = (supervisor.remove id).session from rfl, hnone] at hsome
              cases hsome
          | ok next =>
              rw [hturn] at hcode
              simp only
              by_cases hrequested : next.exit.requested = true
              · rw [if_pos hrequested]
                exact ⟨_, rfl⟩
              · simp only [if_neg hrequested] at hcode ⊢
                cases hlater : lastExitCode? (steps (next.queueTrace remaining)) with
                | some later => exact ih hlater
                | none =>
                    rw [hlater] at hcode
                    exact (hrequested (requested_of_turn hturn hcode)).elim

theorem pass_of_lastExitCode? {supervisor : Supervisor} {code : Int32}
    (hcode : lastExitCode? (steps supervisor.passTrace) = some code) :
    ∃ after, supervisor.pass = .ok (false, after) := by
  unfold passTrace at hcode
  split at hcode
  · cases hcode
  · rename_i hrequested
    rw [pass, if_neg hrequested]
    simp only
    cases hready : supervisor.refresh.ready with
    | nil =>
        rw [hready] at hcode
        cases hcode
    | cons id remaining =>
        rw [hready] at hcode
        exact runQueue_of_lastExitCode? hcode

/-- A run in which some context asks for the end comes to its end. -/
theorem run_of_lastExitCode? {supervisor : Supervisor} {passes : Nat} {code : Int32}
    (hcode : lastExitCode? (steps (supervisor.trace passes)) = some code) :
    ∃ last, run passes supervisor = .ok last := by
  induction passes generalizing supervisor code with
  | zero => cases hcode
  | succ passes ih =>
      rw [trace, steps_append, lastExitCode?_append] at hcode
      rw [run]
      cases hpass : supervisor.pass with
      | error interruption =>
          rw [hpass] at hcode
          obtain ⟨after, hafter⟩ := pass_of_lastExitCode? (show _ = some code from hcode)
          rw [hpass] at hafter
          cases hafter
      | ok outcome =>
          obtain ⟨more, next⟩ := outcome
          cases more with
          | false => exact ⟨next, rfl⟩
          | true =>
              rw [hpass] at hcode
              cases hlater : lastExitCode? (steps (next.trace passes)) with
              | some later => exact ih hlater
              | none =>
                  simp only [hlater] at hcode
                  obtain ⟨after, hafter⟩ := pass_of_lastExitCode? (show _ = some code from hcode)
                  rw [hpass] at hafter
                  cases hafter

end Supervisor

end ScriptBundle
