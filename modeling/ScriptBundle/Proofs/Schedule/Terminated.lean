import ScriptBundle.Proofs.Schedule.BeforeGlobals
import ScriptBundle.Proofs.Schedule.Standstill

/-!
# Terminated runs

What is asked of a dead supervisor leaves it dead, as long as nobody adds a context to it,
asks for the end or gets hold of a way to send events to those that wait.  A run is told
to be terminated only if its supervisor died with the entry point waiting for an event.
-/

namespace ScriptBundle

open Ledger

namespace Supervisor

/-! ## Dead for good -/

/-- Nothing that could bring a dead supervisor back: no new context, no request to exit,
and no event for those that wait. -/
def Request.leavesDead (supervisor : Supervisor) : Request → Prop
  | .add _ _ | .exit _ => False
  | .send _ | .addSender => supervisor.active = []
  | _ => True

theorem handle_dead {supervisor : Supervisor} {request : Request} (hdead : supervisor.Dead)
    (hbalanced : Balanced (supervisor.ledger [] []))
    (hexit : supervisor.exit.requested = false) (hleaves : request.leavesDead supervisor) :
    ∃ after, supervisor.handle request = .ok after ∧ after.Dead ∧
      after.exit.requested = false ∧ (supervisor.active = [] → after.active = []) := by
  cases request with
  | add | exit => exact hleaves.elim
  | send | addSender => exact ⟨_, rfl, .inl hleaves, hexit, id⟩
  | pass =>
      obtain ⟨hpass, -, hafter⟩ := hdead.pass hbalanced hexit
      refine ⟨supervisor.refresh, ?_, hafter, ?_, fun hactive => ?_⟩
      · rw [handle, hpass]
      · rw [refresh_exit, hexit]
      · rw [refresh_active, hactive]
  | abortAll =>
      refine ⟨_, rfl, .inl supervisor.abortAll_active, ?_, fun _ => supervisor.abortAll_active⟩
      rw [abortAll_exit, hexit]
  | takeContext | share =>
      refine ⟨_, rfl, hdead.imp id fun hstuck => ?_, hexit, id⟩
      exact ⟨hstuck.ready, hstuck.sleeping, hstuck.waiting, hstuck.inbox, hstuck.senders⟩
  | dropSender =>
      refine ⟨_, rfl, hdead.imp id fun hstuck => ?_, hexit, id⟩
      refine ⟨hstuck.ready, hstuck.sleeping, hstuck.waiting, hstuck.inbox, ?_⟩
      rw [dropSender, hstuck.senders]

theorem leavesDead_mono {supervisor after : Supervisor} {request : Request}
    (hactive : supervisor.active = [] → after.active = [])
    (hleaves : request.leavesDead supervisor) : request.leavesDead after := by
  cases request with
  | send | addSender => exact hactive hleaves
  | add | exit | pass | takeContext | abortAll | dropSender | share => exact hleaves

theorem handleAll_dead {supervisor : Supervisor} {requests : List Request}
    (hdead : supervisor.Dead) (hbalanced : Balanced (supervisor.ledger [] []))
    (hexit : supervisor.exit.requested = false)
    (hleaves : ∀ request ∈ requests, request.leavesDead supervisor) :
    ∃ last, supervisor.handleAll requests = .ok last ∧ last.Dead ∧
      last.exit.requested = false := by
  induction requests generalizing supervisor with
  | nil => exact ⟨supervisor, rfl, hdead, hexit⟩
  | cons request requests ih =>
      obtain ⟨after, hafter, hdead', hexit', hactive⟩ :=
        handle_dead hdead hbalanced hexit (hleaves request List.mem_cons_self)
      have hbalanced' := ((handle_moves hbalanced hafter).balanced_and_continues hbalanced).1
      obtain ⟨last, hlast, hdone⟩ := ih hdead' hbalanced' hexit' fun other hother =>
        leavesDead_mono hactive (hleaves other (List.mem_cons_of_mem _ hother))
      refine ⟨last, ?_, hdone⟩
      rw [handleAll, hafter]
      exact hlast

/-! ## Supervisors in use -/

theorem handleAll_append {first second : List Request} {supervisor middle : Supervisor}
    (hfirst : supervisor.handleAll first = .ok middle) :
    supervisor.handleAll (first ++ second) = middle.handleAll second := by
  induction first generalizing supervisor with
  | nil =>
      cases hfirst
      rfl
  | cons request requests ih =>
      rw [List.cons_append]
      rw [handleAll] at hfirst ⊢
      cases hnext : supervisor.handle request with
      | error interruption =>
          rw [hnext] at hfirst
          cases hfirst
      | ok next =>
          rw [hnext] at hfirst
          exact ih hfirst

/-- The books of a supervisor in use are in order, and no event on its board is latched
while a context waits for it. -/
theorem exclusive_of_handleAll {session : Session} {clock : Clock} {exit : ExitRequest}
    {idlePoll : Nat} {requests : List Request} {supervisor : Supervisor}
    (hreach : (create session clock exit idlePoll).handleAll requests = .ok supervisor) :
    Balanced (supervisor.ledger [] []) ∧ supervisor.board.Exclusive := by
  have hcreated := create_balanced session clock exit idlePoll
  refine ⟨((handleAll_moves hcreated hreach).balanced_and_continues hcreated).1, ?_⟩
  rw [(moments_brings hcreated requests).board supervisor hreach]
  exact Board.exclusive_empty.afterAll _

/-- A run consists of passes. -/
theorem passes_of_run {supervisor last : Supervisor} {passes : Nat}
    (hrun : run passes supervisor = .ok last) :
    ∃ count middle, supervisor.handleAll (List.replicate count .pass) = .ok middle ∧
      middle.pass = .ok (false, last) := by
  induction passes generalizing supervisor with
  | zero => cases hrun
  | succ passes ih =>
      rw [run] at hrun
      split at hrun
      · cases hrun
      · rename_i next hpass
        obtain ⟨count, middle, hmiddle, hlast⟩ := ih hrun
        refine ⟨count + 1, middle, ?_, hlast⟩
        rw [List.replicate_succ, handleAll, handle, hpass]
        exact hmiddle
      · rename_i hpass
        cases hrun
        exact ⟨0, supervisor, rfl, hpass⟩

/-- A run that nobody asked to end leaves a dead supervisor. -/
theorem run_dead {session : Session} {clock : Clock} {exit : ExitRequest} {idlePoll : Nat}
    {function : ScriptFunction} {id : ContextId} {supervisor last : Supervisor} {passes : Nat}
    (hadd : (create session clock exit idlePoll).add function true = (.ok id, supervisor))
    (hrun : supervisor.run passes = .ok last) (hexit : last.exit.requested = false) :
    last.Dead := by
  obtain ⟨count, middle, hmiddle, hlast⟩ := passes_of_run hrun
  have hreach : (create session clock exit idlePoll).handleAll
      (.add function true :: List.replicate count .pass) = .ok middle := by
    rw [handleAll, handle, hadd]
    exact hmiddle
  obtain ⟨hbalanced, hexclusive⟩ := exclusive_of_handleAll hreach
  exact pass_dead hbalanced hexclusive hlast hexit

end Supervisor

namespace Runner

/-! ## How a run comes to be terminated -/

theorem hookOutcome_state {exit : ExitRequest} {state : Option ExecutionState}
    {outcome : RunOutcome} (houtcome : hookOutcome exit state = some outcome) :
    outcome.state ≠ .terminated := by
  unfold hookOutcome at houtcome
  split at houtcome
  · split at houtcome <;> cases houtcome
    exact RunState.noConfusion
  · cases houtcome
    exact RunState.noConfusion
  · cases houtcome
    exact RunState.noConfusion

/-- The hook before the globals never makes a run terminated. -/
theorem entrySupervisor?_of_terminated {runner after : Runner} {passes : Nat}
    {diagnostics rest : Diagnostics} {source : String} {outcome : RunOutcome}
    (hrun : runner.run passes diagnostics source = .ok ((.ok outcome, rest), after))
    (hterminated : outcome.state = .terminated) :
    (runner.entrySupervisor? passes).isSome := by
  rcases run_ends hrun with ⟨exit, state, houtcome, -⟩ | ⟨next, entry, hsupervisor, hmain⟩
  · exact (hookOutcome_state houtcome hterminated).elim
  · obtain ⟨id, supervisor, -, hsome, -⟩ := runMain_eq_ok hmain
    rw [hsupervisor, hsome]
    rfl

/-- A terminated run left its entry point waiting for an event in a stuck supervisor. -/
theorem run_terminated {runner after : Runner} {passes : Nat}
    {diagnostics rest : Diagnostics} {source : String} {outcome : RunOutcome}
    (hrun : runner.run passes diagnostics source = .ok ((.ok outcome, rest), after))
    (hterminated : outcome.state = .terminated) :
    ∃ id first last event, runner.entrySupervisor? passes = some (id, first) ∧
      first.run passes = .ok last ∧ (event, id) ∈ last.waiting ∧ event ∉ last.latched ∧
      last.Stuck := by
  obtain ⟨⟨id, first⟩, hentry⟩ :=
    Option.isSome_iff_exists.mp (entrySupervisor?_of_terminated hrun hterminated)
  obtain ⟨last, hlast, houtcome⟩ := run_eq_ok hrun hentry
  obtain ⟨_, _, _, _, _, hadd⟩ := entrySupervisor?_eq_some hentry
  obtain ⟨hfirst, hretained⟩ := Supervisor.create_add_balanced hadd
  obtain ⟨hbalanced, hcontinues⟩ :=
    (Supervisor.run_moves hfirst hlast).balanced_and_continues hfirst
  -- Final states lead to other outcomes, and no other state is kept.
  have hunfinished : last.state? id = none := by
    cases hstate : last.state? id with
    | none => rfl
    | some state =>
        have hterminal : state.isTerminal = true := hbalanced.final_terminal id state hstate
        rw [houtcome, hstate] at hterminated
        cases state with
        | suspended => cases hterminal
        | finished | exception | aborted => cases hterminated
  have hactive : id ∈ last.activeIds :=
    Supervisor.active_of_unfinished hbalanced (hcontinues.retained hretained) hunfinished
  have hleft : last.active ≠ [] := by
    intro hnone
    rw [Supervisor.activeIds, hnone] at hactive
    exact List.not_mem_nil hactive
  have hexit : last.exit.requested = false :=
    Bool.eq_false_iff.mpr fun hrequested => hleft (Supervisor.run_active hlast hrequested)
  have hstuck := (Supervisor.run_dead hadd hlast hexit).resolve_left hleft
  obtain ⟨event, hwaiting, hlatched⟩ := hstuck.waiting id hactive
  exact ⟨id, first, last, event, hentry, hlast, hwaiting, hlatched, hstuck⟩

end Runner

namespace Supervisor

/-- A supervisor stops just when nothing can run.  A pass breaks off only in a turn whose
context wants to sleep beyond the end of the clock.  If nobody asked for the end and a pass
tells that there can be no other one, the supervisor is dead; and it tells otherwise, unless
no context is left, where a context is ready or asleep, where an event was sent for which
one waits, or where someone can still send events.  A dead supervisor gives no turns and
stays dead.  So a run is told to be terminated only if its entry point waits for an event
that nobody can signal any more. -/
theorem pass_standstill {session : Session} {clock : Clock} {exit : ExitRequest} {idlePoll : Nat}
    {requests : List Request} {supervisor : Supervisor}
    (hreach : (create session clock exit idlePoll).handleAll requests = .ok supervisor) :
    (∀ interruption, supervisor.pass = .error interruption →
      interruption = .clockOverflow ∧
        ∃ earlier start, supervisor.passStarts undisturbed = earlier ++ [start] ∧
          start.Oversleeps) ∧
    (∀ more after, supervisor.pass = .ok (more, after) → after.exit.requested = false →
      (more = false → after.Dead) ∧
        (supervisor.ready ≠ [] ∨ supervisor.sleeping ≠ [] ∨
            (∃ event ∈ supervisor.inbox, supervisor.parked event ≠ []) ∨
            supervisor.active ≠ [] ∧ supervisor.senders ≠ 0 →
          (more = true ↔ after.active ≠ []))) ∧
    (supervisor.Dead → supervisor.exit.requested = false →
      ∀ uses : List Request, (∀ request ∈ uses, request.leavesDead supervisor) →
        ∃ last after, supervisor.handleAll uses = .ok last ∧
          last.passStarts undisturbed = [] ∧ last.pass = .ok (false, after) ∧ after.Dead) ∧
    ∀ (runner after : Runner) (passes : Nat) (diagnostics rest : Diagnostics) (source : String)
      (outcome : RunOutcome),
      runner.run passes diagnostics source = .ok ((.ok outcome, rest), after) →
        outcome.state = .terminated →
          ∃ id first last event, runner.entrySupervisor? passes = some (id, first) ∧
            first.run passes = .ok last ∧ (event, id) ∈ last.waiting ∧
            event ∉ last.latched ∧ last.Stuck := by
  obtain ⟨hbalanced, hexclusive⟩ := exclusive_of_handleAll hreach
  refine ⟨fun _ hbroken => pass_eq_error hbroken, ?_, ?_, ?_⟩
  · intro more after hpass hexit
    refine ⟨?_, pass_goes_on hpass hexit⟩
    rintro rfl
    exact pass_dead hbalanced hexclusive hpass hexit
  · intro hdead hexit uses hleaves
    obtain ⟨last, hlast, hdead', hexit'⟩ := handleAll_dead hdead hbalanced hexit hleaves
    have hbalanced' := ((handleAll_moves hbalanced hlast).balanced_and_continues hbalanced).1
    obtain ⟨hpass, hstarts, hafter⟩ := hdead'.pass hbalanced' hexit'
    exact ⟨last, last.refresh, hlast, hstarts, hpass, hafter⟩
  · intro runner after passes diagnostics rest source outcome hrun hterminated
    exact Runner.run_terminated hrun hterminated

/-- A supervisor that stops over a context that waits, and a run that does so. -/
theorem pass_standstill_waiting :
    let session : Session :=
      .ofEngine { program := .ofFunctions true [("int main()", [.yield, .wait 7])] } false
    let first := create session (.ticking 1000) {} defaultIdlePoll
    let runner : Runner := { session, clock := .ticking 1000 }
    let earlier : List Request := [.add ⟨"int main()", [.yield, .wait 7]⟩ true, .pass, .pass]
    (∃ waiting stopped last after,
      first.handleAll earlier = .ok waiting ∧ waiting.pass = .ok (false, stopped) ∧
        stopped.Dead ∧ stopped.handleAll [.pass, .takeContext 1] = .ok last ∧
        last.passStarts undisturbed = [] ∧ last.pass = .ok (false, after)) ∧
      ∃ outcome rest after id supervisor last event,
        runner.run 10 {} "main.script" = .ok ((.ok outcome, rest), after) ∧
          outcome.state = .terminated ∧
          runner.entrySupervisor? 10 = some (id, supervisor) ∧
          supervisor.run 10 = .ok last ∧ (event, id) ∈ last.waiting ∧ last.Stuck := by
  intro session first runner earlier
  obtain ⟨waiting, hwaiting, hproperty⟩ := exists_eq_ok_of_any (first.handleAll earlier)
    (fun waiting => waiting.pass.toOption.any fun next =>
      next.1 = false ∧ next.2.exit.requested = false) (by decide +kernel)
  obtain ⟨⟨more, stopped⟩, hpass, hstops⟩ := exists_eq_ok_of_any _ _ hproperty
  obtain ⟨rfl, hexit⟩ := of_decide_eq_true hstops
  obtain ⟨-, hstandstill, -, hruns⟩ := pass_standstill hwaiting
  have hdead : stopped.Dead := (hstandstill false stopped hpass hexit).1 rfl
  have hstopped : first.handleAll (earlier ++ [.pass]) = .ok stopped := by
    rw [handleAll_append hwaiting, handleAll, handle, hpass]
    rfl
  obtain ⟨-, -, hlater, -⟩ := pass_standstill hstopped
  obtain ⟨last, after, hlast, hstarts, hlastPass, -⟩ :=
    hlater hdead hexit [.pass, .takeContext 1] (by simp [Request.leavesDead])
  obtain ⟨⟨⟨result, rest⟩, done⟩, hrun, hresult⟩ := exists_eq_ok_of_any
    (runner.run 10 {} "main.script") (fun result => result.1.1.toOption.any fun outcome =>
      outcome.state = .terminated) (by decide +kernel)
  obtain ⟨outcome, rfl, hterminated⟩ := exists_eq_ok_of_any _ _ hresult
  have hterminated := of_decide_eq_true hterminated
  obtain ⟨id, supervisor, ended, event, hentry, hended, hparked, -, hstuck⟩ :=
    hruns runner done 10 {} rest "main.script" outcome hrun hterminated
  exact ⟨⟨waiting, stopped, last, after, hwaiting, hpass, hdead, hlast, hstarts, hlastPass⟩,
    outcome, rest, done, id, supervisor, ended, event, hrun, hterminated, hentry, hended, hparked,
    hstuck⟩

end Supervisor

end ScriptBundle
