import ScriptBundle.Proofs.Schedule.Requests
import ScriptBundle.Proofs.Schedule.Trace
import ScriptBundle.Schedule.Runner

/-!
# Exit codes

The exit code of a run is made from the final state of the entry point and the
exit request at the end.  A request decides it unless the entry point had
returned: the value that the entry point returned then counts instead, whatever
was asked for afterwards.
-/

namespace ScriptBundle

open Ledger

/-- The exit code of an entry point that returns a value. -/
def ReturnValue.exitCode : ReturnValue → Int32
  | .int code => code
  | _ => 0

/-- The outcome of an entry point by its final state and the request at the end. -/
def entryOutcome (exit : ExitRequest) : Option ExecutionState → RunOutcome
  | some (.finished value) => ⟨.finished, value.exitCode⟩
  | some (.exception _) => ⟨.excepted, if exit.requested then exit.code else failureExitCode⟩
  | some .aborted => ⟨.aborted, exit.code⟩
  | _ => ⟨.terminated, failureExitCode⟩

theorem entryOutcome_of_requested {exit : ExitRequest} (hrequested : exit.requested = true)
    {state : ExecutionState} (hterminal : state.isTerminal = true)
    (hstate : ∀ value, state ≠ .finished value) :
    (entryOutcome exit (some state)).state ≠ .finished ∧
      (entryOutcome exit (some state)).exitCode = exit.code := by
  cases state with
  | finished value => exact (hstate value rfl).elim
  | suspended suspension => cases hterminal
  | exception message => exact ⟨RunState.noConfusion, if_pos hrequested⟩
  | aborted => exact ⟨RunState.noConfusion, rfl⟩

namespace Supervisor

/-! ## The end of a run on request -/

theorem abortAll_active (supervisor : Supervisor) : supervisor.abortAll.active = [] := by
  obtain ⟨results, hresults, -⟩ := foldl_conclude [] [] supervisor.active
    { supervisor with active := [], ready := [], sleeping := [], waiting := [] }
  rw [abortAll, hresults]

theorem runQueue_active {supervisor after : Supervisor} {ids : List ContextId} {more : Bool}
    (hexit : supervisor.exit.requested = false)
    (hrun : supervisor.runQueue ids = .ok (more, after))
    (hrequested : after.exit.requested = true) :
    more = false ∧ after.active = [] := by
  induction ids generalizing supervisor with
  | nil =>
      cases hrun
      rw [hexit] at hrequested
      cases hrequested
  | cons id remaining ih =>
      rw [runQueue] at hrun
      split at hrun
      · exact ih hexit hrun
      · split at hrun
        · cases hrun
        · rename_i next _
          split at hrun
          · cases hrun
            exact ⟨rfl, next.abortAll_active⟩
          · rename_i hcontinues
            exact ih (Bool.eq_false_iff.mpr hcontinues) hrun

theorem pass_active {supervisor after : Supervisor} {more : Bool}
    (hpass : supervisor.pass = .ok (more, after)) (hrequested : after.exit.requested = true) :
    more = false ∧ after.active = [] := by
  unfold pass at hpass
  split at hpass
  · cases hpass
    exact ⟨rfl, supervisor.abortAll_active⟩
  · rename_i hexit
    rw [← refresh_exit, Bool.not_eq_true] at hexit
    simp only at hpass
    generalize supervisor.refresh = next at hpass hexit
    split at hpass
    · have hafter : (if next.active.isEmpty then (false, next) else next.idle).2 = after :=
        (Prod.ext_iff.mp (Except.ok.inj hpass)).2
      have hsame : (if next.active.isEmpty then (false, next) else next.idle).2.exit =
          next.exit := by
        split
        · rfl
        · exact next.idle_exit
      rw [← hafter, hsame, hexit] at hrequested
      cases hrequested
    · refine runQueue_active ?_ hpass hrequested
      exact hexit

/-- No context is left where a run ends on request. -/
theorem run_active {supervisor last : Supervisor} {passes : Nat}
    (hrun : run passes supervisor = .ok last) (hrequested : last.exit.requested = true) :
    last.active = [] := by
  induction passes generalizing supervisor with
  | zero => cases hrun
  | succ passes ih =>
      rw [run] at hrun
      split at hrun
      · cases hrun
      · exact ih hrun
      · rename_i hpass
        cases hrun
        exact (pass_active hpass hrequested).2

theorem run_moves {supervisor last : Supervisor} {passes : Nat}
    (hbalanced : Balanced (supervisor.ledger [] [])) (hrun : run passes supervisor = .ok last) :
    Moves (supervisor.ledger [] []) (last.ledger [] []) := by
  induction passes generalizing supervisor with
  | zero => cases hrun
  | succ passes ih =>
      rw [run] at hrun
      split at hrun
      · cases hrun
      · rename_i next hpass
        have hmoves : Moves (supervisor.ledger [] []) (next.ledger [] []) :=
          pass_moves hbalanced hpass
        exact hmoves.trans (ih (hmoves.balanced_and_continues hbalanced).1 hrun)
      · rename_i hpass
        cases hrun
        exact pass_moves hbalanced hpass

/-- A retained context has come to an end where a run ends on request. -/
theorem run_terminal {supervisor last : Supervisor} {passes : Nat}
    (hbalanced : Balanced (supervisor.ledger [] [])) (hrun : run passes supervisor = .ok last)
    (hrequested : last.exit.requested = true) {id : ContextId}
    (hretained : id ∈ supervisor.retained) :
    ∃ state, last.state? id = some state ∧ state.isTerminal = true := by
  obtain ⟨hlast, hcontinues⟩ := (run_moves hbalanced hrun).balanced_and_continues hbalanced
  have hgone : id ∉ (last.ledger [] []).present := by
    intro hpresent
    change id ∈ last.active.map (·.id) at hpresent
    rw [run_active hrun hrequested] at hpresent
    exact List.not_mem_nil hpresent
  obtain ⟨state, hstate⟩ := Option.isSome_iff_exists.mp
    (hlast.retained_final id (hcontinues.retained hretained) hgone)
  exact ⟨state, hstate, hlast.final_terminal id state hstate⟩

/-- A supervisor that starts with one retained context. -/
theorem create_add_balanced {session : Session} {clock : Clock} {exit : ExitRequest}
    {idlePoll : Nat} {function : ScriptFunction} {id : ContextId} {supervisor : Supervisor}
    (hadd : (create session clock exit idlePoll).add function true = (.ok id, supervisor)) :
    Balanced (supervisor.ledger [] []) ∧ id ∈ supervisor.retained := by
  have hmoves : Moves ((create session clock exit idlePoll).ledger [] [])
      (((create session clock exit idlePoll).add function true).2.ledger [] []) :=
    add_moves _ function true
  rw [hadd] at hmoves
  refine ⟨(hmoves.balanced_and_continues (create_balanced _ _ _ _)).1, ?_⟩
  unfold add at hadd
  split at hadd
  split at hadd
  · cases hadd
  · cases hadd
    exact List.mem_cons_self

end Supervisor

namespace Runner

/-- The entry point's context and its supervisor before the first pass, once the
globals are initialised. -/
def mainSupervisor? (runner : Runner) (entry : ScriptFunction) :
    Option (ContextId × Supervisor) :=
  match runner.session.engine.initializeGlobals with
  | .error _ => none
  | .ok engine =>
      match (Supervisor.create { runner.session with engine } runner.clock runner.exit
          runner.idlePoll).add entry true with
      | (.error _, _) => none
      | (.ok id, supervisor) => some (id, supervisor)

/-- The entry point's context and its supervisor before the first pass, if a run
gets so far. -/
def entrySupervisor? (runner : Runner) (passes : Nat) : Option (ContextId × Supervisor) :=
  match entryPoints.findSome? runner.find? with
  | none => none
  | some entry =>
      match runner.find? beforeGlobals with
      | none => runner.mainSupervisor? entry
      | some hook =>
          match (runner.enter .preGlobals).runBeforeGlobals passes hook with
          | .ok (.ok none, runner) => runner.mainSupervisor? entry
          | _ => none

theorem runEntry_eq_ok {runner after : Runner} {passes : Nat} {entry : ScriptFunction}
    {outcome : RunOutcome} (hrun : runner.runEntry passes entry = .ok (.ok outcome, after)) :
    ∃ id supervisor last,
      (Supervisor.create runner.session runner.clock runner.exit runner.idlePoll).add entry true =
          (.ok id, supervisor) ∧
        supervisor.run passes = .ok last ∧ outcome = entryOutcome last.exit (last.state? id) := by
  unfold runEntry supervise at hrun
  obtain ⟨⟨result, next⟩, hsupervise, hrest⟩ := bind_eq_ok_iff.mp hrun
  simp only at hsupervise
  split at hsupervise
  · cases hsupervise
    cases hrest
  · rename_i id supervisor hadd
    split at hsupervise
    · cases hsupervise
    · rename_i last hlast
      cases hsupervise
      refine ⟨id, supervisor, last, hadd, hlast, ?_⟩
      cases hstate : last.state? id with
      | none => rw [hstate] at hrest; cases hrest; rfl
      | some state =>
          rw [hstate] at hrest
          cases state with
          | finished value => cases value <;> cases hrest <;> rfl
          | exception message => cases hrest; rfl
          | aborted => cases hrest; rfl
          | suspended suspension => cases hrest; rfl

theorem presentReport_eq (runner : Runner) (diagnostics : Diagnostics) :
    ∃ presented, (runner.presentReport diagnostics).1 = { runner with presented } := by
  unfold presentReport
  split
  · exact ⟨_, rfl⟩
  · exact ⟨_, rfl⟩

/-- The part of a run that follows the globals. -/
theorem runMain_eq_ok {runner after : Runner} {passes : Nat} {diagnostics rest : Diagnostics}
    {source : String} {entry : ScriptFunction} {outcome : RunOutcome}
    (hrun : runner.runMain passes diagnostics source entry = .ok ((.ok outcome, rest), after)) :
    ∃ id supervisor last, runner.mainSupervisor? entry = some (id, supervisor) ∧
      supervisor.run passes = .ok last ∧ outcome = entryOutcome last.exit (last.state? id) := by
  unfold runMain at hrun
  unfold mainSupervisor?
  cases hglobals : runner.session.engine.initializeGlobals with
  | error error =>
      rw [hglobals] at hrun
      cases hrun
  | ok engine =>
      rw [hglobals] at hrun
      simp only at hrun
      obtain ⟨presented, hpresented⟩ := presentReport_eq
        ({ runner with session := { runner.session with engine } }.enter .globalsInitialized)
        diagnostics
      rw [hpresented] at hrun
      obtain ⟨⟨result, next⟩, hentry, hrest⟩ := bind_eq_ok_iff.mp hrun
      obtain ⟨final, -, hdone⟩ := bind_eq_ok_iff.mp hrest
      cases hdone
      obtain ⟨id, supervisor, last, hadd, hlast, houtcome⟩ := runEntry_eq_ok hentry
      refine ⟨id, supervisor, last, ?_, hlast, houtcome⟩
      have hadd' : (Supervisor.create { runner.session with engine } runner.clock runner.exit
          runner.idlePoll).add entry true = (.ok id, supervisor) := hadd
      simp only [hadd']

/-- The outcome of a run by the final state of the hook and the request at its end, if the
run ends with the hook. -/
def hookOutcome (exit : ExitRequest) : Option ExecutionState → Option RunOutcome
  | some (.finished value) => if proceeds value then none else some ⟨.halted, 0⟩
  | some .aborted => some ⟨.aborted, exit.code⟩
  | _ => some ⟨.halted, 0⟩

theorem runBeforeGlobals_eq_ok {runner next : Runner} {passes : Nat} {hook : ScriptFunction}
    {result : Option RunOutcome}
    (hrun : runner.runBeforeGlobals passes hook = .ok (.ok result, next)) :
    ∃ exit state, result = hookOutcome exit state := by
  unfold runBeforeGlobals at hrun
  obtain ⟨⟨supervised, before⟩, -, hrest⟩ := bind_eq_ok_iff.mp hrun
  cases supervised with
  | error error => cases hrest
  | ok ended =>
      obtain ⟨state, exit⟩ := ended
      refine ⟨exit, state, ?_⟩
      cases state with
      | none => cases hrest; rfl
      | some state =>
          cases state with
          | finished value =>
              cases hvalue : proceeds value with
              | true =>
                  simp only [hvalue, if_true] at hrest
                  cases hrest
                  exact (if_pos hvalue).symm
              | false =>
                  simp only [hvalue, Bool.false_eq_true, if_false] at hrest
                  cases hrest
                  exact (if_neg (Bool.eq_false_iff.mp hvalue)).symm
          | suspended | exception | aborted => cases hrest; rfl

/-- A run that has an outcome got it from the hook before the globals, or else from its
main part. -/
theorem run_ends {runner after : Runner} {passes : Nat} {diagnostics rest : Diagnostics}
    {source : String} {outcome : RunOutcome}
    (hrun : runner.run passes diagnostics source = .ok ((.ok outcome, rest), after)) :
    (∃ exit state, hookOutcome exit state = some outcome ∧
        runner.entrySupervisor? passes = none) ∨
      ∃ (next : Runner) (entry : ScriptFunction),
        runner.entrySupervisor? passes = next.mainSupervisor? entry ∧
          next.runMain passes diagnostics source entry = .ok ((.ok outcome, rest), after) := by
  unfold run at hrun
  unfold entrySupervisor?
  cases hfound : entryPoints.findSome? runner.find? with
  | none =>
      rw [hfound] at hrun
      cases hrun
  | some entry =>
      rw [hfound] at hrun
      cases hhook : runner.find? beforeGlobals with
      | none =>
          rw [hhook] at hrun
          exact .inr ⟨runner, entry, rfl, hrun⟩
      | some hook =>
          rw [hhook] at hrun
          obtain ⟨⟨result, next⟩, hresult, hrest⟩ := bind_eq_ok_iff.mp hrun
          simp only [hresult]
          cases result with
          | error error => cases hrest
          | ok ended =>
              cases ended with
              | none => exact .inr ⟨next, entry, rfl, hrest⟩
              | some early =>
                  obtain ⟨exit, state, hearly⟩ := runBeforeGlobals_eq_ok hresult
                  cases hrest
                  exact .inl ⟨exit, state, hearly.symm, rfl⟩

/-- The outcome of a run that has a supervisor for its entry point is made there. -/
theorem run_eq_ok {runner after : Runner} {passes : Nat} {diagnostics rest : Diagnostics}
    {source : String} {outcome : RunOutcome}
    (hrun : runner.run passes diagnostics source = .ok ((.ok outcome, rest), after))
    {id : ContextId} {supervisor : Supervisor}
    (hentry : runner.entrySupervisor? passes = some (id, supervisor)) :
    ∃ last, supervisor.run passes = .ok last ∧
      outcome = entryOutcome last.exit (last.state? id) := by
  rcases run_ends hrun with ⟨-, -, -, hnone⟩ | ⟨next, entry, hsupervisor, hmain⟩
  · rw [hnone] at hentry
    cases hentry
  · obtain ⟨id', supervisor', last, hsupervisor', hlast, houtcome⟩ := runMain_eq_ok hmain
    rw [← hsupervisor, hentry, Option.some.injEq, Prod.mk.injEq] at hsupervisor'
    obtain ⟨rfl, rfl⟩ := hsupervisor'
    exact ⟨last, hlast, houtcome⟩

theorem mainSupervisor?_eq_some {runner : Runner} {entry : ScriptFunction} {id : ContextId}
    {supervisor : Supervisor} (hmain : runner.mainSupervisor? entry = some (id, supervisor)) :
    ∃ session clock exit idlePoll,
      (Supervisor.create session clock exit idlePoll).add entry true = (.ok id, supervisor) := by
  unfold mainSupervisor? at hmain
  split at hmain
  · cases hmain
  · split at hmain
    · cases hmain
    · rename_i hadd
      cases hmain
      exact ⟨_, _, _, _, hadd⟩

/-- The entry point's supervisor starts with the entry point's context alone. -/
theorem entrySupervisor?_eq_some {runner : Runner} {passes : Nat} {id : ContextId}
    {supervisor : Supervisor} (hentry : runner.entrySupervisor? passes = some (id, supervisor)) :
    ∃ session clock exit idlePoll entry,
      (Supervisor.create session clock exit idlePoll).add entry true = (.ok id, supervisor) := by
  have hmain : ∃ (runner : Runner) (entry : ScriptFunction),
      runner.mainSupervisor? entry = some (id, supervisor) := by
    unfold entrySupervisor? at hentry
    split at hentry
    · cases hentry
    · split at hentry
      · exact ⟨_, _, hentry⟩
      · split at hentry
        · exact ⟨_, _, hentry⟩
        · cases hentry
  obtain ⟨runner, entry, hmain⟩ := hmain
  obtain ⟨session, clock, exit, idlePoll, hadd⟩ := mainSupervisor?_eq_some hmain
  exact ⟨session, clock, exit, idlePoll, entry, hadd⟩

/-- The entry point's context is retained by a supervisor whose books are in order. -/
theorem entrySupervisor?_balanced {runner : Runner} {passes : Nat} {id : ContextId}
    {supervisor : Supervisor} (hentry : runner.entrySupervisor? passes = some (id, supervisor)) :
    Balanced (supervisor.ledger [] []) ∧ id ∈ supervisor.retained := by
  obtain ⟨_, _, _, _, _, hadd⟩ := entrySupervisor?_eq_some hentry
  exact Supervisor.create_add_balanced hadd

/-- A request to exit while the entry point's supervisor runs decides the exit code
of the run, and the last one does so, unless the entry point returns. -/
theorem run_exitCode {runner after : Runner} {passes : Nat} {diagnostics rest : Diagnostics}
    {source : String} {outcome : RunOutcome}
    (hrun : runner.run passes diagnostics source = .ok ((.ok outcome, rest), after))
    {id : ContextId} {supervisor : Supervisor}
    (hentry : runner.entrySupervisor? passes = some (id, supervisor)) {code : Int32}
    (hcode : lastExitCode? (Supervisor.steps (supervisor.trace passes)) = some code) :
    ∃ last, supervisor.run passes = .ok last ∧
      (∀ value, last.state? id = some (.finished value) →
        outcome = ⟨.finished, value.exitCode⟩) ∧
      ((∀ value, last.state? id ≠ some (.finished value)) →
        outcome.state ≠ .finished ∧ outcome.exitCode = code) ∧
      (outcome.exitCode = code ↔
        ∀ value, last.state? id = some (.finished value) → value.exitCode = code) := by
  obtain ⟨last, hlast, houtcome⟩ := run_eq_ok hrun hentry
  obtain ⟨hbalanced, hretained⟩ := entrySupervisor?_balanced hentry
  have hexit : last.exit = supervisor.exit.request code := by
    rw [Supervisor.run_exit hlast, hcode]
    rfl
  have hrequested : last.exit.requested = true := by rw [hexit]; rfl
  have hlastCode : last.exit.code = code := by rw [hexit]; rfl
  obtain ⟨state, hstate, hterminal⟩ :=
    Supervisor.run_terminal hbalanced hlast hrequested hretained
  rw [hstate] at houtcome
  refine ⟨last, hlast, ?_⟩
  simp only [hstate, Option.some.injEq, ne_eq]
  by_cases hfinished : ∃ value, state = .finished value
  · obtain ⟨value, rfl⟩ := hfinished
    refine ⟨?_, fun hnot => (hnot value rfl).elim, ?_⟩
    · intro value' hvalue
      cases hvalue
      exact houtcome
    · rw [houtcome]
      refine ⟨fun hcode value' hvalue => ?_, fun hall => hall value rfl⟩
      cases hvalue
      exact hcode
  · have hnot : ∀ value, state ≠ .finished value := not_exists.mp hfinished
    obtain ⟨hother, houtcomeCode⟩ := entryOutcome_of_requested hrequested hterminal hnot
    rw [← houtcome] at hother houtcomeCode
    rw [hlastCode] at houtcomeCode
    exact ⟨fun value hvalue => (hnot value hvalue).elim, fun _ => ⟨hother, houtcomeCode⟩,
      fun _ value hvalue => (hnot value hvalue).elim, fun _ => houtcomeCode⟩

/-- A runner whose entry point returns before a context that it spawned asks for
the end. -/
def returnedBeforeExit : Runner where
  session := .ofEngine
    { program := .ofFunctions true
        [("int main()", [.spawn "void quit()", .finish (.int 5)]), ("void quit()", [.exit 7])] }
    false
  clock := .ticking 1000

theorem run_exitCode_returnedBeforeExit :
    ∃ outcome rest after id supervisor last,
      returnedBeforeExit.run 10 {} "main.script" = .ok ((.ok outcome, rest), after) ∧
        returnedBeforeExit.entrySupervisor? 10 = some (id, supervisor) ∧
        lastExitCode? (Supervisor.steps (supervisor.trace 10)) = some 7 ∧
        supervisor.run 10 = .ok last ∧ last.state? id = some (.finished (.int 5)) ∧
        outcome = ⟨.finished, 5⟩ := by
  obtain ⟨⟨⟨result, rest⟩, after⟩, hrun, hresult⟩ := exists_eq_ok_of_any
    (returnedBeforeExit.run 10 {} "main.script") (fun result => result.1.1.toOption.isSome)
    (by decide +kernel)
  cases result with
  | error error => cases hresult
  | ok outcome =>
      obtain ⟨⟨id, supervisor⟩, hentry, htrace⟩ := (Option.any_eq_true _ _).mp
        (show (returnedBeforeExit.entrySupervisor? 10).any (fun entry =>
          lastExitCode? (Supervisor.steps (entry.2.trace 10)) = some 7 ∧
            (entry.2.run 10).toOption.any fun last =>
              last.state? entry.1 = some (.finished (.int 5))) = true by decide +kernel)
      obtain ⟨hcode, hstate⟩ := of_decide_eq_true htrace
      obtain ⟨last', hlast', hfinished'⟩ := exists_eq_ok_of_any _ _ hstate
      obtain ⟨last, hlast, hfinished, -⟩ := run_exitCode hrun hentry hcode
      obtain rfl := Except.ok.inj (hlast.symm.trans hlast')
      have hstate := of_decide_eq_true hfinished'
      exact ⟨outcome, rest, after, id, supervisor, last, hrun, hentry, hcode, hlast, hstate,
        hfinished _ hstate⟩

end Runner

end ScriptBundle
