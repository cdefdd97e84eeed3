import ScriptBundle.Proofs.Schedule.ExitCode
import ScriptBundle.Proofs.Schedule.Interruptions

/-!
# The hook before the globals

The end of the hook's own context decides how a run goes on.  A request to exit ends the
supervisor of the hook, but the run looks at the request only if it aborted the hook.  If
the hook had come to its own end before, the run halts with success, or goes on to the
globals and stops at the entry point's first turn.
-/

namespace ScriptBundle

open Ledger

theorem Session.engine_foldl_release (contexts : List Context) (session : Session) :
    (contexts.foldl Session.release session).engine = session.engine := by
  induction contexts generalizing session with
  | nil => rfl
  | cons context contexts ih => exact ih (session.release context)

/-- A context that is taken or made leaves no trace in the journal. -/
theorem Session.acquire_journal (session : Session) :
    session.acquire.2.engine.journal = session.engine.journal := by
  rw [acquire, ContextPool.acquire]
  cases session.pool.reuse? with
  | none => rfl
  | some taken => rfl

namespace Runner

/-! ## How a run goes on after the hook -/

theorem hookOutcome_of_stops (exit : ExitRequest) {state : ExecutionState}
    (haborted : state ≠ .aborted)
    (hstops : ∀ value, state = .finished value → proceeds value = false) :
    hookOutcome exit (some state) = some ⟨.halted, 0⟩ := by
  cases state with
  | finished value => rw [hookOutcome, if_neg (Bool.eq_false_iff.mp (hstops value rfl))]
  | aborted => exact (haborted rfl).elim
  | suspended | exception => rfl

/-- The hook's context and its supervisor before the first pass, if a run begins with a
hook. -/
def hookSupervisor? (runner : Runner) : Option (ContextId × Supervisor) :=
  match entryPoints.findSome? runner.find?, runner.find? beforeGlobals with
  | some _, some hook =>
      match (Supervisor.create runner.session runner.clock runner.exit runner.idlePoll).add
          hook true with
      | (.error _, _) => none
      | (.ok id, supervisor) => some (id, supervisor)
  | _, _ => none

theorem hookSupervisor?_eq_some {runner : Runner} {id : ContextId} {supervisor : Supervisor}
    (hhook : runner.hookSupervisor? = some (id, supervisor)) :
    ∃ entry hook, entryPoints.findSome? runner.find? = some entry ∧
      runner.find? beforeGlobals = some hook ∧
      (Supervisor.create runner.session runner.clock runner.exit runner.idlePoll).add hook true =
        (.ok id, supervisor) := by
  unfold hookSupervisor? at hhook
  split at hhook
  · rename_i entry hook hentry hfound
    split at hhook
    · cases hhook
    · rename_i hadd
      cases hhook
      exact ⟨entry, hook, hentry, hfound, hadd⟩
  · cases hhook

variable {runner : Runner} {function : ScriptFunction} {id : ContextId}
  {supervisor last : Supervisor} {passes : Nat}

/-- A supervisor that has started its function makes its passes and gives the pool back. -/
theorem supervise_of_add {exit : ExitRequest}
    (hadd : (Supervisor.create runner.session runner.clock exit runner.idlePoll).add
      function true = (.ok id, supervisor)) :
    runner.supervise passes function exit = supervisor.run passes >>= fun last =>
      .ok (.ok (last.state? id, last.exit),
        { runner with session := last.close, clock := last.clock }) := by
  rw [supervise]
  simp only [hadd]
  cases supervisor.run passes <;> rfl

theorem supervise_eq {exit : ExitRequest}
    (hadd : (Supervisor.create runner.session runner.clock exit runner.idlePoll).add
      function true = (.ok id, supervisor))
    (hlast : supervisor.run passes = .ok last) :
    runner.supervise passes function exit =
      .ok (.ok (last.state? id, last.exit),
        { runner with session := last.close, clock := last.clock }) := by
  rw [supervise_of_add hadd, hlast, ok_bind]

/-- What is left of the run of the hook. -/
structure AfterHook (last : Supervisor) (next : Runner) : Prop where
  engine : next.session.engine = last.session.engine
  exit : next.exit = last.exit

theorem runBeforeGlobals_eq (runner : Runner)
    (hadd : (Supervisor.create runner.session runner.clock runner.exit runner.idlePoll).add
      function true = (.ok id, supervisor))
    (hlast : supervisor.run passes = .ok last) :
    ∃ next, runner.runBeforeGlobals passes function =
        .ok (.ok (hookOutcome last.exit (last.state? id)), next) ∧ AfterHook last next ∧
      ∀ outcome, hookOutcome last.exit (last.state? id) = some outcome →
        next.state = outcome.state := by
  have hengine : last.close.engine = last.session.engine := Session.engine_foldl_release _ _
  rw [runBeforeGlobals, supervise_eq hadd hlast]
  simp only [ok_bind]
  cases last.state? id with
  | none => exact ⟨_, rfl, ⟨hengine, rfl⟩, fun outcome houtcome => by cases houtcome; rfl⟩
  | some state =>
      cases state with
      | finished value =>
          cases hvalue : proceeds value with
          | true =>
              simp only [hookOutcome, hvalue, if_true]
              exact ⟨_, rfl, ⟨hengine, rfl⟩, fun outcome houtcome => by cases houtcome⟩
          | false =>
              simp only [hookOutcome, hvalue, Bool.false_eq_true, if_false]
              exact ⟨_, rfl, ⟨hengine, rfl⟩, fun outcome houtcome => by cases houtcome; rfl⟩
      | suspended | exception | aborted =>
          exact ⟨_, rfl, ⟨hengine, rfl⟩, fun outcome houtcome => by cases houtcome; rfl⟩

/-- A run that ends with its hook: neither are the globals initialised nor does the entry
point get a supervisor. -/
structure EndsWithHook (runner : Runner) (passes : Nat) (diagnostics : Diagnostics)
    (source : String) (last : Supervisor) (outcome : RunOutcome) : Prop where
  run : ∃ after, runner.run passes diagnostics source =
      .ok ((.ok outcome, diagnostics), after) ∧
    after.session.engine = last.session.engine ∧ after.state = outcome.state
  entry : runner.entrySupervisor? passes = none

/-- A run has one outcome. -/
theorem EndsWithHook.unique {diagnostics : Diagnostics} {source : String}
    {first second : RunOutcome} (hfirst : runner.EndsWithHook passes diagnostics source last first)
    (hsecond : runner.EndsWithHook passes diagnostics source last second) : first = second := by
  obtain ⟨_, hfirst, -⟩ := hfirst.run
  obtain ⟨_, hsecond, -⟩ := hsecond.run
  cases hfirst.symm.trans hsecond
  rfl

theorem endsWithHook (hhook : runner.hookSupervisor? = some (id, supervisor))
    (hlast : supervisor.run passes = .ok last) {outcome : RunOutcome}
    (houtcome : hookOutcome last.exit (last.state? id) = some outcome)
    (diagnostics : Diagnostics) (source : String) :
    runner.EndsWithHook passes diagnostics source last outcome := by
  obtain ⟨entry, hook, hentry, hfound, hadd⟩ := hookSupervisor?_eq_some hhook
  obtain ⟨next, hbefore, hafter, hstate⟩ :=
    (runner.enter .preGlobals).runBeforeGlobals_eq hadd hlast
  rw [houtcome] at hbefore
  constructor
  · refine ⟨next.drain, ?_, hafter.engine, hstate outcome houtcome⟩
    simp only [run, hentry, hfound, hbefore, ok_bind]
    rfl
  · simp only [entrySupervisor?, hentry, hfound, hbefore]

theorem run_afterHook (hhook : runner.hookSupervisor? = some (id, supervisor))
    (hlast : supervisor.run passes = .ok last)
    (hnone : hookOutcome last.exit (last.state? id) = none)
    (diagnostics : Diagnostics) (source : String) :
    ∃ entry next, AfterHook last next ∧
      runner.run passes diagnostics source = next.runMain passes diagnostics source entry ∧
      runner.entrySupervisor? passes = next.mainSupervisor? entry := by
  obtain ⟨entry, hook, hentry, hfound, hadd⟩ := hookSupervisor?_eq_some hhook
  obtain ⟨next, hbefore, hafter, -⟩ :=
    (runner.enter .preGlobals).runBeforeGlobals_eq hadd hlast
  rw [hnone] at hbefore
  refine ⟨entry, next, hafter, ?_, ?_⟩
  · simp only [run, hentry, hfound, hbefore, ok_bind]
  · simp only [entrySupervisor?, hentry, hfound, hbefore]

end Runner

namespace Supervisor

/-! ## An entry point that comes too late -/

theorem create_add_eq {session : Session} {clock : Clock} {exit : ExitRequest} {idlePoll : Nat}
    {function : ScriptFunction} {id : ContextId} {supervisor : Supervisor}
    (hadd : (create session clock exit idlePoll).add function true = (.ok id, supervisor)) :
    supervisor.exit = exit ∧ id ∈ supervisor.activeIds ∧
      supervisor.session.engine.journal = session.engine.journal := by
  have hjournal := session.acquire_journal
  unfold add at hadd
  split at hadd
  rename_i context acquired hacquire
  rw [show session.acquire = (context, acquired) from hacquire] at hjournal
  split at hadd
  · cases hadd
  · cases hadd
    exact ⟨rfl, List.mem_map.mpr ⟨_, List.mem_append_right _ List.mem_cons_self, rfl⟩, hjournal⟩

/-- A supervisor that begins after a request to exit gives no turn. -/
theorem run_of_requested {supervisor : Supervisor} {passes : Nat} (hpasses : passes ≠ 0)
    (hrequested : supervisor.exit.requested = true) :
    supervisor.run passes = .ok supervisor.abortAll ∧ supervisor.trace passes = [] := by
  obtain ⟨passes, rfl⟩ := Nat.exists_eq_succ_of_ne_zero hpasses
  have hpass : supervisor.pass = .ok (false, supervisor.abortAll) := by
    rw [pass, if_pos hrequested]
  constructor
  · rw [run, hpass]
  · rw [trace, hpass, passTrace, if_pos hrequested]
    rfl

end Supervisor

theorem Engine.journal_of_initializeGlobals {engine next : Engine}
    (hglobals : engine.initializeGlobals = .ok next) :
    next.journal = engine.journal ++ ["globals"] := by
  unfold initializeGlobals at hglobals
  split at hglobals
  · cases hglobals
  · cases hglobals
    rfl

namespace Runner

/-- After a request to exit the globals are still initialised, but the entry point is
aborted before its first step. -/
theorem mainSupervisor?_tooLate {runner : Runner} {entry : ScriptFunction} {id : ContextId}
    {supervisor : Supervisor} (hmain : runner.mainSupervisor? entry = some (id, supervisor))
    (hrequested : runner.exit.requested = true) {passes : Nat} (hpasses : passes ≠ 0) :
    supervisor.session.engine.journal = runner.session.engine.journal ++ ["globals"] ∧
      supervisor.trace passes = [] ∧
      ∃ last, supervisor.run passes = .ok last ∧
        entryOutcome last.exit (last.state? id) = ⟨.aborted, runner.exit.code⟩ := by
  unfold mainSupervisor? at hmain
  split at hmain
  · cases hmain
  · rename_i engine hglobals
    split at hmain
    · cases hmain
    · rename_i hadd
      cases hmain
      obtain ⟨hexit, hactive, hjournal⟩ := Supervisor.create_add_eq hadd
      obtain ⟨-, hretained⟩ := Supervisor.create_add_balanced hadd
      rw [← hexit] at hrequested
      obtain ⟨hrun, htrace⟩ := Supervisor.run_of_requested hpasses hrequested
      refine ⟨hjournal.trans (Engine.journal_of_initializeGlobals hglobals), htrace, _, hrun, ?_⟩
      have hstate : supervisor.abortAll.state? id = some .aborted := by
        rw [Supervisor.abortAll_state?]
        exact if_pos ⟨hactive, hretained⟩
      rw [hstate, Supervisor.abortAll_exit, hexit]
      rfl

/-- The rest of a run after a hook that let it go on, although the end was asked for. -/
theorem run_proceeded {runner : Runner} {passes : Nat} {id : ContextId}
    {supervisor last : Supervisor} (hhook : runner.hookSupervisor? = some (id, supervisor))
    (hlast : supervisor.run passes = .ok last) (hrequested : last.exit.requested = true)
    (hpasses : passes ≠ 0) {value : ReturnValue}
    (hstate : last.state? id = some (.finished value)) (hproceeds : proceeds value = true)
    (diagnostics : Diagnostics) (source : String) :
    (∀ error, last.session.engine.initializeGlobals = .error error →
      ∃ rest after, runner.run passes diagnostics source =
        .ok ((.error (.globals error), rest), after)) ∧
    (∀ entryId entry, runner.entrySupervisor? passes = some (entryId, entry) →
      entry.session.engine.journal = last.session.engine.journal ++ ["globals"] ∧
        entry.trace passes = []) ∧
    ∀ outcome rest after,
      runner.run passes diagnostics source = .ok ((.ok outcome, rest), after) →
        (runner.entrySupervisor? passes).isSome ∧ outcome = ⟨.aborted, last.exit.code⟩ := by
  have hnone : hookOutcome last.exit (last.state? id) = none := by
    rw [hstate]
    exact if_pos hproceeds
  obtain ⟨entry, next, hafter, hrun, hentry⟩ := run_afterHook hhook hlast hnone diagnostics source
  have hnext : next.exit.requested = true := hafter.exit ▸ hrequested
  rw [hrun, hentry, ← hafter.engine, ← hafter.exit]
  refine ⟨?_, ?_, ?_⟩
  · intro error herror
    rw [runMain]
    simp only [herror]
    exact ⟨_, _, rfl⟩
  · intro entryId entrySupervisor hmain
    obtain ⟨hjournal, htrace, -⟩ := mainSupervisor?_tooLate hmain hnext hpasses
    exact ⟨hjournal, htrace⟩
  · intro outcome rest after hdone
    obtain ⟨entryId, entrySupervisor, entryLast, hmain, hentryLast, rfl⟩ := runMain_eq_ok hdone
    obtain ⟨-, -, last', hlast', houtcome⟩ := mainSupervisor?_tooLate hmain hnext hpasses
    obtain rfl := Except.ok.inj (hentryLast.symm.trans hlast')
    exact ⟨Option.isSome_iff_exists.mpr ⟨_, hmain⟩, houtcome⟩

/-- A request to exit while the hook before the globals has its supervisor ends the run
with the hook and with the last code if and only if the hook itself was aborted.  A hook
that had raised an exception, or returned what stops a run, makes it halt with success.
After a hook that had returned what lets a run go on, the globals are initialised; if that
fails, the run fails, and otherwise the entry point is aborted before its first step. -/
theorem run_exitBeforeGlobals {runner : Runner} {passes : Nat} {id : ContextId}
    {supervisor : Supervisor} (hhook : runner.hookSupervisor? = some (id, supervisor))
    {code : Int32}
    (hcode : lastExitCode? (Supervisor.steps (supervisor.trace passes)) = some code)
    (diagnostics : Diagnostics) (source : String) :
    ∃ last state, supervisor.run passes = .ok last ∧ last.state? id = some state ∧
      (runner.EndsWithHook passes diagnostics source last ⟨.aborted, code⟩ ↔ state = .aborted) ∧
      (state ≠ .aborted → (∀ value, state = .finished value → proceeds value = false) →
        runner.EndsWithHook passes diagnostics source last ⟨.halted, 0⟩) ∧
      ∀ value, state = .finished value → proceeds value = true →
        (∀ error, last.session.engine.initializeGlobals = .error error →
          ∃ rest after, runner.run passes diagnostics source =
            .ok ((.error (.globals error), rest), after)) ∧
        (∀ entryId entry, runner.entrySupervisor? passes = some (entryId, entry) →
          entry.session.engine.journal = last.session.engine.journal ++ ["globals"] ∧
            entry.trace passes = []) ∧
        ∀ outcome rest after,
          runner.run passes diagnostics source = .ok ((.ok outcome, rest), after) →
            (runner.entrySupervisor? passes).isSome ∧ outcome = ⟨.aborted, code⟩ := by
  obtain ⟨last, hlast⟩ := Supervisor.run_of_lastExitCode? hcode
  obtain ⟨_, hook, -, -, hadd⟩ := hookSupervisor?_eq_some hhook
  obtain ⟨hbalanced, hretained⟩ := Supervisor.create_add_balanced hadd
  have hexit : last.exit = supervisor.exit.request code := by
    rw [Supervisor.run_exit hlast, hcode]
    rfl
  have hrequested : last.exit.requested = true := by rw [hexit]; rfl
  have hlastCode : last.exit.code = code := by rw [hexit]; rfl
  have hpasses : passes ≠ 0 := by
    rintro rfl
    cases hcode
  obtain ⟨state, hstate, hterminal⟩ :=
    Supervisor.run_terminal hbalanced hlast hrequested hretained
  have hends : ∀ outcome, hookOutcome last.exit (some state) = some outcome →
      runner.EndsWithHook passes diagnostics source last outcome := fun outcome houtcome =>
    endsWithHook hhook hlast (hstate ▸ houtcome) diagnostics source
  have hproceeded : ∀ value, state = .finished value → proceeds value = true → _ :=
    fun value hfinished hproceeds =>
      run_proceeded hhook hlast hrequested hpasses (hfinished ▸ hstate) hproceeds diagnostics source
  rw [hlastCode] at hproceeded
  refine ⟨last, state, hlast, hstate, ⟨?_, ?_⟩, ?_, hproceeded⟩
  · intro hended
    by_contra haborted
    -- A hook that had not been aborted either let the run go on or made it halt.
    by_cases hvalue : ∃ value, state = .finished value ∧ proceeds value = true
    · obtain ⟨value, hfinished, hproceeds⟩ := hvalue
      obtain ⟨after, hrun, -⟩ := hended.run
      obtain ⟨-, -, houtcome⟩ := hproceeded value hfinished hproceeds
      have hentry := (houtcome _ _ _ hrun).1
      rw [hended.entry] at hentry
      cases hentry
    · have hhalted := hends _ (hookOutcome_of_stops last.exit haborted fun value hfinished =>
        Bool.eq_false_iff.mpr fun hproceeds => hvalue ⟨value, hfinished, hproceeds⟩)
      cases hended.unique hhalted
  · rintro rfl
    rw [← hlastCode]
    exact hends _ rfl
  · intro haborted hstops
    exact hends _ (hookOutcome_of_stops last.exit haborted hstops)

/-- A runner whose hook returns `true` before a context that it spawned asks for the end,
and whose globals cannot be initialised. -/
def proceededBeforeExit : Runner where
  session := .ofEngine
    { program := .ofFunctions true
        [("bool preglobals()", [.spawn "void quit()", .finish (.bool true)]),
          ("void quit()", [.exit 7]), ("int main()", [.log "main"])]
      globalsFailure := some "no device" }
    false
  clock := .ticking 1000

theorem run_exitBeforeGlobals_proceeded :
    ∃ id supervisor last rest after,
      proceededBeforeExit.hookSupervisor? = some (id, supervisor) ∧
        lastExitCode? (Supervisor.steps (supervisor.trace 10)) = some 7 ∧
        supervisor.run 10 = .ok last ∧ last.state? id = some (.finished (.bool true)) ∧
        ¬ proceededBeforeExit.EndsWithHook 10 {} "main.script" last ⟨.aborted, 7⟩ ∧
        proceededBeforeExit.run 10 {} "main.script" =
          .ok ((.error (.globals (.globals "no device")), rest), after) := by
  obtain ⟨⟨id, supervisor⟩, hhook, htrace⟩ := (Option.any_eq_true _ _).mp
    (show proceededBeforeExit.hookSupervisor?.any (fun hook =>
      lastExitCode? (Supervisor.steps (hook.2.trace 10)) = some 7 ∧
        (hook.2.run 10).toOption.any fun last =>
          last.state? hook.1 = some (.finished (.bool true)) ∧
            last.session.engine.globalsFailure = some "no device") = true by decide +kernel)
  obtain ⟨hcode, hended⟩ := of_decide_eq_true htrace
  obtain ⟨last', hlast', hfinished⟩ := exists_eq_ok_of_any _ _ hended
  obtain ⟨hfinished, hfailure⟩ := of_decide_eq_true hfinished
  obtain ⟨last, state, hlast, hstate, haborted, -, hproceeded⟩ :=
    run_exitBeforeGlobals hhook hcode {} "main.script"
  obtain rfl := Except.ok.inj (hlast.symm.trans hlast')
  obtain rfl := Option.some.inj (hstate.symm.trans hfinished)
  obtain ⟨hglobals, -⟩ := hproceeded _ rfl rfl
  obtain ⟨rest, after, hrun⟩ := hglobals (.globals "no device") (by
    rw [Engine.initializeGlobals, hfailure])
  refine ⟨id, supervisor, last, rest, after, hhook, hcode, hlast, hstate, fun hends => ?_, hrun⟩
  cases haborted.mp hends

end Runner

end ScriptBundle
