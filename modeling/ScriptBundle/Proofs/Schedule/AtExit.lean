import ScriptBundle.Proofs.Schedule.Deadlines
import ScriptBundle.Proofs.Schedule.Reprogramming

/-!
# The hook at the end

What a run comes to is settled before the hook at its end begins.  Without the hook, or with
another one in its place, the run has the same outcome and shows the same to the user.  Only
the journal goes on, with what the hook and the contexts that it starts log.
-/

namespace ScriptBundle

/-! ## More passes -/

namespace Runner

theorem supervise_settles (runner : Runner) (function : ScriptFunction) (exit : ExitRequest) :
    Settles fun passes => runner.supervise passes function exit := by
  intro passes value hvalue more hle
  simp only [supervise] at hvalue ⊢
  split at hvalue
  · exact hvalue
  · split at hvalue
    · cases hvalue
    · rename_i last hlast
      have hmore : Supervisor.run more _ = .ok last :=
        Supervisor.run_settles _ passes last hlast more hle
      rw [hmore]
      exact hvalue

theorem runBeforeGlobals_settles (runner : Runner) (hook : ScriptFunction) :
    Settles fun passes => runner.runBeforeGlobals passes hook :=
  (runner.supervise_settles hook runner.exit).bind fun _ => settles_const _

theorem runEntry_settles (runner : Runner) (entry : ScriptFunction) :
    Settles fun passes => runner.runEntry passes entry :=
  (runner.supervise_settles entry runner.exit).bind fun _ => settles_const _

theorem runAtExit_settles (runner : Runner) : Settles fun passes => runner.runAtExit passes := by
  unfold runAtExit
  split
  · exact settles_const _
  · rename_i hook _
    exact (runner.supervise_settles hook {}).bind fun _ => settles_const _

theorem runMain_settles (runner : Runner) (diagnostics : Diagnostics) (source : String)
    (entry : ScriptFunction) :
    Settles fun passes => runner.runMain passes diagnostics source entry := by
  unfold runMain
  split
  · exact settles_const _
  · exact (runEntry_settles _ entry).bind fun ended =>
      (runAtExit_settles ended.2).bind fun _ => settles_const _

theorem run_settles (runner : Runner) (diagnostics : Diagnostics) (source : String) :
    Settles fun passes => runner.run passes diagnostics source := by
  unfold run
  split
  · exact settles_const _
  · rename_i entry _
    split
    · exact runner.runMain_settles diagnostics source entry
    · rename_i hook _
      refine (runBeforeGlobals_settles _ hook).bind fun ended => ?_
      split
      · exact settles_const _
      · exact settles_const _
      · exact runMain_settles _ diagnostics source entry

end Runner

/-! ## Programs and journals of a run -/

theorem Supervisor.close_logs (supervisor : Supervisor) :
    supervisor.session.Logs [] supervisor.close := by
  have hengine : supervisor.close.engine = supervisor.session.engine :=
    Session.engine_foldl_release _ _
  exact .still (by rw [hengine]) (by rw [hengine])

namespace Runner

variable {runner next : Runner} {passes : Nat} {function : ScriptFunction} {exit : ExitRequest}

/-- A supervisor for a function does not start, or comes to the end of its run. -/
theorem supervise_cases {result : Except EngineError (Option ExecutionState × ExitRequest)}
    (hrun : runner.supervise passes function exit = .ok (result, next)) :
    (∃ error supervisor,
      (Supervisor.create runner.session runner.clock exit runner.idlePoll).add function true =
          (.error error, supervisor) ∧
        next = { runner with session := supervisor.close } ∧
        runner.superviseStarts passes function exit = []) ∨
      ∃ id supervisor last,
        (Supervisor.create runner.session runner.clock exit runner.idlePoll).add function true =
            (.ok id, supervisor) ∧
          supervisor.run passes = .ok last ∧
          next = { runner with session := last.close, clock := last.clock } ∧
          runner.superviseStarts passes function exit = supervisor.runStarts passes := by
  rw [superviseStarts]
  rcases hadd : (Supervisor.create runner.session runner.clock exit runner.idlePoll).add
    function true with ⟨error | id, supervisor⟩
  · rw [supervise, hadd] at hrun
    cases hrun
    exact .inl ⟨error, supervisor, rfl, rfl, rfl⟩
  · rw [supervise_of_add hadd] at hrun
    obtain ⟨last, hlast, hnext⟩ := bind_eq_ok_iff.mp hrun
    cases hnext
    exact .inr ⟨id, supervisor, last, rfl, hlast, rfl, rfl⟩

theorem supervise_frame {result : Except EngineError (Option ExecutionState × ExitRequest)}
    (hrun : runner.supervise passes function exit = .ok (result, next)) :
    ∃ session clock, next = { runner with session, clock } := by
  rcases supervise_cases hrun with ⟨_, _, -, rfl, -⟩ | ⟨_, _, _, -, -, rfl, -⟩
  · exact ⟨_, runner.clock, rfl⟩
  · exact ⟨_, _, rfl⟩

/-- A function and the contexts that it starts log what they log in their turns. -/
theorem supervise_logs {result : Except EngineError (Option ExecutionState × ExitRequest)}
    (hrun : runner.supervise passes function exit = .ok (result, next)) :
    runner.session.Logs
      ((runner.superviseStarts passes function exit).flatMap TurnStart.logged) next.session := by
  rcases supervise_cases hrun with
    ⟨error, supervisor, hadd, rfl, hstarts⟩ | ⟨id, supervisor, last, hadd, hlast, rfl, hstarts⟩
  · rw [hstarts]
    exact (Supervisor.logs_of_add hadd).trans supervisor.close_logs
  · have hpasses := Supervisor.run_passes (Supervisor.create_add_balanced hadd).1 hlast
    rw [hstarts]
    exact ((Supervisor.logs_of_add hadd).trans hpasses.logs).silent last.close_logs

theorem supervise_descends {result : Except EngineError (Option ExecutionState × ExitRequest)}
    (hrun : runner.supervise passes function exit = .ok (result, next)) :
    Supervisor.Descends runner.session.engine.program
      (runner.session.engine.program.StemsFrom function)
      (runner.superviseStarts passes function exit) := by
  rcases supervise_cases hrun with
    ⟨error, supervisor, hadd, rfl, hstarts⟩ | ⟨id, supervisor, last, hadd, hlast, rfl, hstarts⟩
  · rw [hstarts]
    exact Supervisor.descends_nil
  · have hpasses := Supervisor.run_passes (Supervisor.create_add_balanced hadd).1 hlast
    rw [hstarts]
    exact hpasses.descends (Program.stemsFrom_hereditary _ function)
      (Supervisor.logs_of_add hadd).program
      (Supervisor.create_add_allRun hadd (Program.stemsFrom_start _ function))

theorem runBeforeGlobals_logs {result : Except RunError (Option RunOutcome)}
    {hook : ScriptFunction} (hrun : runner.runBeforeGlobals passes hook = .ok (result, next)) :
    ∃ lines, runner.session.Logs lines next.session := by
  obtain ⟨⟨ended, middle⟩, hsupervise, hrest⟩ := bind_eq_ok_iff.mp hrun
  have hlogs := supervise_logs hsupervise
  have hengine : next.session.engine = middle.session.engine := by
    match ended with
    | .error error =>
        cases hrest
        rfl
    | .ok (some (.finished value), exit) =>
        simp only at hrest
        split at hrest <;> cases hrest <;> rfl
    | .ok (some (.exception _), exit) | .ok (some .aborted, exit) |
      .ok (some (.suspended _), exit) | .ok (none, exit) =>
        cases hrest
        rfl
  exact ⟨_, hengine ▸ hlogs.program, hengine ▸ hlogs.journal⟩

theorem runEntry_logs {result : Except RunError RunOutcome} {entry : ScriptFunction}
    (hrun : runner.runEntry passes entry = .ok (result, next)) :
    ∃ lines, runner.session.Logs lines next.session := by
  obtain ⟨⟨ended, middle⟩, hsupervise, hrest⟩ := bind_eq_ok_iff.mp hrun
  have hlogs := supervise_logs hsupervise
  have hengine : next.session.engine = middle.session.engine := by
    match ended with
    | .ok (some (.exception _), exit) =>
        cases hrest
        simp only [enter]
        split <;> rfl
    | .ok (some (.finished (.int _)), exit) | .ok (some (.finished (.bool _)), exit) |
      .ok (some (.finished .void), exit) | .ok (some .aborted, exit) |
      .ok (some (.suspended _), exit) | .ok (none, exit) | .error error =>
        cases hrest
        rfl
  exact ⟨_, hengine ▸ hlogs.program, hengine ▸ hlogs.journal⟩

end Runner

/-! ## The turns of the hook -/

/-- The last turns of a run, which are all given to the hook at its end and to the contexts
that it starts. -/
structure Program.HookTurns (program : Program) (turns own : List TurnStart) : Prop where
  suffix : own <:+ turns
  program_eq : ∀ start ∈ own, start.supervisor.session.engine.program = program
  runs : ∀ start ∈ own,
    ∃ hook ∈ program.find? atExit, start.task.context.Runs (program.StemsFrom hook)

namespace Program.HookTurns

variable {program : Program} {turns own : List TurnStart}

theorem nil : program.HookTurns turns [] where
  suffix := List.nil_suffix
  program_eq := List.forall_mem_nil _
  runs := List.forall_mem_nil _

theorem append (hown : program.HookTurns turns own) (earlier : List TurnStart) :
    program.HookTurns (earlier ++ turns) own :=
  { hown with suffix := hown.suffix.trans (List.suffix_append earlier turns) }

theorem eq_nil (hown : program.HookTurns turns own) (hnone : program.find? atExit = none) :
    own = [] := by
  refine List.eq_nil_iff_forall_not_mem.mpr fun start hstart => ?_
  obtain ⟨hook, hhook, -⟩ := hown.runs start hstart
  rw [hnone] at hhook
  cases hhook

/-- Each line that they log is in the text of the hook, or of a function to which it leads. -/
theorem exists_log (hown : program.HookTurns turns own) {line : String}
    (hline : line ∈ own.flatMap TurnStart.logged) :
    ∃ hook ∈ program.find? atExit, ∃ function, program.Leads hook function ∧
      Step.log line ∈ function.steps := by
  obtain ⟨start, hstart, hlogged⟩ := List.mem_flatMap.mp hline
  obtain ⟨hook, hhook, hruns⟩ := hown.runs start hstart
  obtain ⟨step, hstep, htext⟩ := List.mem_filterMap.mp hlogged
  rw [Context.nextSteps] at hstep
  cases hrunning : start.task.context.running with
  | none =>
      rw [hrunning] at hstep
      exact (List.not_mem_nil hstep).elim
  | some running =>
      rw [hrunning] at hstep
      obtain ⟨function, hleads, -, hrest⟩ := hruns running hrunning
      refine ⟨hook, hhook, function, hleads, hrest.subset ?_⟩
      rw [← runSteps_rest _ running.declaration running.rest running.taken running.line]
      cases step <;> cases htext
      exact List.mem_append_left _ hstep

end Program.HookTurns

namespace Runner

/-- A run has ended in the same way as another one.  Its journal may go on with the lines of
the hook at its end. -/
structure EndsAs (program : Program) (turns : List TurnStart) (plain after : Runner) :
    Prop where
  state : after.state = plain.state
  exit : after.exit = plain.exit
  presented : after.presented = plain.presented
  journal : ∃ own, program.HookTurns turns own ∧
    after.session.engine.journal =
      plain.session.engine.journal ++ own.flatMap TurnStart.logged

namespace EndsAs

variable {program : Program} {turns : List TurnStart} {plain after : Runner}

theorem refl (program : Program) (turns : List TurnStart) (runner : Runner) :
    EndsAs program turns runner runner :=
  ⟨rfl, rfl, rfl, [], .nil, (List.append_nil _).symm⟩

theorem reprogram (program base : Program) (turns : List TurnStart) (runner : Runner) :
    EndsAs program turns (runner.reprogram base) runner :=
  ⟨rfl, rfl, rfl, [], .nil, (List.append_nil _).symm⟩

theorem append (hends : EndsAs program turns plain after) (earlier : List TurnStart) :
    EndsAs program (earlier ++ turns) plain after := by
  obtain ⟨own, hown, hjournal⟩ := hends.journal
  exact { hends with journal := ⟨own, hown.append earlier, hjournal⟩ }

end EndsAs

variable {runner after : Runner} {passes : Nat}

/-- Of what a run comes to, the hook at its end adds to the journal only. -/
theorem runAtExit_ends (hrun : runner.runAtExit passes = .ok after) :
    EndsAs runner.session.engine.program (runner.atExitStarts passes) runner after := by
  unfold runAtExit at hrun
  unfold atExitStarts
  cases hhook : runner.find? atExit with
  | none =>
      rw [hhook] at hrun
      cases hrun
      exact .refl _ _ runner
  | some hook =>
      rw [hhook] at hrun
      obtain ⟨⟨result, next⟩, hsupervise, hdone⟩ := bind_eq_ok_iff.mp hrun
      cases hdone
      have hlogs := supervise_logs hsupervise
      have hdescends := supervise_descends hsupervise
      obtain ⟨session, clock, rfl⟩ := supervise_frame hsupervise
      refine ⟨rfl, rfl, rfl, _, ⟨List.suffix_rfl, hdescends.program_eq, fun start hstart => ?_⟩,
        hlogs.journal⟩
      exact ⟨hook, hhook, hdescends.runs start hstart⟩

/-- The runner at its entry point, once its globals are initialised, and the messages that are
left then. -/
def atEntry (runner : Runner) (diagnostics : Diagnostics) : Runner × Diagnostics :=
  (({ runner with
      session := { runner.session with engine := runner.session.engine.log "globals" }
      state := .globalsInitialized } : Runner).presentReport diagnostics).map (enter · .running) id

theorem atEntry_session (runner : Runner) (diagnostics : Diagnostics) :
    (runner.atEntry diagnostics).1.session =
      { runner.session with engine := runner.session.engine.log "globals" } := by
  obtain ⟨presented, hpresented⟩ := presentReport_eq _ diagnostics
  rw [atEntry, Prod.map_fst, hpresented]
  rfl

theorem atEntry_reprogram (program : Program) (runner : Runner) (diagnostics : Diagnostics) :
    (runner.reprogram program).atEntry diagnostics =
      (runner.atEntry diagnostics).map (reprogram program) id := by
  have hpresent := presentReport_reprogram program
    { runner with
      session := { runner.session with engine := runner.session.engine.log "globals" }
      state := .globalsInitialized } diagnostics
  exact congrArg (Prod.map (enter · .running) id) hpresent

theorem runMain_initialized (hglobals : runner.session.engine.globalsFailure = none)
    (diagnostics : Diagnostics) (source : String) (entry : ScriptFunction) :
    runner.runMain passes diagnostics source entry =
      (runner.atEntry diagnostics).1.runEntry passes entry >>= fun ended =>
        ended.2.runAtExit passes >>= fun last =>
          .ok ((ended.1, (runner.atEntry diagnostics).2), last.drain) := by
  unfold runMain Engine.initializeGlobals
  rw [hglobals]
  rfl

theorem mainStarts_initialized (hglobals : runner.session.engine.globalsFailure = none)
    (diagnostics : Diagnostics) (entry : ScriptFunction) :
    runner.mainStarts passes diagnostics entry =
      (runner.atEntry diagnostics).1.superviseStarts passes entry
          (runner.atEntry diagnostics).1.exit ++
        startsAfter ((runner.atEntry diagnostics).1.runEntry passes entry) fun ended =>
          ended.2.atExitStarts passes := by
  unfold mainStarts Engine.initializeGlobals
  rw [hglobals]
  rfl

theorem runMain_uninitialized {reason : String}
    (hglobals : runner.session.engine.globalsFailure = some reason)
    (diagnostics : Diagnostics) (source : String) (entry : ScriptFunction) :
    runner.runMain passes diagnostics source entry =
      .ok ((.error (.globals (.globals reason)),
        diagnostics.promoteInformation.error source (RunError.globals (.globals reason)).message),
          runner.drain) := by
  unfold runMain Engine.initializeGlobals
  rw [hglobals]
  rfl

variable {base : Program} (hagree : runner.session.engine.program.AgreeOff atExit base)
  (hnever : runner.session.engine.program.NeverSpawns atExit)
  (hbase : base.find? atExit = none)
include hagree hnever hbase

/-- Without the hook at its end, the part of a run after its first hook ends in the same
way. -/
theorem runMain_without {diagnostics : Diagnostics} {source : String} {entry : ScriptFunction}
    {result : Except RunError RunOutcome × Diagnostics}
    (hentry : (Running.start entry).Avoids atExit)
    (hrun : runner.runMain passes diagnostics source entry = .ok (result, after)) :
    ∃ plain, (runner.reprogram base).runMain passes diagnostics source entry =
        .ok (result, plain) ∧
      EndsAs runner.session.engine.program (runner.mainStarts passes diagnostics entry) plain
        after ∧
      runner.session.engine.journal <+: plain.session.engine.journal := by
  have hfailure : (runner.reprogram base).session.engine.globalsFailure =
    runner.session.engine.globalsFailure := rfl
  cases hglobals : runner.session.engine.globalsFailure with
  | some reason =>
      rw [runMain_uninitialized hglobals] at hrun
      rw [runMain_uninitialized (hfailure.trans hglobals)]
      cases hrun
      exact ⟨_, rfl, .reprogram _ base _ runner.drain, List.prefix_rfl⟩
  | none =>
      rw [runMain_initialized hglobals] at hrun
      rw [runMain_initialized (hfailure.trans hglobals), atEntry_reprogram, Prod.map_fst,
        Prod.map_snd]
      have hsession := runner.atEntry_session diagnostics
      have hprogram : (runner.atEntry diagnostics).1.session.engine.program =
          runner.session.engine.program := by
        rw [hsession]
        rfl
      obtain ⟨⟨outcome, next⟩, hended, hrest⟩ := bind_eq_ok_iff.mp hrun
      obtain ⟨last, hlast, hdone⟩ := bind_eq_ok_iff.mp hrest
      cases hdone
      obtain ⟨lines, hlogs⟩ := runEntry_logs hended
      have hnone : (next.reprogram base).runAtExit passes = .ok (next.reprogram base) := by
        unfold runAtExit
        rw [show (next.reprogram base).find? atExit = none from hbase]
      have hends := (runAtExit_ends hlast).append ((runner.atEntry diagnostics).1.superviseStarts
        passes entry (runner.atEntry diagnostics).1.exit)
      rw [hlogs.program, hprogram] at hends
      rw [mainStarts_initialized hglobals, hended]
      refine ⟨(next.reprogram base).drain, ?_, ⟨hends.state, hends.exit, hends.presented,
        hends.journal⟩, ?_⟩
      · rw [runEntry_reprogram (hprogram ▸ hagree) (hprogram ▸ hnever) hentry, hended]
        simp only [Except.map, Prod.map_apply, id_eq, ok_bind, hnone]
      · have hlogged : runner.session.engine.journal <+:
            (runner.atEntry diagnostics).1.session.engine.journal := by
          rw [hsession]
          exact List.prefix_append _ _
        exact hlogged.trans hlogs.grows

omit hnever hbase in
theorem findEntry_reprogram :
    entryPoints.findSome? (runner.reprogram base).find? = entryPoints.findSome? runner.find? := by
  rw [entryPoints, List.findSome?_cons, List.findSome?_cons, List.findSome?_cons,
    List.findSome?_cons, find?_reprogram hagree (by decide), find?_reprogram hagree (by decide)]
  rfl

/-- Without the hook at its end, a run ends in the same way. -/
theorem run_without {diagnostics : Diagnostics} {source : String}
    {result : Except RunError RunOutcome × Diagnostics}
    (hrun : runner.run passes diagnostics source = .ok (result, after)) :
    ∃ plain, (runner.reprogram base).run passes diagnostics source = .ok (result, plain) ∧
      EndsAs runner.session.engine.program (runner.starts passes diagnostics) plain after ∧
      runner.session.engine.journal <+: plain.session.engine.journal := by
  have hhooked := find?_reprogram hagree (show beforeGlobals ≠ atExit by decide)
  unfold run at hrun ⊢
  unfold starts
  rw [findEntry_reprogram hagree, hhooked]
  cases hfound : entryPoints.findSome? runner.find? with
  | none =>
      rw [hfound] at hrun
      cases hrun
      exact ⟨_, rfl, .reprogram _ base _ _, List.prefix_rfl⟩
  | some entry =>
      have hentry : (Running.start entry).Avoids atExit := by
        obtain ⟨declaration, -, hdeclared⟩ := List.exists_of_findSome?_eq_some hfound
        exact hnever.avoids hdeclared
      rw [hfound] at hrun
      simp only at hrun ⊢
      cases hhook : runner.find? beforeGlobals with
      | none =>
          rw [hhook] at hrun
          exact runMain_without hagree hnever hbase hentry hrun
      | some hook =>
          rw [hhook] at hrun
          obtain ⟨⟨ended, next⟩, hended, hrest⟩ := bind_eq_ok_iff.mp hrun
          obtain ⟨lines, hlogs⟩ : ∃ lines, runner.session.Logs lines next.session :=
            @runBeforeGlobals_logs (runner.enter .preGlobals) next passes _ hook hended
          have hplain : ((runner.reprogram base).enter .preGlobals).runBeforeGlobals passes hook =
              .ok (ended, next.reprogram base) := by
            have hcommutes := @runBeforeGlobals_reprogram atExit base
              (runner.enter .preGlobals) hook hagree hnever (hnever.avoids hhook) passes
            rw [hended] at hcommutes
            exact hcommutes
          simp only [hplain, hended, ok_bind]
          cases ended with
          | error error =>
              cases hrest
              exact ⟨_, rfl, .reprogram _ base _ _, hlogs.grows⟩
          | ok ended =>
              cases ended with
              | some outcome =>
                  cases hrest
                  exact ⟨_, rfl, .reprogram _ base _ next.drain, hlogs.grows⟩
              | none =>
                  obtain ⟨plain, hrun', hends, hjournal⟩ := runMain_without
                    (hlogs.program ▸ hagree) (hlogs.program ▸ hnever) hbase hentry hrest
                  rw [hlogs.program] at hends
                  exact ⟨plain, hrun', hends.append _, hlogs.grows.trans hjournal⟩

end Runner

/-! ## Two hooks -/

/-- The program without one declaration. -/
def Program.without (program : Program) (declaration : String) : Program where
  debug := program.debug
  functions := program.functions.filter fun entry => entry.1 ≠ declaration
  ordered := program.ordered.sublist List.filter_sublist

theorem Program.without_find?_self (program : Program) (declaration : String) :
    (program.without declaration).find? declaration = none := by
  refine Option.map_eq_none_iff.mpr (List.lookup_eq_none_iff.mpr fun entry hentry => ?_)
  have hother : entry.1 ≠ declaration := of_decide_eq_true (List.mem_filter.mp hentry).2
  exact bne_iff_ne.mpr hother.symm

theorem Program.agreeOff_without (program : Program) (declaration : String) :
    program.AgreeOff declaration (program.without declaration) := by
  intro other hother
  refine congrArg (Option.map _) ?_
  show program.functions.lookup other =
    (program.functions.filter fun entry => entry.1 ≠ declaration).lookup other
  induction program.functions with
  | nil => rfl
  | cons entry entries ih =>
      obtain ⟨first, steps⟩ := entry
      rw [List.lookup_cons, List.filter_cons]
      by_cases hfirst : first = declaration
      · rw [beq_eq_false_iff_ne.mpr (hfirst ▸ hother), if_neg (by simp [hfirst])]
        exact ih
      · rw [if_pos (by simp [hfirst]), List.lookup_cons, ih]

namespace Runner

/-- The hook at the end has no say in a run.  With two programs that differ in their hooks
only, neither of which is started by a step, runs that come to an end have the same outcome,
leave the same messages and the same state and exit request, and have shown the same to the
user.  Their journals have a common start, which each goes on with what its hook and the
contexts that the hook starts log in the last turns. -/
theorem run_hookBlind {runner after after' : Runner} {left right : Program}
    {passes passes' : Nat} {diagnostics rest rest' : Diagnostics} {source : String}
    {outcome outcome' : Except RunError RunOutcome} (hagree : left.AgreeOff atExit right)
    (hleft : left.NeverSpawns atExit) (hright : right.NeverSpawns atExit)
    (hrun : (runner.reprogram left).run passes diagnostics source = .ok ((outcome, rest), after))
    (hrun' : (runner.reprogram right).run passes' diagnostics source =
      .ok ((outcome', rest'), after')) :
    outcome' = outcome ∧ rest' = rest ∧ after'.state = after.state ∧ after'.exit = after.exit ∧
      after'.presented = after.presented ∧
      ∃ common own own', runner.session.engine.journal <+: common ∧
        after.session.engine.journal = common ++ own.flatMap TurnStart.logged ∧
        after'.session.engine.journal = common ++ own'.flatMap TurnStart.logged ∧
        left.HookTurns ((runner.reprogram left).starts passes diagnostics) own ∧
        right.HookTurns ((runner.reprogram right).starts passes' diagnostics) own' := by
  let base : Program := left.without atExit
  have hbase : base.find? atExit = none := left.without_find?_self atExit
  have hagree' : right.AgreeOff atExit base := fun declaration hdeclaration =>
    (hagree declaration hdeclaration).symm.trans
      (left.agreeOff_without atExit declaration hdeclaration)
  obtain ⟨plain, hplain, hends, hjournal⟩ := @run_without (runner.reprogram left) after passes
    base (left.agreeOff_without atExit) hleft hbase _ _ _ hrun
  obtain ⟨plain', hplain', hends', -⟩ := @run_without (runner.reprogram right) after' passes'
    base hagree' hright hbase _ _ _ hrun'
  -- Without its hook, either run is the same run, but for the passes that it may make.
  have hlong := run_settles _ diagnostics source _ _ hplain _ (Nat.le_max_left passes passes')
  have hlong' := run_settles _ diagnostics source _ _ hplain' _ (Nat.le_max_right passes passes')
  obtain ⟨⟨rfl, rfl⟩, rfl⟩ := Prod.mk.inj (Except.ok.inj (hlong.symm.trans hlong'))
  obtain ⟨own, hown, hlogged⟩ := hends.journal
  obtain ⟨own', hown', hlogged'⟩ := hends'.journal
  exact ⟨rfl, rfl, hends'.state.trans hends.state.symm, hends'.exit.trans hends.exit.symm,
    hends'.presented.trans hends.presented.symm, plain.session.engine.journal, own, own',
    hjournal, hlogged, hlogged', hown, hown'⟩

/-- The program of an entry point that asks for the end, with a hook for that end. -/
def partingWith (hook : List Step) : Program :=
  .ofFunctions true
    [("int main()", [.spawn "void child()", .log "main", .exit 5]),
      ("void child()", [.log "child"]), ("void on_exit()", hook)]

theorem run_hookBlind_raising :
    ∃ (runner after after' : Runner) (left right : Program) (outcome : RunOutcome)
      (rest : Diagnostics) (common : List String) (own own' : List TurnStart),
      left.AgreeOff atExit right ∧ left.NeverSpawns atExit ∧ right.NeverSpawns atExit ∧
      (runner.reprogram left).run 10 {} "main.script" = .ok ((.ok outcome, rest), after) ∧
      (runner.reprogram right).run 20 {} "main.script" = .ok ((.ok outcome, rest), after') ∧
      outcome = ⟨.aborted, 5⟩ ∧ after'.state = after.state ∧ after'.exit = after.exit ∧
      after'.presented = after.presented ∧
      after.session.engine.journal = common ++ own.flatMap TurnStart.logged ∧
      after'.session.engine.journal = common ++ own'.flatMap TurnStart.logged ∧
      left.HookTurns ((runner.reprogram left).starts 10 {}) own ∧
      right.HookTurns ((runner.reprogram right).starts 20 {}) own' ∧
      after.session.engine.journal = ["globals", "main", "bye", "child"] ∧
      after'.session.engine.journal = ["globals", "main"] := by
  let left : Program := partingWith [.log "bye", .spawn "void child()", .raise "late"]
  let right : Program := partingWith [.exit 7]
  let runner : Runner := { session := .ofEngine {} false, clock := .ticking 1000 }
  have hagree : left.AgreeOff atExit right := by
    have hsame : left.without atExit = right.without atExit := by decide +kernel
    intro declaration hdeclaration
    rw [left.agreeOff_without atExit declaration hdeclaration, hsame,
      right.agreeOff_without atExit declaration hdeclaration]
  have hleft : left.NeverSpawns atExit := by
    show ∀ entry ∈ left.functions, Step.spawn atExit ∉ entry.2
    decide +kernel
  have hright : right.NeverSpawns atExit := by
    show ∀ entry ∈ right.functions, Step.spawn atExit ∉ entry.2
    decide +kernel
  obtain ⟨⟨⟨result, rest⟩, after⟩, hrun, hresult⟩ := exists_eq_ok_of_any
    ((runner.reprogram left).run 10 {} "main.script")
    (fun result => result.1.1.toOption = some ⟨.aborted, 5⟩ ∧
      result.2.session.engine.journal = ["globals", "main", "bye", "child"]) (by decide +kernel)
  obtain ⟨⟨⟨result', rest'⟩, after'⟩, hrun', hjournal'⟩ := exists_eq_ok_of_any
    ((runner.reprogram right).run 20 {} "main.script")
    (fun result => result.2.session.engine.journal = ["globals", "main"]) (by decide +kernel)
  obtain ⟨houtcome, hjournal⟩ := of_decide_eq_true hresult
  cases result with
  | error error => cases houtcome
  | ok outcome =>
      obtain ⟨rfl, rfl, hstate, hexit, hpresented, common, own, own', -, hlogged, hlogged', hown,
        hown'⟩ := run_hookBlind hagree hleft hright hrun hrun'
      exact ⟨runner, after, after', left, right, outcome, rest', common, own, own', hagree, hleft,
        hright, hrun, hrun', Option.some.inj houtcome, hstate, hexit, hpresented, hlogged,
        hlogged', hown, hown', hjournal, of_decide_eq_true hjournal'⟩

end Runner

end ScriptBundle
