import Mathlib.Logic.Relation
import ScriptBundle.Proofs.Schedule.Exceptions
import ScriptBundle.Proofs.Schedule.Rounds

/-!
# Lineages

Every context of a supervisor runs the function that was started first, or one that another
context has started.  So what the first function has, what stays as a function goes on and
what a function hands to those it starts, all contexts have in common.
-/

namespace ScriptBundle

open Ledger

namespace Program

/-- The function that a step starts. -/
def started? (program : Program) : Step → Option ScriptFunction
  | .spawn target => program.find? target
  | _ => none

/-- The functions that some steps start.  A step that names no function starts none. -/
def spawnedBy (program : Program) (steps : List Step) : List ScriptFunction :=
  steps.filterMap program.started?

/-- A function starts another one. -/
def Spawns (program : Program) (first second : ScriptFunction) : Prop :=
  second ∈ program.spawnedBy first.steps

/-- A function is another one, starts it, or starts one that leads to it. -/
abbrev Leads (program : Program) : ScriptFunction → ScriptFunction → Prop :=
  Relation.ReflTransGen program.Spawns

theorem spawnedBy_append (program : Program) (first second : List Step) :
    program.spawnedBy (first ++ second) = program.spawnedBy first ++ program.spawnedBy second :=
  List.filterMap_append

theorem mem_spawnedBy_iff {program : Program} {steps : List Step} {function : ScriptFunction} :
    function ∈ program.spawnedBy steps ↔
      ∃ target, Step.spawn target ∈ steps ∧ program.find? target = some function := by
  constructor
  · intro hfunction
    obtain ⟨step, hstep, hfound⟩ := List.mem_filterMap.mp hfunction
    cases step with
    | spawn target => exact ⟨target, hstep, hfound⟩
    | _ => cases hfound
  · rintro ⟨target, hstep, hfound⟩
    exact List.mem_filterMap.mpr ⟨.spawn target, hstep, hfound⟩

theorem mem_functions_of_find? {program : Program} {declaration : String}
    {function : ScriptFunction} (hfound : program.find? declaration = some function) :
    (function.declaration, function.steps) ∈ program.functions := by
  obtain ⟨steps, hlookup, rfl⟩ := Option.map_eq_some_iff.mp hfound
  obtain ⟨earlier, later, hfunctions, -⟩ := List.lookup_eq_some_iff.mp hlookup
  rw [hfunctions]
  exact List.mem_append_right _ List.mem_cons_self

end Program

/-! ## What a turn starts and logs -/

/-- The line that a step adds to the journal. -/
def Step.logged? : Step → Option String
  | .log text => some text
  | _ => none

theorem runSteps_spawned (program : Program) (declaration : String) (rest : List Step)
    (taken : Nat) (line : UInt32) :
    (runSteps program declaration rest taken line).effects.spawned =
      program.spawnedBy (executed program rest) := by
  induction rest generalizing taken line with
  | nil => rfl
  | cons step rest ih =>
      cases step with
      | signal | line | log => exact ih (taken + 1) _
      | spawn target =>
          rw [runSteps, executed, Step.goesOn, Program.spawnedBy]
          cases htarget : program.find? target with
          | none =>
              have hnone : program.started? (.spawn target) = none := htarget
              rw [List.filterMap_cons_none hnone]
              rfl
          | some function =>
              have hsome : program.started? (.spawn target) = some function := htarget
              rw [List.filterMap_cons_some hsome]
              exact congrArg (function :: ·) (ih (taken + 1) line)
      | yield | sleep | wait | exit | raise | exitThenRaise | finish => rfl

theorem runSteps_journal (program : Program) (declaration : String) (rest : List Step)
    (taken : Nat) (line : UInt32) :
    (runSteps program declaration rest taken line).effects.journal =
      (executed program rest).filterMap Step.logged? := by
  induction rest generalizing taken line with
  | nil => rfl
  | cons step rest ih =>
      cases step with
      | signal | line => exact ih (taken + 1) _
      | log text => exact congrArg (text :: ·) (ih (taken + 1) line)
      | spawn target =>
          rw [runSteps, executed, Step.goesOn, List.filterMap_cons_none rfl]
          cases program.find? target with
          | none => rfl
          | some function =>
              rw [Option.isSome_some, if_pos rfl]
              exact ih (taken + 1) line
      | yield | sleep | wait | exit | raise | exitThenRaise | finish => rfl

theorem runSteps_declaration (program : Program) (declaration : String) (rest : List Step)
    (taken : Nat) (line : UInt32) :
    (runSteps program declaration rest taken line).running.declaration = declaration := by
  induction rest generalizing taken line with
  | nil => rfl
  | cons step rest ih =>
      cases step with
      | signal | line | log => exact ih (taken + 1) _
      | spawn target =>
          rw [runSteps]
          cases program.find? target with
          | none => rfl
          | some function => exact ih (taken + 1) line
      | yield | sleep | wait | exit | raise | exitThenRaise | finish => rfl

namespace Context

theorem observed_spawned (context : Context) (effects : Effects) :
    (context.observed effects).spawned = effects.spawned := by
  unfold observed
  split
  · rfl
  · split <;> rfl

theorem observed_journal (context : Context) (effects : Effects) :
    (context.observed effects).journal = effects.journal := by
  unfold observed
  split
  · rfl
  · split <;> rfl

theorem resume_spawned (program : Program) (context : Context) :
    (context.resume program).2.1.spawned = program.spawnedBy (context.nextSteps program) := by
  unfold resume nextSteps
  cases context.running with
  | none => exact context.observed_spawned _
  | some running => exact (context.observed_spawned _).trans (runSteps_spawned _ _ _ _ _)

theorem resume_journal (program : Program) (context : Context) :
    (context.resume program).2.1.journal =
      (context.nextSteps program).filterMap Step.logged? := by
  unfold resume nextSteps
  cases context.running with
  | none => exact context.observed_journal _
  | some running => exact (context.observed_journal _).trans (runSteps_journal _ _ _ _ _)

/-- The steps that are still to come after a turn are those that the turn has not taken. -/
theorem resume_running (program : Program) {context : Context} {running : Running}
    (hrunning : context.running = some running) :
    ∃ later, (context.resume program).1.running = some later ∧
      later.declaration = running.declaration ∧
      context.nextSteps program ++ later.rest = running.rest := by
  let turn := runSteps program running.declaration running.rest running.taken running.line
  refine ⟨turn.running, ?_, runSteps_declaration _ _ _ _ _, ?_⟩
  · rw [resume, hrunning]
  · rw [nextSteps, hrunning]
    exact runSteps_rest program _ running.rest _ _

theorem exists_of_mem_spawned {program : Program} {context : Context} {function : ScriptFunction}
    (hfunction : function ∈ (context.resume program).2.1.spawned) :
    ∃ running ∈ context.running, function ∈ program.spawnedBy running.rest := by
  rw [resume_spawned] at hfunction
  cases hrunning : context.running with
  | none =>
      rw [nextSteps, hrunning] at hfunction
      exact (List.not_mem_nil hfunction).elim
  | some running =>
      obtain ⟨later, -, -, hrest⟩ := resume_running program hrunning
      refine ⟨running, rfl, ?_⟩
      rw [← hrest, Program.spawnedBy_append]
      exact List.mem_append_left _ hfunction

end Context

/-- The lines that a turn adds to the journal. -/
def TurnStart.logged (start : TurnStart) : List String :=
  (start.task.context.nextSteps start.supervisor.session.engine.program).filterMap Step.logged?

/-! ## What is handed on -/

/-- A property of running functions stays as they go on, and holds of those they start. -/
structure Program.Hereditary (program : Program) (kept : Running → Prop) : Prop where
  goes_on : ∀ {running later : Running}, kept running →
    later.declaration = running.declaration → later.rest <:+ running.rest → kept later
  started : ∀ {running : Running} {function : ScriptFunction}, kept running →
    function ∈ program.spawnedBy running.rest → kept (.start function)

/-- What a context runs, if it runs anything. -/
def Context.Runs (kept : Running → Prop) (context : Context) : Prop :=
  ∀ running ∈ context.running, kept running

namespace Supervisor

/-- What all active contexts run. -/
def AllRun (kept : Running → Prop) (supervisor : Supervisor) : Prop :=
  ∀ task ∈ supervisor.active, task.context.Runs kept

variable {supervisor after last : Supervisor} {starts : List TurnStart} {more : Bool}
  {program : Program} {kept : Running → Prop}

theorem AllRun.context? (hall : supervisor.AllRun kept) {id : ContextId} {context : Context}
    (hcontext : supervisor.context? id = some context) : context.Runs kept := by
  obtain ⟨task, htask, rfl⟩ := Option.map_eq_some_iff.mp hcontext
  exact hall task (List.mem_of_find?_eq_some htask)

theorem AllRun.remove (hall : supervisor.AllRun kept) (id : ContextId) :
    (supervisor.remove id).AllRun kept :=
  fun task htask => hall task (List.mem_filter.mp htask).1

theorem AllRun.keep (hall : supervisor.AllRun kept) {task : Task}
    (htask : task.context.Runs kept) : (supervisor.keep task).AllRun kept := by
  intro other hother
  rcases List.mem_append.mp hother with hold | hnew
  · exact hall.remove task.id other hold
  · rw [List.mem_singleton.mp hnew]
    exact htask

theorem AllRun.add (hall : supervisor.AllRun kept) {function : ScriptFunction}
    (hfunction : kept (.start function)) (retain : Bool) :
    (supervisor.add function retain).2.AllRun kept := by
  unfold Supervisor.add Context.prepare
  simp only
  split
  · exact hall
  · rename_i context hprepared
    refine hall.keep fun running hrunning => ?_
    split at hprepared <;> cases hprepared
    cases hrunning
    exact hfunction

theorem AllRun.spawn (hall : supervisor.AllRun kept) {functions : List ScriptFunction}
    (hfunctions : ∀ function ∈ functions, kept (.start function)) :
    (supervisor.spawn functions).AllRun kept := by
  induction functions generalizing supervisor with
  | nil => exact hall
  | cons function functions ih =>
      rw [List.forall_mem_cons] at hfunctions
      exact ih (hall.add hfunctions.1 false) hfunctions.2

theorem AllRun.perform (hall : supervisor.AllRun kept) {effects : Effects}
    (hspawned : ∀ function ∈ effects.spawned, kept (.start function)) :
    (supervisor.perform effects).AllRun kept := by
  have hrecorded : (supervisor.record effects).AllRun kept := hall
  have hstarted := hrecorded.spawn hspawned
  obtain ⟨_, _, _, hdelivered⟩ :=
    foldl_deliver_eq effects.signalled ((supervisor.record effects).spawn effects.spawned)
  rw [Supervisor.perform, hdelivered]
  exact hstarted

/-- A context that comes to an end leaves its result or goes back to the pool.  Another one
is queued. -/
theorem settle_eq {task : Task} {state : ExecutionState} {now : Instant}
    (hsettle : supervisor.settle task state now = .ok after) :
    (state.isTerminal = false ∧ ∃ ready sleeping waiting latched,
        after = { supervisor.keep task with ready, sleeping, waiting, latched }) ∨
      state.isTerminal = true ∧ ((∃ results, after = { supervisor with results }) ∨
        after = { supervisor with session := supervisor.session.release task.context }) := by
  cases state with
  | suspended suspension => exact .inl ⟨rfl, park_frame hsettle⟩
  | aborted =>
      cases hsettle
      exact .inr ⟨rfl, .inl (supervisor.conclude_eq _ _ _)⟩
  | finished | exception =>
      simp only [settle] at hsettle
      split at hsettle <;> cases hsettle
      · exact .inr ⟨rfl, .inl (supervisor.conclude_eq _ _ _)⟩
      · exact .inr ⟨rfl, .inr rfl⟩

theorem AllRun.settle (hall : supervisor.AllRun kept) {task : Task}
    (htask : task.context.Runs kept) {state : ExecutionState} {now : Instant}
    (hsettle : supervisor.settle task state now = .ok after) : after.AllRun kept := by
  rcases settle_eq hsettle with ⟨-, _, _, _, _, rfl⟩ | ⟨-, ⟨_, rfl⟩ | rfl⟩
  · exact hall.keep htask
  · exact hall
  · exact hall

theorem resume_runs (hhereditary : program.Hereditary kept) {context : Context}
    (hruns : context.Runs kept) :
    (context.resume program).1.Runs kept ∧
      ∀ function ∈ (context.resume program).2.1.spawned, kept (.start function) := by
  constructor
  · cases hrunning : context.running with
    | none =>
        have hresume : (context.resume program).1 = context := by rw [Context.resume, hrunning]
        rw [hresume]
        exact hruns
    | some running =>
        obtain ⟨later, hlater, hdeclaration, hrest⟩ := Context.resume_running program hrunning
        intro other hother
        rw [hlater] at hother
        cases hother
        exact hhereditary.goes_on (hruns running hrunning) hdeclaration ⟨_, hrest⟩
  · intro function hfunction
    obtain ⟨running, hrunning, hstarted⟩ := Context.exists_of_mem_spawned hfunction
    exact hhereditary.started (hruns running hrunning) hstarted

theorem turn_allRun (hhereditary : program.Hereditary kept)
    (hprogram : supervisor.session.engine.program = program) (hall : supervisor.AllRun kept)
    {task : Task} (htask : task.context.Runs kept) (hturn : supervisor.turn task = .ok after) :
    after.AllRun kept := by
  rcases hresume : task.context.resume supervisor.session.engine.program with
    ⟨context, effects, state⟩
  obtain ⟨hcontext, hspawned⟩ := resume_runs hhereditary htask
  rw [← hprogram, hresume] at hcontext hspawned
  rw [turn_eq hresume] at hturn
  have hread : supervisor.readClock.2.AllRun kept := hall
  have hperformed := hread.perform hspawned
  exact hperformed.settle hcontext hturn

end Supervisor

/-! ## Programs and journals -/

/-- A session has the program of an earlier one, and some more lines in its journal. -/
structure Session.Logs (earlier : Session) (lines : List String) (later : Session) : Prop where
  program : later.engine.program = earlier.engine.program
  journal : later.engine.journal = earlier.engine.journal ++ lines

namespace Session

variable {earlier middle later : Session} {lines more : List String}

theorem Logs.still (hprogram : later.engine.program = earlier.engine.program)
    (hjournal : later.engine.journal = earlier.engine.journal) : earlier.Logs [] later :=
  ⟨hprogram, hjournal.trans (List.append_nil _).symm⟩

theorem Logs.trans (hfirst : earlier.Logs lines middle) (hsecond : middle.Logs more later) :
    earlier.Logs (lines ++ more) later where
  program := hsecond.program.trans hfirst.program
  journal := by rw [hsecond.journal, hfirst.journal, List.append_assoc]

theorem Logs.silent (hfirst : earlier.Logs lines middle) (hsecond : middle.Logs [] later) :
    earlier.Logs lines later := by
  rw [← List.append_nil lines]
  exact hfirst.trans hsecond

theorem Logs.grows (hlogs : earlier.Logs lines later) :
    earlier.engine.journal <+: later.engine.journal :=
  ⟨lines, hlogs.journal.symm⟩

theorem acquire_logs (session : Session) : session.Logs [] session.acquire.2 := by
  rw [acquire, ContextPool.acquire]
  cases session.pool.reuse? with
  | none => exact .still rfl rfl
  | some taken => exact .still rfl rfl

end Session

namespace Supervisor

variable {supervisor after last : Supervisor} {starts : List TurnStart} {more : Bool}
  {program : Program} {kept : Running → Prop}

theorem add_logs (supervisor : Supervisor) (function : ScriptFunction) (retain : Bool) :
    supervisor.session.Logs [] (supervisor.add function retain).2.session := by
  refine supervisor.session.acquire_logs.silent ?_
  unfold add
  simp only
  split <;> exact .still rfl rfl

theorem logs_of_add {function : ScriptFunction} {retain : Bool}
    {result : Except EngineError ContextId}
    (hadd : supervisor.add function retain = (result, after)) :
    supervisor.session.Logs [] after.session := by
  have hadded := supervisor.add_logs function retain
  rwa [hadd] at hadded

theorem spawn_logs (supervisor : Supervisor) (functions : List ScriptFunction) :
    supervisor.session.Logs [] (supervisor.spawn functions).session := by
  induction functions generalizing supervisor with
  | nil => exact .still rfl rfl
  | cons function functions ih => exact (supervisor.add_logs function false).silent (ih _)

theorem perform_logs (supervisor : Supervisor) (effects : Effects) :
    supervisor.session.Logs effects.journal (supervisor.perform effects).session := by
  obtain ⟨_, _, _, hdelivered⟩ :=
    foldl_deliver_eq effects.signalled ((supervisor.record effects).spawn effects.spawned)
  have hrecorded : supervisor.session.Logs effects.journal (supervisor.record effects).session :=
    ⟨rfl, rfl⟩
  rw [perform, hdelivered]
  exact hrecorded.silent ((supervisor.record effects).spawn_logs effects.spawned)

theorem settle_logs {task : Task} {state : ExecutionState} {now : Instant}
    (hsettle : supervisor.settle task state now = .ok after) :
    supervisor.session.Logs [] after.session := by
  rcases settle_eq hsettle with ⟨-, _, _, _, _, rfl⟩ | ⟨-, ⟨_, rfl⟩ | rfl⟩ <;> exact .still rfl rfl

theorem turn_logs {task : Task} (hturn : supervisor.turn task = .ok after) :
    supervisor.session.Logs (TurnStart.logged ⟨supervisor, task⟩) after.session := by
  rcases hresume : task.context.resume supervisor.session.engine.program with
    ⟨context, effects, state⟩
  have hjournal := Context.resume_journal supervisor.session.engine.program task.context
  rw [hresume] at hjournal
  rw [turn_eq hresume] at hturn
  rw [TurnStart.logged, ← hjournal]
  exact (supervisor.readClock.2.perform_logs effects).silent (settle_logs hturn)

/-- What holds of the turns of a round if their functions have something in common. -/
structure Descends (program : Program) (kept : Running → Prop) (starts : List TurnStart) :
    Prop where
  program_eq : ∀ start ∈ starts, start.supervisor.session.engine.program = program
  runs : ∀ start ∈ starts, start.task.context.Runs kept

theorem Descends.append {later : List TurnStart} (hstarts : Descends program kept starts)
    (hlater : Descends program kept later) : Descends program kept (starts ++ later) where
  program_eq start hstart := (List.mem_append.mp hstart).elim (hstarts.program_eq start)
    (hlater.program_eq start)
  runs start hstart := (List.mem_append.mp hstart).elim (hstarts.runs start) (hlater.runs start)

theorem descends_nil : Descends program kept [] :=
  ⟨List.forall_mem_nil _, List.forall_mem_nil _⟩

theorem Round.logs (hround : supervisor.Round starts last) :
    supervisor.session.Logs (starts.flatMap TurnStart.logged) last.session := by
  induction hround with
  | done => exact .still rfl rfl
  | turn hcontext hturn hrest ih => exact (turn_logs hturn).trans ih

theorem Round.descends (hround : supervisor.Round starts last)
    (hhereditary : program.Hereditary kept)
    (hprogram : supervisor.session.engine.program = program) (hall : supervisor.AllRun kept) :
    Descends program kept starts ∧ last.AllRun kept := by
  induction hround with
  | done => exact ⟨descends_nil, hall⟩
  | @turn supervisor next last id context starts hcontext hturn hrest ih =>
      have hcontext := hall.context? hcontext
      have hnext : next.session.engine.program = program :=
        (turn_logs hturn).program.trans hprogram
      have hremoved : (supervisor.remove id).session.engine.program = program := hprogram
      obtain ⟨hrest, hlast⟩ :=
        ih hnext (turn_allRun hhereditary hremoved (hall.remove id) hcontext hturn)
      exact ⟨⟨List.forall_mem_cons.mpr ⟨hprogram, hrest.program_eq⟩,
        List.forall_mem_cons.mpr ⟨hcontext, hrest.runs⟩⟩, hlast⟩

theorem opened_allRun (hall : supervisor.AllRun kept) : supervisor.opened.AllRun kept := by
  intro task htask
  rw [opened, refresh_active] at htask
  exact hall task htask

theorem opened_logs (supervisor : Supervisor) :
    supervisor.session.Logs [] supervisor.opened.session := by
  obtain ⟨_, _, _, _, _, hrefresh⟩ := supervisor.refresh_eq
  rw [opened, hrefresh]
  exact .still rfl rfl

theorem abortAll_logs (supervisor : Supervisor) :
    supervisor.session.Logs [] supervisor.abortAll.session := by
  obtain ⟨results, habort⟩ := supervisor.abortAll_frame
  rw [habort]
  exact .still rfl rfl

/-- A pass logs what its turns log. -/
theorem pass_logs (hbalanced : Balanced (supervisor.ledger [] []))
    (hpass : supervisor.pass = .ok (more, after)) :
    supervisor.session.Logs ((supervisor.passStarts undisturbed).flatMap TurnStart.logged)
      after.session := by
  obtain ⟨first, last, hfirst, hround, hending⟩ := pass_rounds hbalanced hpass
  have hlast : supervisor.session.Logs
      ((supervisor.passStarts undisturbed).flatMap TurnStart.logged) last.session := by
    rcases hfirst with rfl | rfl
    · exact hround.logs
    · exact supervisor.opened_logs.trans hround.logs
  rcases hending with rfl | ⟨clock, -, rfl⟩
  · exact hlast.silent last.abortAll_logs
  · exact hlast

/-- What all contexts run, those run to which a pass gives turns, and those that it leaves. -/
theorem pass_descends (hbalanced : Balanced (supervisor.ledger [] []))
    (hhereditary : program.Hereditary kept)
    (hprogram : supervisor.session.engine.program = program) (hall : supervisor.AllRun kept)
    (hpass : supervisor.pass = .ok (more, after)) :
    Descends program kept (supervisor.passStarts undisturbed) ∧ after.AllRun kept := by
  obtain ⟨first, last, hfirst, hround, hending⟩ := pass_rounds hbalanced hpass
  have hopened : first.session.engine.program = program ∧ first.AllRun kept := by
    rcases hfirst with rfl | rfl
    · exact ⟨hprogram, hall⟩
    · exact ⟨supervisor.opened_logs.program.trans hprogram, opened_allRun hall⟩
  obtain ⟨hstarts, hlast⟩ := hround.descends hhereditary hopened.1 hopened.2
  refine ⟨hstarts, ?_⟩
  rcases hending with rfl | ⟨clock, -, rfl⟩
  · intro task htask
    rw [abortAll_active] at htask
    exact (List.not_mem_nil htask).elim
  · exact hlast

/-! ## Runs -/

/-- Passes that follow each other, up to the last one. -/
inductive Passes : Supervisor → List TurnStart → Supervisor → Prop where
  | last {supervisor last : Supervisor} (hbalanced : Balanced (supervisor.ledger [] []))
      (hpass : supervisor.pass = .ok (false, last)) :
      Passes supervisor (supervisor.passStarts undisturbed) last
  | pass {supervisor next last : Supervisor} {starts : List TurnStart}
      (hbalanced : Balanced (supervisor.ledger [] []))
      (hpass : supervisor.pass = .ok (true, next)) (hrest : Passes next starts last) :
      Passes supervisor (supervisor.passStarts undisturbed ++ starts) last

theorem run_passes {passes : Nat} (hbalanced : Balanced (supervisor.ledger [] []))
    (hrun : supervisor.run passes = .ok last) :
    supervisor.Passes (supervisor.runStarts passes) last := by
  induction passes generalizing supervisor with
  | zero => cases hrun
  | succ passes ih =>
      rw [run] at hrun
      rw [runStarts]
      split at hrun
      · cases hrun
      · rename_i next hpass
        have hmoves := pass_moves hbalanced hpass
        rw [hpass]
        exact .pass hbalanced hpass (ih (hmoves.balanced_and_continues hbalanced).1 hrun)
      · rename_i next hpass
        cases hrun
        rw [hpass, List.append_nil]
        exact .last hbalanced hpass

theorem Passes.logs (hpasses : supervisor.Passes starts last) :
    supervisor.session.Logs (starts.flatMap TurnStart.logged) last.session := by
  induction hpasses with
  | last hbalanced hpass => exact pass_logs hbalanced hpass
  | pass hbalanced hpass hrest ih =>
      rw [List.flatMap_append]
      exact (pass_logs hbalanced hpass).trans ih

theorem Passes.descends (hpasses : supervisor.Passes starts last)
    (hhereditary : program.Hereditary kept)
    (hprogram : supervisor.session.engine.program = program) (hall : supervisor.AllRun kept) :
    Descends program kept starts := by
  induction hpasses with
  | last hbalanced hpass => exact (pass_descends hbalanced hhereditary hprogram hall hpass).1
  | @pass supervisor next last starts hbalanced hpass hrest ih =>
      obtain ⟨hstarts, hnext⟩ := pass_descends hbalanced hhereditary hprogram hall hpass
      exact hstarts.append (ih ((pass_logs hbalanced hpass).program.trans hprogram) hnext)

/-- Before its first pass a supervisor runs just the function that it was made for. -/
theorem create_add_allRun {session : Session} {clock : Clock} {exit : ExitRequest}
    {idlePoll : Nat} {function : ScriptFunction} {id : ContextId}
    (hadd : (create session clock exit idlePoll).add function true = (.ok id, supervisor))
    (hfunction : kept (.start function)) : supervisor.AllRun kept := by
  have hempty : (create session clock exit idlePoll).AllRun kept := List.forall_mem_nil _
  have hadded := hempty.add hfunction true
  rwa [hadd] at hadded

end Supervisor

/-! ## The functions to which a function leads -/

/-- A running function is one to which a function leads, and has taken some of its steps. -/
def Program.StemsFrom (program : Program) (root : ScriptFunction) (running : Running) : Prop :=
  ∃ function, program.Leads root function ∧ running.declaration = function.declaration ∧
    running.rest <:+ function.steps

theorem Program.StemsFrom.leads {program : Program} {root function : ScriptFunction}
    {running : Running} (hstems : program.StemsFrom root running)
    (hfunction : function ∈ program.spawnedBy running.rest) : program.Leads root function := by
  obtain ⟨starter, hleads, -, hrest⟩ := hstems
  obtain ⟨target, htarget, hfound⟩ := mem_spawnedBy_iff.mp hfunction
  exact hleads.tail (mem_spawnedBy_iff.mpr ⟨target, hrest.subset htarget, hfound⟩)

theorem Program.stemsFrom_hereditary (program : Program) (root : ScriptFunction) :
    program.Hereditary (program.StemsFrom root) where
  goes_on := by
    rintro running later ⟨function, hleads, hdeclaration, hrest⟩ hsame hlater
    exact ⟨function, hleads, hsame.trans hdeclaration, hlater.trans hrest⟩
  started {_ function} hstems hfunction :=
    ⟨function, hstems.leads hfunction, rfl, List.suffix_rfl⟩

theorem Program.stemsFrom_start (program : Program) (root : ScriptFunction) :
    program.StemsFrom root (.start root) :=
  ⟨root, .refl, rfl, List.suffix_rfl⟩

end ScriptBundle
