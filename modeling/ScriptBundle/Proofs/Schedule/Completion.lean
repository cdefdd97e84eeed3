import Mathlib.Algebra.Order.BigOperators.Group.List
import Mathlib.Algebra.Order.Ring.Nat
import ScriptBundle.Proofs.Schedule.Deadlines
import ScriptBundle.Proofs.Schedule.Sleepers
import ScriptBundle.Proofs.Schedule.Weights

/-!
# Coming to an end

If no function leads back to itself, a function and all that it starts take a bounded number
of turns.  The load of a supervisor bounds the turns that are still to come, and each turn
lowers it.  Between two turns the supervisor waits for its first sleeper, whose deadline
comes at last.
-/

namespace ScriptBundle

open Ledger

/-! ## Loads -/

/-- The turns that a running function can still take, and those of the functions that it can
still start. -/
def Running.load (program : Program) (running : Running) : Nat :=
  running.rest.length + 1 + ((program.spawnedBy running.rest).map program.weight).sum

/-- A context that runs nothing takes one turn, in which it finds this out. -/
def Context.load (program : Program) (context : Context) : Nat :=
  match context.running with
  | none => 1
  | some running => running.load program

variable {program : Program} {root : ScriptFunction}

theorem Program.Acyclic.load_start {function : ScriptFunction}
    (hacyclic : program.Acyclic function) :
    (Running.start function).load program = program.weight function :=
  (Program.weight_eq hacyclic).symm

namespace Context

theorem nextSteps_ne_nil {context : Context}
    (hstate : (context.resume program).2.2.isTerminal = false) :
    context.nextSteps program ≠ [] := by
  unfold resume at hstate
  unfold nextSteps
  cases hrunning : context.running with
  | none =>
      rw [hrunning] at hstate
      cases hstate
  | some running =>
      simp only [hrunning] at hstate ⊢
      cases hrest : running.rest with
      | nil =>
          rw [hrest] at hstate
          cases hstate
      | cons step rest => exact List.cons_ne_nil _ _

/-- A turn takes one off the load of its context.  The rest stays with the context, if that
is to go on, and goes to the functions that it starts. -/
theorem resume_load (context : Context) :
    (if (context.resume program).2.2.isTerminal then 0
        else (context.resume program).1.load program) +
      ((context.resume program).2.1.spawned.map program.weight).sum + 1 ≤
        context.load program := by
  rw [resume_spawned]
  cases hrunning : context.running with
  | none =>
      have hsteps : context.nextSteps program = [] := by rw [nextSteps, hrunning]
      have hstate : (context.resume program).2.2.isTerminal = true := by rw [resume, hrunning]; rfl
      have hload : context.load program = 1 := by rw [load, hrunning]
      rw [hsteps, hload, if_pos hstate]
      exact Nat.le_refl 1
  | some running =>
      obtain ⟨later, hlater, -, hrest⟩ := resume_running program hrunning
      have hload : context.load program =
          (context.nextSteps program).length + later.rest.length + 1 +
            (((program.spawnedBy (context.nextSteps program)).map program.weight).sum +
              ((program.spawnedBy later.rest).map program.weight).sum) := by
        rw [load, hrunning]
        simp only [Running.load]
        rw [← hrest, Program.spawnedBy_append, List.length_append, List.map_append,
          List.sum_append]
      have hkept : (context.resume program).1.load program = later.rest.length + 1 +
          ((program.spawnedBy later.rest).map program.weight).sum := by
        rw [load, hlater]
        rfl
      rw [hload, hkept]
      split
      · omega
      · rename_i hstate
        have hsteps := List.length_pos_iff.mpr
          (nextSteps_ne_nil (Bool.eq_false_iff.mpr hstate))
        omega

end Context

/-! ## Waiting -/

namespace Clock

/-- The time moves on.  Either the readings pass every time that a clock can show, for good, or
they do not go back and each wait takes some time. -/
def MovesOn (clock : Clock) (idlePoll : Nat) : Prop :=
  (∀ time < clockEnd, ∃ index, ∀ later, index ≤ later → time ≤ clock.readings later) ∨
    Monotone clock.readings ∧ 0 < idlePoll

theorem MovesOn.later {clock later : Clock} {idlePoll : Nat} (hmoves : clock.MovesOn idlePoll)
    (hlater : clock.Later later) : later.MovesOn idlePoll := by
  rw [MovesOn, hlater.readings]
  exact hmoves

/-- The clock after a pass that does nothing but wait for a sleeper. -/
def idled (clock : Clock) (deadline : Instant) (idlePoll : Nat) : Clock :=
  clock.read.2.read.2.wait (min (deadline - clock.read.2.read.1) idlePoll)

theorem later_idled (clock : Clock) (deadline : Instant) (idlePoll : Nat) :
    clock.Later (clock.idled deadline idlePoll) :=
  (clock.later_read.trans clock.read.2.later_read).trans (later_wait _ _)

/-- While a supervisor waits for a deadline, it comes closer to it. -/
theorem MovesOn.exists_distance {clock : Clock} {idlePoll : Nat}
    (hmoves : clock.MovesOn idlePoll) {deadline : Instant} (hdeadline : deadline < clockEnd) :
    ∃ distance : Clock → Nat, ∀ later, clock.Later later → later.read.1 < deadline →
      distance (later.idled deadline idlePoll) < distance later := by
  rcases hmoves with hpasses | ⟨hmonotone, hpoll⟩
  · obtain ⟨index, hindex⟩ := hpasses deadline hdeadline
    refine ⟨fun later => index - later.taken, fun later hlater hearly => ?_⟩
    have htaken : later.taken < index := by
      by_contra hpassed
      have hreading := hindex later.taken (Nat.le_of_not_lt hpassed)
      rw [← hlater.readings] at hreading
      exact Nat.not_lt.mpr (Nat.le_add_right_of_le hreading) hearly
    have hidled : (later.idled deadline idlePoll).taken = later.taken + 2 := rfl
    simp only [hidled]
    omega
  · refine ⟨fun later => deadline - later.read.1, fun later hlater hearly => ?_⟩
    have hreadings : Monotone later.readings := hlater.readings ▸ hmonotone
    have hfirst : later.read.1 ≤ later.read.2.read.1 := later.later_read.read_le hreadings
    have hsecond : later.read.2.read.1 ≤ later.read.2.read.2.read.1 :=
      later.read.2.later_read.read_le hreadings
    have hidled : (later.idled deadline idlePoll).read.1 = later.read.2.read.2.read.1 +
        min (deadline - later.read.2.read.1) idlePoll := (Nat.add_assoc _ _ _).symm
    have hcloser : ∀ first middle last time : Nat, first ≤ middle → middle ≤ last →
        first < time → time - (last + min (time - middle) idlePoll) < time - first := by
      intro first middle last time hfirst hlast hearly
      omega
    simp only [hidled]
    exact hcloser _ _ _ _ hfirst hsecond hearly

end Clock

namespace Supervisor

/-- The turns that the active contexts, and those that they start, can still take. -/
def load (program : Program) (supervisor : Supervisor) : Nat :=
  (supervisor.active.map fun task => task.context.load program).sum

variable {supervisor after last : Supervisor} {starts : List TurnStart} {more : Bool}

theorem load_remove {id : ContextId} {context : Context}
    (hcontext : supervisor.context? id = some context) :
    (supervisor.remove id).load program + context.load program ≤ supervisor.load program := by
  obtain ⟨task, htask, rfl⟩ := Option.map_eq_some_iff.mp hcontext
  have hid : task.id = id := of_decide_eq_true (List.find?_eq_some_iff_append.mp htask).1
  have htaken : task ∈ supervisor.active.filter fun task => !decide (task.id ≠ id) :=
    List.mem_filter.mpr ⟨List.mem_of_find?_eq_some htask, by simpa using hid⟩
  have hload : task.context.load program ≤ _ :=
    List.le_sum_of_mem (@List.mem_map_of_mem _ _ _ _ (fun task => task.context.load program) htaken)
  have hsplit := ((List.filter_append_perm (fun task : Task => decide (task.id ≠ id))
    supervisor.active).map fun task => task.context.load program).sum_nat
  rw [List.map_append, List.sum_append] at hsplit
  calc (supervisor.remove id).load program + task.context.load program
    _ ≤ _ := Nat.add_le_add_left hload _
    _ = supervisor.load program := hsplit

theorem load_keep (supervisor : Supervisor) (task : Task) :
    (supervisor.keep task).load program ≤
      supervisor.load program + task.context.load program := by
  have hothers : (supervisor.remove task.id).load program ≤ supervisor.load program :=
    (List.filter_sublist.map _).sum_le_sum fun _ _ => Nat.zero_le _
  have hkept : (supervisor.keep task).load program =
      (supervisor.remove task.id).load program + task.context.load program := by
    rw [load, keep, List.map_append, List.sum_append]
    rfl
  rw [hkept]
  exact Nat.add_le_add_right hothers _

theorem load_add (supervisor : Supervisor) (function : ScriptFunction) (retain : Bool) :
    (supervisor.add function retain).2.load program ≤
      supervisor.load program + (Running.start function).load program := by
  unfold add Context.prepare
  simp only
  split
  · exact Nat.le_add_right _ _
  · rename_i context hprepared
    have hcontext : context.load program = (Running.start function).load program := by
      split at hprepared <;> cases hprepared
      rfl
    rw [← hcontext]
    exact supervisor.load_keep { id := supervisor.nextId, context }

theorem load_spawn (supervisor : Supervisor) (functions : List ScriptFunction) :
    (supervisor.spawn functions).load program ≤ supervisor.load program +
      (functions.map fun function => (Running.start function).load program).sum := by
  induction functions generalizing supervisor with
  | nil => exact Nat.le_refl _
  | cons function functions ih =>
      have hfirst := @load_add program supervisor function false
      have hrest : (supervisor.spawn (function :: functions)).load program ≤ _ :=
        ih (supervisor.add function false).2
      rw [List.map_cons, List.sum_cons]
      omega

theorem load_perform (supervisor : Supervisor) (effects : Effects) :
    (supervisor.perform effects).load program ≤ supervisor.load program +
      (effects.spawned.map fun function => (Running.start function).load program).sum := by
  obtain ⟨_, _, _, hdelivered⟩ :=
    foldl_deliver_eq effects.signalled ((supervisor.record effects).spawn effects.spawned)
  rw [perform, hdelivered]
  exact (supervisor.record effects).load_spawn effects.spawned

/-- A context that comes to an end leaves no load behind. -/
theorem load_settle {task : Task} {state : ExecutionState} {now : Instant}
    (hsettle : supervisor.settle task state now = .ok after) :
    after.load program ≤ supervisor.load program +
      if state.isTerminal then 0 else task.context.load program := by
  rcases settle_eq hsettle with ⟨hstate, _, _, _, _, rfl⟩ | ⟨hstate, ⟨_, rfl⟩ | rfl⟩
  · rw [hstate]
    exact supervisor.load_keep task
  · exact Nat.le_add_right _ _
  · exact Nat.le_add_right _ _

/-! ## Turns, passes and runs -/

variable (hacyclic : program.Acyclic root)
  (hprogram : supervisor.session.engine.program = program)
include hacyclic hprogram

/-- A turn takes at least one off the load. -/
theorem turn_load {task : Task} (htask : task.context.Runs (program.StemsFrom root))
    (hturn : supervisor.turn task = .ok after) :
    after.load program + 1 ≤ supervisor.load program + task.context.load program := by
  have hresumed := @Context.resume_load program task.context
  have hstarted : ((task.context.resume program).2.1.spawned.map fun function =>
      (Running.start function).load program) =
        (task.context.resume program).2.1.spawned.map program.weight := by
    refine List.map_congr_left fun function hfunction => ?_
    obtain ⟨running, hrunning, hspawned⟩ := Context.exists_of_mem_spawned hfunction
    exact (hacyclic.leads ((htask running hrunning).leads hspawned)).load_start
  rcases hresume : task.context.resume program with ⟨context, effects, state⟩
  rw [hresume] at hresumed hstarted
  simp only at hresumed hstarted
  rw [turn_eq (hprogram ▸ hresume)] at hturn
  have hperformed : (supervisor.readClock.2.perform effects).load program ≤
      supervisor.load program + (effects.spawned.map program.weight).sum := by
    rw [← hstarted]
    exact load_perform supervisor.readClock.2 effects
  have hsettled : after.load program ≤ (supervisor.readClock.2.perform effects).load program +
      if state.isTerminal then 0 else context.load program := load_settle hturn
  omega

/-- Each turn of a round takes at least one off the load. -/
theorem Round.load (hround : supervisor.Round starts last)
    (hall : supervisor.AllRun (program.StemsFrom root)) :
    last.load program + starts.length ≤ supervisor.load program := by
  induction hround with
  | done => exact Nat.le_refl _
  | @turn supervisor next last id context starts hcontext hturn hrest ih =>
      have hhereditary := program.stemsFrom_hereditary root
      have hremoved : (supervisor.remove id).session.engine.program = program := hprogram
      have hruns := hall.context? hcontext
      have hnext : next.session.engine.program = program :=
        (turn_logs hturn).program.trans hprogram
      have hstep := turn_load hacyclic hremoved hruns hturn
      have hload := @load_remove program supervisor id context hcontext
      have hlater := ih hnext (turn_allRun hhereditary hremoved (hall.remove id) hruns hturn)
      rw [List.length_cons]
      simp only at hstep
      omega

theorem pass_load (hbalanced : Balanced (supervisor.ledger [] []))
    (hall : supervisor.AllRun (program.StemsFrom root))
    (hpass : supervisor.pass = .ok (more, after)) :
    after.load program + (supervisor.passStarts undisturbed).length ≤
      supervisor.load program := by
  obtain ⟨first, last, hfirst, hround, hending⟩ := pass_rounds hbalanced hpass
  have hload : last.load program + (supervisor.passStarts undisturbed).length ≤
      supervisor.load program := by
    rcases hfirst with rfl | rfl
    · exact hround.load hacyclic hprogram hall
    · have hsame : supervisor.opened.load program = supervisor.load program := by
        rw [load, opened, refresh_active, load]
      rw [← hsame]
      exact hround.load hacyclic (supervisor.opened_logs.program.trans hprogram)
        (opened_allRun hall)
  rcases hending with rfl | ⟨clock, -, rfl⟩
  · have haborted : last.abortAll.load program = 0 := by
      rw [load, abortAll_active]
      rfl
    omega
  · exact hload

/-- The load bounds the turns of a run. -/
theorem Passes.load (hpasses : supervisor.Passes starts last)
    (hall : supervisor.AllRun (program.StemsFrom root)) :
    starts.length ≤ supervisor.load program := by
  induction hpasses with
  | last hbalanced hpass =>
      have hload := pass_load hacyclic hprogram hbalanced hall hpass
      omega
  | @pass supervisor next last starts hbalanced hpass hrest ih =>
      have hload := pass_load hacyclic hprogram hbalanced hall hpass
      have hnext := (pass_logs hbalanced hpass).program.trans hprogram
      have hlater := ih hnext
        (pass_descends hbalanced (program.stemsFrom_hereditary root) hprogram hall hpass).2
      rw [List.length_append]
      omega

omit hacyclic hprogram

/-! ## Passes without a turn -/

theorem idle_of_sleeping {entry : Instant × ContextId} {entries : List (Instant × ContextId)}
    (hsleeping : supervisor.sleeping = entry :: entries) :
    supervisor.idle = (true, { supervisor with
      clock := supervisor.clock.read.2.wait
        (min (entry.1 - supervisor.clock.read.1) supervisor.idlePoll) }) := by
  cases supervisor
  cases hsleeping
  rfl

/-- A pass that gives no turn although there can be another one waits for the first of the
sleepers, whose deadline has not come. -/
theorem pass_quiet (hbalanced : Balanced (supervisor.ledger [] []))
    (hsenders : supervisor.senders = 0) (hstarts : supervisor.passStarts undisturbed = [])
    (hpass : supervisor.pass = .ok (true, after)) :
    ∃ entry, supervisor.sleeping.head? = some entry ∧ supervisor.clock.read.1 < entry.1 ∧
      after.sleeping = supervisor.sleeping ∧ after.active = supervisor.active ∧
      after.clock = supervisor.clock.idled entry.1 supervisor.idlePoll := by
  have hexit : supervisor.exit.requested = false := by
    by_contra hrequested
    rw [pass, if_pos (Bool.not_eq_false _ ▸ hrequested)] at hpass
    cases hpass
  have hready : supervisor.refresh.ready = [] := by
    obtain ⟨last, pending, hround, hqueue, hending⟩ := pass_played hbalanced hexit hpass
    rw [hstarts] at hround hqueue
    cases hround
    rcases hending with ⟨hrequested, -⟩ | ⟨-, rfl, -⟩
    · rw [opened, refresh_exit, hexit] at hrequested
      cases hrequested
    · exact hqueue
  have hdue : supervisor.due supervisor.clock.read.1 = [] := by
    rw [refresh_ready] at hready
    exact (List.append_eq_nil_iff.mp hready).2
  have hsame := sleeping_of_refresh hready
  rcases pass_eq_ok hexit hpass with ⟨-, -, hmore, -⟩ | ⟨-, -, hidle⟩ | ⟨hqueue, -⟩
  · cases hmore
  · cases hsleeping : supervisor.sleeping with
    | nil =>
        rw [idle, hsame, hsleeping] at hidle
        simp only [refresh_senders, hsenders, if_true] at hidle
        cases hidle
    | cons entry entries =>
        have hearly : supervisor.clock.read.1 < entry.1 := by
          rw [due, hsleeping, List.map_eq_nil_iff, List.takeWhile_cons] at hdue
          by_contra hlate
          rw [if_pos (decide_eq_true (Nat.le_of_not_lt hlate))] at hdue
          cases hdue
        have hpoll : supervisor.refresh.idlePoll = supervisor.idlePoll := by
          obtain ⟨_, _, _, _, _, hrefresh⟩ := supervisor.refresh_eq
          rw [hrefresh]
        rw [idle_of_sleeping (hsame.trans hsleeping), refresh_clock, hpoll] at hidle
        cases hidle
        exact ⟨entry, rfl, hearly, hsame.trans hsleeping, supervisor.refresh_active, rfl⟩
  · exact (hqueue hready).elim

/-- Those who can still send events, and the longest single wait. -/
def patience (supervisor : Supervisor) : Nat × Nat :=
  (supervisor.senders, supervisor.idlePoll)

theorem turn_patience {task : Task} (hturn : supervisor.turn task = .ok after) :
    after.patience = supervisor.patience := by
  rcases hresume : task.context.resume supervisor.session.engine.program with
    ⟨context, effects, state⟩
  rw [turn_eq hresume] at hturn
  have hperformed : (supervisor.readClock.2.perform effects).patience = supervisor.patience := by
    obtain ⟨_, _, _, _, hspawned, -⟩ :=
      (supervisor.readClock.2.record effects).spawn_frame effects.spawned
    obtain ⟨_, _, _, hdelivered⟩ := foldl_deliver_eq effects.signalled
      ((supervisor.readClock.2.record effects).spawn effects.spawned)
    rw [perform, hdelivered, hspawned]
    rfl
  rw [← hperformed]
  rcases settle_eq hturn with ⟨-, _, _, _, _, rfl⟩ | ⟨-, ⟨_, rfl⟩ | rfl⟩ <;> rfl

theorem Round.patience (hround : supervisor.Round starts last) :
    last.patience = supervisor.patience := by
  induction hround with
  | done => rfl
  | @turn supervisor next last id context starts hcontext hturn hrest ih =>
      have hnext : next.patience = (supervisor.remove id).patience := turn_patience hturn
      exact ih.trans hnext

theorem pass_patience (hbalanced : Balanced (supervisor.ledger [] []))
    (hpass : supervisor.pass = .ok (more, after)) : after.patience = supervisor.patience := by
  obtain ⟨first, last, hfirst, hround, hending⟩ := pass_rounds hbalanced hpass
  have hopened : first.patience = supervisor.patience := by
    rcases hfirst with rfl | rfl
    · rfl
    · obtain ⟨_, _, _, _, _, hrefresh⟩ := supervisor.refresh_eq
      rw [opened, hrefresh]
      rfl
  rw [← hopened, ← hround.patience]
  rcases hending with rfl | ⟨clock, -, rfl⟩
  · obtain ⟨results, habort⟩ := last.abortAll_frame
    rw [habort]
    rfl
  · rfl

/-! ## The end of a run -/

/-- The state of a supervisor that comes to an end by itself. -/
structure WindsDown (program : Program) (root : ScriptFunction) (supervisor : Supervisor) :
    Prop where
  acyclic : program.Acyclic root
  program_eq : supervisor.session.engine.program = program
  runs : supervisor.AllRun (program.StemsFrom root)
  balanced : Balanced (supervisor.ledger [] [])
  ordered : supervisor.Ordered
  senders : supervisor.senders = 0
  movesOn : supervisor.clock.MovesOn supervisor.idlePoll
  punctual : ∀ passes, ∀ start ∈ supervisor.runStarts passes, ¬start.Oversleeps

namespace WindsDown

theorem pass (hwinds : supervisor.WindsDown program root)
    (hpass : supervisor.pass = .ok (true, after)) : after.WindsDown program root := by
  have hpatience := pass_patience hwinds.balanced hpass
  constructor
  case acyclic => exact hwinds.acyclic
  case program_eq => exact (pass_logs hwinds.balanced hpass).program.trans hwinds.program_eq
  case runs =>
    exact (pass_descends hwinds.balanced (program.stemsFrom_hereditary root) hwinds.program_eq
      hwinds.runs hpass).2
  case balanced =>
    exact ((pass_moves hwinds.balanced hpass).balanced_and_continues hwinds.balanced).1
  case ordered => exact pass_ordered hwinds.balanced hwinds.ordered hpass
  case senders => exact (congrArg Prod.fst hpatience).trans hwinds.senders
  case movesOn =>
    rw [show after.idlePoll = supervisor.idlePoll from congrArg Prod.snd hpatience]
    exact hwinds.movesOn.later (pass_later hwinds.balanced hpass)
  case punctual =>
    intro passes start hstart
    apply hwinds.punctual (passes + 1)
    rw [runStarts, hpass]
    exact List.mem_append_right _ hstart

/-- A supervisor that does not come to its end in a pass gives a turn, or waits for the first
of its sleepers. -/
theorem progress (hwinds : supervisor.WindsDown program root) :
    (∃ last, supervisor.pass = .ok (false, last)) ∨
      ∃ next, supervisor.pass = .ok (true, next) ∧ next.WindsDown program root ∧
        (next.load program < supervisor.load program ∨
          ∃ entry, supervisor.sleeping.head? = some entry ∧ supervisor.clock.read.1 < entry.1 ∧
            next.sleeping = supervisor.sleeping ∧ next.load program = supervisor.load program ∧
            next.clock = supervisor.clock.idled entry.1 supervisor.idlePoll ∧
            next.idlePoll = supervisor.idlePoll) := by
  cases hpass : supervisor.pass with
  | error interruption =>
      obtain ⟨-, earlier, start, hstarts, hoversleeps⟩ := pass_eq_error hpass
      have hstart : start ∈ supervisor.runStarts 1 := by
        rw [runStarts, hstarts]
        exact List.mem_append_left _ (List.mem_append_right _ List.mem_cons_self)
      exact (hwinds.punctual 1 start hstart hoversleeps).elim
  | ok outcome =>
      obtain ⟨more, next⟩ := outcome
      cases more with
      | false => exact .inl ⟨next, rfl⟩
      | true =>
          refine .inr ⟨next, rfl, hwinds.pass hpass, ?_⟩
          have hload := pass_load hwinds.acyclic hwinds.program_eq hwinds.balanced hwinds.runs hpass
          cases hstarts : supervisor.passStarts undisturbed with
          | cons start starts =>
              rw [hstarts, List.length_cons] at hload
              exact .inl (Nat.lt_of_succ_le (Nat.le_trans (by omega) hload))
          | nil =>
              obtain ⟨entry, hentry, hearly, hsleeping, hactive, hclock⟩ :=
                pass_quiet hwinds.balanced hwinds.senders hstarts hpass
              refine .inr ⟨entry, hentry, hearly, hsleeping, ?_, hclock, ?_⟩
              · rw [load, hactive, load]
              · exact congrArg Prod.snd (pass_patience hwinds.balanced hpass)

/-- While the load stays the same, the supervisor waits for the same sleeper. -/
theorem exists_run_of_waits {turns : Nat} {sleeping : List (Instant × ContextId)}
    {distance : Clock → Nat} {clock : Clock} {idlePoll : Nat}
    (hdistance : ∀ entry ∈ sleeping.head?, ∀ later, clock.Later later →
      later.read.1 < entry.1 → distance (later.idled entry.1 idlePoll) < distance later)
    (hfewer : ∀ supervisor : Supervisor, supervisor.WindsDown program root →
      supervisor.load program < turns → ∃ passes last, supervisor.run passes = .ok last)
    (hwinds : supervisor.WindsDown program root) (hload : supervisor.load program = turns)
    (hsleeping : supervisor.sleeping = sleeping) (hlater : clock.Later supervisor.clock)
    (hpoll : supervisor.idlePoll = idlePoll) : ∃ passes last, supervisor.run passes = .ok last := by
  induction hleft : distance supervisor.clock using Nat.strong_induction_on generalizing supervisor
    with
  | _ left ih =>
      rcases hwinds.progress with ⟨last, hpass⟩ | ⟨next, hpass, hnext, hprogress⟩
      · exact ⟨1, last, by rw [run, hpass]⟩
      · have hrest : ∃ passes last, next.run passes = .ok last := by
          rcases hprogress with hless | ⟨entry, hentry, hearly, hkept, hsame, hclock, hpoll'⟩
          · exact hfewer next hnext (hload ▸ hless)
          · subst hsleeping hpoll
            refine ih _ ?_ hnext (hsame.trans hload) hkept ?_ hpoll' rfl
            · rw [← hleft, hclock]
              exact hdistance entry hentry supervisor.clock hlater hearly
            · rw [hclock]
              exact hlater.trans (supervisor.clock.later_idled _ _)
        obtain ⟨passes, last, hlast⟩ := hrest
        exact ⟨passes + 1, last, by rw [run, hpass]; exact hlast⟩

/-- The load goes down turn by turn, and between two turns the first deadline comes closer. -/
theorem exists_run (hwinds : supervisor.WindsDown program root) :
    ∃ passes last, supervisor.run passes = .ok last := by
  induction hload : supervisor.load program using Nat.strong_induction_on generalizing supervisor
    with
  | _ turns ih =>
      have hdistance : ∃ distance : Clock → Nat, ∀ entry ∈ supervisor.sleeping.head?,
          ∀ later, supervisor.clock.Later later → later.read.1 < entry.1 →
            distance (later.idled entry.1 supervisor.idlePoll) < distance later := by
        cases hfirst : supervisor.sleeping.head? with
        | none => exact ⟨fun _ => 0, fun entry hentry => by cases hentry⟩
        | some entry =>
            have hdeadline : entry.1 < clockEnd :=
              hwinds.ordered.representable entry (List.mem_of_mem_head? hfirst)
            obtain ⟨distance, hcloser⟩ := hwinds.movesOn.exists_distance hdeadline
            exact ⟨distance, fun other hother => Option.some.inj hother ▸ hcloser⟩
      obtain ⟨distance, hcloser⟩ := hdistance
      exact exists_run_of_waits hcloser (fun supervisor hwinds hless => ih _ hless hwinds rfl)
        hwinds hload rfl (.refl _) rfl

end WindsDown

/-- With more passes a run gives the same turns first. -/
theorem runStarts_grow (supervisor : Supervisor) {passes more : Nat} (hle : passes ≤ more) :
    supervisor.runStarts passes <+: supervisor.runStarts more := by
  induction passes generalizing supervisor more with
  | zero => exact List.nil_prefix
  | succ passes ih =>
      obtain ⟨more, rfl⟩ := Nat.exists_eq_add_of_le' hle
      rw [← Nat.add_assoc, runStarts, runStarts]
      apply List.prefix_append_right_inj _ |>.mpr
      split
      · exact ih _ (Nat.le_add_left passes more)
      · exact List.nil_prefix

theorem punctual_of_run {passes : Nat} (hrun : supervisor.run passes = .ok last) :
    ∀ more, ∀ start ∈ supervisor.runStarts more, ¬start.Oversleeps := by
  intro more start hstart
  have hlonger : supervisor.run (max passes more) = .ok last :=
    supervisor.run_settles passes last hrun _ (Nat.le_max_left passes more)
  have hwatched := supervisor.run_watched (max passes more)
  rw [hlonger] at hwatched
  exact hwatched.of_ok start
    ((supervisor.runStarts_grow (Nat.le_max_right passes more)).subset hstart)

variable {session : Session} {clock : Clock} {exit : ExitRequest} {idlePoll : Nat}
  {function : ScriptFunction} {retain : Bool} {id : ContextId}

theorem windsDown_of_create
    (hadd : (create session clock exit idlePoll).add function retain = (.ok id, supervisor))
    (hacyclic : session.engine.program.Acyclic function) (hmoves : clock.MovesOn idlePoll)
    (hpunctual : ∀ passes, ∀ start ∈ supervisor.runStarts passes, ¬start.Oversleeps) :
    supervisor.WindsDown session.engine.program function ∧
      supervisor.load session.engine.program ≤ session.engine.program.weight function := by
  let created := create session clock exit idlePoll
  obtain rfl : (created.add function retain).2 = supervisor := congrArg Prod.snd hadd
  have hkept : (created.add function retain).2.clock = clock ∧
      (created.add function retain).2.sleeping = [] ∧
        (created.add function retain).2.patience = (0, idlePoll) := by
    unfold add
    simp only
    split <;> exact ⟨rfl, rfl, rfl⟩
  obtain ⟨hclock, hsleeping, hpatience⟩ := hkept
  have hload : (created.add function retain).2.load session.engine.program ≤ 0 + _ :=
    created.load_add function retain
  rw [hacyclic.load_start, Nat.zero_add] at hload
  refine ⟨?_, hload⟩
  constructor
  case acyclic => exact hacyclic
  case program_eq => exact (created.add_logs function retain).program
  case runs =>
    have hempty : created.AllRun (session.engine.program.StemsFrom function) :=
      List.forall_mem_nil _
    exact hempty.add (Program.stemsFrom_start _ function) retain
  case balanced =>
    have hmoves : Moves (created.ledger [] []) ((created.add function retain).2.ledger [] []) :=
      add_moves _ function retain
    exact (hmoves.balanced_and_continues (create_balanced session clock exit idlePoll)).1
  case ordered =>
    constructor
    · rw [hsleeping]
      exact List.Pairwise.nil
    · rw [hsleeping]
      exact List.forall_mem_nil _
  case senders => exact congrArg Prod.fst hpatience
  case movesOn =>
    rw [hclock, show (created.add function retain).2.idlePoll = idlePoll from
      congrArg Prod.snd hpatience]
    exact hmoves
  case punctual => exact hpunctual

/-- If no function to which a function leads starts itself, not even by way of others, then a
supervisor for the function comes to the end of its run as long as the clock can show all
deadlines and moves on.  It gives no more turns than the function weighs, which is one turn
for each step, one for the end, and the weight of each function that is started. -/
theorem run_completes
    (hadd : (create session clock exit idlePoll).add function retain = (.ok id, supervisor))
    (hacyclic : session.engine.program.Acyclic function) (hmoves : clock.MovesOn idlePoll)
    (hpunctual : ∀ passes, ∀ start ∈ supervisor.runStarts passes, ¬start.Oversleeps) :
    (∀ other, session.engine.program.Leads function other →
        session.engine.program.weight other = other.steps.length + 1 +
          ((session.engine.program.spawnedBy other.steps).map
            session.engine.program.weight).sum) ∧
      ∃ passes last, ∀ more, passes ≤ more → supervisor.run more = .ok last ∧
        (supervisor.runStarts more).length ≤ session.engine.program.weight function := by
  obtain ⟨hwinds, hload⟩ := windsDown_of_create hadd hacyclic hmoves hpunctual
  obtain ⟨passes, last, hlast⟩ := hwinds.exists_run
  refine ⟨fun other hleads => Program.weight_eq (hacyclic.leads hleads), passes, last,
    fun more hle => ?_⟩
  have hrun := supervisor.run_settles passes last hlast more hle
  have hturns := (run_passes hwinds.balanced hrun).load hacyclic hwinds.program_eq hwinds.runs
  exact ⟨hrun, Nat.le_trans hturns hload⟩

/-- A program whose entry point starts two contexts that sleep for a second. -/
def nappers : Program :=
  .ofFunctions true
    [("int main()", [.spawn "void nap()", .spawn "void nap()", .yield, .finish (.int 3)]),
      ("void nap()", [.sleep ⟨1, 0, by decide⟩, .log "up"])]

theorem run_completes_nappers :
    ∃ (main : ScriptFunction) (clock : Clock) (id : ContextId) (supervisor last : Supervisor)
      (passes : Nat),
      nappers.find? "int main()" = some main ∧ nappers.Acyclic main ∧
      clock.MovesOn defaultIdlePoll ∧
      (create (.ofEngine { program := nappers } false) clock {} defaultIdlePoll).add main true =
        (.ok id, supervisor) ∧
      (∀ passes, ∀ start ∈ supervisor.runStarts passes, ¬start.Oversleeps) ∧
      (∀ other, nappers.Leads main other → nappers.weight other = other.steps.length + 1 +
        ((nappers.spawnedBy other.steps).map nappers.weight).sum) ∧
      nappers.weight main = 11 ∧
      ∀ more, passes ≤ more → supervisor.run more = .ok last ∧
        (supervisor.runStarts more).length ≤ 11 := by
  let main : ScriptFunction := ⟨"int main()",
    [.spawn "void nap()", .spawn "void nap()", .yield, .finish (.int 3)]⟩
  let nap : ScriptFunction := ⟨"void nap()", [.sleep ⟨1, 0, by decide⟩, .log "up"]⟩
  let created : Supervisor :=
    create (.ofEngine { program := nappers } false) (.ticking 1000) {} defaultIdlePoll
  have hmain : nappers.spawnedBy main.steps = [nap, nap] := by decide +kernel
  have hnap : nappers.spawnedBy nap.steps = [] := by decide +kernel
  have hreached : ∀ other, nappers.Leads main other → other = main ∨ other = nap := by
    intro other hleads
    induction hleads with
    | refl => exact .inl rfl
    | tail hleads hspawns ih =>
        rcases ih with rfl | rfl
        · rw [Program.Spawns, hmain] at hspawns
          exact .inr (by simpa using hspawns)
        · rw [Program.Spawns, hnap] at hspawns
          exact (List.not_mem_nil hspawns).elim
  have hacyclic : nappers.Acyclic main := by
    refine @Program.acyclic_of_rank nappers main (fun function => function.steps.length)
      fun first second hleads hspawns => ?_
    rcases hreached first hleads with rfl | rfl
    · rw [Program.Spawns, hmain] at hspawns
      obtain rfl : second = nap := by simpa using hspawns
      exact show 2 < 4 by decide
    · rw [Program.Spawns, hnap] at hspawns
      exact (List.not_mem_nil hspawns).elim
  have hmoves : (Clock.ticking 1000).MovesOn defaultIdlePoll := by
    refine .inl fun time _ => ⟨time, fun later hlater => ?_⟩
    show time ≤ (later + 1) * 1000
    exact Nat.le_trans hlater (by omega)
  obtain ⟨id, hid, -⟩ := exists_eq_ok_of_any (created.add main true).1 (fun _ => true)
    (by decide +kernel)
  obtain ⟨last, hrun, -⟩ := exists_eq_ok_of_any ((created.add main true).2.run 30)
    (fun _ => true) (by decide +kernel)
  have hweight : nappers.weight main = 11 := by decide +kernel
  have hadd : created.add main true = (.ok id, (created.add main true).2) := Prod.ext hid rfl
  have hpunctual := punctual_of_run hrun
  obtain ⟨hweights, passes, last, hlast⟩ := run_completes hadd hacyclic hmoves hpunctual
  exact ⟨main, _, id, _, last, passes, by decide +kernel, hacyclic, hmoves, hadd, hpunctual,
    hweights, hweight, fun more hle => hweight ▸ hlast more hle⟩

end Supervisor

end ScriptBundle
