import ScriptBundle.Proofs.Schedule.Deadlines
import ScriptBundle.Proofs.Schedule.Rounds
import ScriptBundle.Proofs.Schedule.Terminated
import ScriptBundle.Proofs.Schedule.Tidiness

/-!
# First come, first served

A pass serves the contexts that are ready at its beginning, each of them once and in their
order.  The queue that it leaves is put together from what its turns leave behind: first
the contexts that a turn starts, then those that its signals wake, then its own context if
it can go on at once.
-/

namespace ScriptBundle

open Ledger

namespace Board

/-- The contexts that some deliveries wake, which are for each event those that wait for
it, in the order they came. -/
def woken (board : Board) : List EventId → List ContextId
  | [] => []
  | event :: events => board.parked event ++ (board.after (.delivery event)).woken events

/-- A context goes on at once if it yields or asks for an event that is latched. -/
def readmits (board : Board) (id : ContextId) : ExecutionState → List ContextId
  | .suspended .yield => [id]
  | .suspended (.wait event) => if event ∈ board.latched then [id] else []
  | _ => []

end Board

namespace Supervisor

/-! ## Contexts that are started -/

/-- The contexts on which some functions are started, one after the other. -/
def startedIds (supervisor : Supervisor) : List ScriptFunction → List ContextId
  | [] => []
  | function :: functions =>
      (supervisor.add function false).1.toOption.toList ++
        (supervisor.add function false).2.startedIds functions

/-- Whether a function can be started depends on the idle contexts alone. -/
theorem add_congr {left right : Supervisor} (hpool : left.session.pool = right.session.pool)
    (hnextId : left.nextId = right.nextId) (function : ScriptFunction) (retain : Bool) :
    (left.add function retain).1 = (right.add function retain).1 ∧
      (left.add function retain).2.session.pool = (right.add function retain).2.session.pool ∧
      (left.add function retain).2.nextId = (right.add function retain).2.nextId := by
  unfold add Session.acquire ContextPool.acquire ContextPool.reuse?
  rw [hpool, hnextId]
  cases right.session.pool.free with
  | nil => exact ⟨rfl, rfl, rfl⟩
  | cons context free =>
      simp only
      cases context.prepare function with
      | error error => exact ⟨rfl, rfl, rfl⟩
      | ok prepared => exact ⟨rfl, rfl, rfl⟩

theorem startedIds_congr {left right : Supervisor}
    (hpool : left.session.pool = right.session.pool) (hnextId : left.nextId = right.nextId)
    (functions : List ScriptFunction) : left.startedIds functions = right.startedIds functions := by
  induction functions generalizing left right with
  | nil => rfl
  | cons function functions ih =>
      obtain ⟨hadd, hpool', hnextId'⟩ := add_congr hpool hnextId function false
      rw [startedIds, startedIds, hadd, ih hpool' hnextId']

/-- With a tidy pool every function is started, and the ids follow each other. -/
theorem startedIds_eq {hooks : Hooks} {supervisor : Supervisor}
    (htidy : supervisor.session.Tidy hooks) (functions : List ScriptFunction) :
    supervisor.startedIds functions = List.range' supervisor.nextId functions.length := by
  induction functions generalizing supervisor with
  | nil => rfl
  | cons function functions ih =>
      obtain ⟨context, session, -, -, hsession, hadd⟩ := Tidy.add_eq htidy function false
      rw [startedIds, hadd]
      exact congrArg (supervisor.nextId :: ·) (ih hsession)

theorem add_ready (supervisor : Supervisor) (function : ScriptFunction) (retain : Bool) :
    (supervisor.add function retain).2.ready =
      supervisor.ready ++ (supervisor.add function retain).1.toOption.toList := by
  unfold add
  simp only
  cases supervisor.session.acquire.1.prepare function with
  | error error => exact (List.append_nil _).symm
  | ok prepared => rfl

theorem spawn_ready (supervisor : Supervisor) (functions : List ScriptFunction) :
    (supervisor.spawn functions).ready = supervisor.ready ++ supervisor.startedIds functions := by
  induction functions generalizing supervisor with
  | nil => exact (List.append_nil _).symm
  | cons function functions ih =>
      calc (supervisor.spawn (function :: functions)).ready
        _ = (supervisor.add function false).2.ready ++
              (supervisor.add function false).2.startedIds functions := ih _
        _ = supervisor.ready ++ supervisor.startedIds (function :: functions) := by
            rw [add_ready, List.append_assoc, startedIds]

/-! ## Contexts that are woken -/

theorem deliver_ready (supervisor : Supervisor) (event : EventId) :
    (supervisor.deliver event).ready = supervisor.ready ++ supervisor.parked event := by
  rw [deliver_eq]
  split
  · rename_i hparked
    rw [hparked, List.append_nil]
  · rfl

theorem ready_foldl_deliver (events : List EventId) (supervisor : Supervisor) :
    (events.foldl deliver supervisor).ready =
      supervisor.ready ++ supervisor.board.woken events := by
  induction events generalizing supervisor with
  | nil => exact (List.append_nil _).symm
  | cons event events ih =>
      rw [List.foldl_cons, ih, deliver_ready, board_deliver, List.append_assoc]
      rfl

/-- The sleepers whose deadline has come. -/
def due (supervisor : Supervisor) (now : Instant) : List ContextId :=
  (supervisor.sleeping.takeWhile fun entry => entry.1 ≤ now).map (·.2)

/-- The queue at the beginning of a pass: the contexts that were ready before, then those
whom events from outside have woken, then those that have slept long enough. -/
theorem refresh_ready (supervisor : Supervisor) :
    supervisor.refresh.ready =
      supervisor.ready ++ supervisor.board.woken supervisor.inbox ++
        supervisor.due supervisor.clock.read.1 := by
  obtain ⟨woken, waiting, latched, hcollect⟩ := supervisor.collect_eq
  have hready : supervisor.collect.ready =
      supervisor.ready ++ supervisor.board.woken supervisor.inbox :=
    ready_foldl_deliver supervisor.inbox { supervisor with inbox := [] }
  have hdue : supervisor.collect.due supervisor.collect.clock.read.1 =
      supervisor.due supervisor.clock.read.1 := by
    rw [hcollect]
    rfl
  rw [← hready, ← hdue]
  rfl

end Supervisor

/-! ## What a turn leaves in the queue -/

/-- The contexts that a turn makes ready. -/
def TurnStart.queues (start : TurnStart) : List ContextId :=
  let (_, effects, state) := start.task.context.resume start.supervisor.session.engine.program
  start.supervisor.startedIds effects.spawned ++
    start.supervisor.board.woken effects.signalled ++
    (start.supervisor.board.afterAll (effects.signalled.map .delivery)).readmits start.task.id state

/-- The context of a turn yields at its end. -/
def TurnStart.Yields (start : TurnStart) : Prop :=
  (start.task.context.resume start.supervisor.session.engine.program).2.2 = .suspended .yield

theorem TurnStart.Yields.queues {start : TurnStart} (hyields : start.Yields) :
    ∃ others, start.queues = others ++ [start.task.id] := by
  unfold Yields at hyields
  rw [TurnStart.queues]
  simp only [hyields]
  exact ⟨_, rfl⟩

namespace Supervisor

variable {supervisor after : Supervisor} {more : Bool}

theorem perform_ready (supervisor : Supervisor) (effects : Effects) :
    (supervisor.perform effects).ready =
      supervisor.ready ++ supervisor.startedIds effects.spawned ++
        supervisor.board.woken effects.signalled := by
  have hstarted : (supervisor.record effects).startedIds effects.spawned =
      supervisor.startedIds effects.spawned :=
    @startedIds_congr (supervisor.record effects) supervisor rfl rfl effects.spawned
  rw [perform, ready_foldl_deliver, spawn_ready, board_spawn, hstarted]
  rfl

theorem board_perform (supervisor : Supervisor) (effects : Effects) :
    (supervisor.perform effects).board =
      supervisor.board.afterAll (effects.signalled.map .delivery) := by
  rw [perform, board_foldl_deliver, board_spawn]
  rfl

theorem conclude_ready (supervisor : Supervisor) (id : ContextId) (state : ExecutionState)
    (context : Option Context) :
    (supervisor.conclude id state context).ready = supervisor.ready := by
  obtain ⟨results, hconclude⟩ := supervisor.conclude_eq id state context
  rw [hconclude]

theorem settle_ready {task : Task} {state : ExecutionState} {now : Instant}
    (hsettle : supervisor.settle task state now = .ok after) :
    after.ready = supervisor.ready ++ supervisor.board.readmits task.id state := by
  match state with
  | .suspended .yield =>
      cases hsettle
      rfl
  | .suspended (.wait event) =>
      rw [settle_wait] at hsettle
      cases hsettle
      rw [Board.readmits, board]
      split
      · rfl
      · exact (List.append_nil _).symm
  | .suspended (.sleep duration) =>
      simp only [settle, park] at hsettle
      split at hsettle <;> cases hsettle
      exact (List.append_nil _).symm
  | .aborted =>
      cases hsettle
      rw [conclude_ready]
      exact (List.append_nil _).symm
  | .finished _ | .exception _ =>
      simp only [settle] at hsettle
      split at hsettle <;> cases hsettle
      · rw [conclude_ready]
        exact (List.append_nil _).symm
      · exact (List.append_nil _).symm

theorem turn_ready {task : Task} (hturn : supervisor.turn task = .ok after) :
    after.ready = supervisor.ready ++ TurnStart.queues ⟨supervisor, task⟩ := by
  rcases hresume : task.context.resume supervisor.session.engine.program with
    ⟨context, effects, state⟩
  have hstarted : supervisor.readClock.2.startedIds effects.spawned =
      supervisor.startedIds effects.spawned :=
    @startedIds_congr supervisor.readClock.2 supervisor rfl rfl effects.spawned
  rw [turn_eq hresume] at hturn
  rw [settle_ready hturn, perform_ready, board_perform, hstarted, TurnStart.queues, hresume]
  simp only [List.append_assoc]
  rfl

/-- The queue grows by what the turns of a round leave in it, in their order. -/
theorem Round.ready {last : Supervisor} {starts : List TurnStart}
    (hround : supervisor.Round starts last) :
    last.ready = supervisor.ready ++ starts.flatMap TurnStart.queues := by
  induction hround with
  | done => exact (List.append_nil _).symm
  | @turn supervisor next last id context starts hcontext hturn hrest ih =>
      have hnext : next.ready =
          supervisor.ready ++ TurnStart.queues ⟨supervisor.remove id, { id, context }⟩ :=
        turn_ready hturn
      rw [ih, hnext, List.flatMap_cons, List.append_assoc]

/-! ## Passes -/

/-- A pass serves the contexts in the order of the queue at its beginning, and leaves a
queue in the order of its turns. -/
structure Serves (supervisor after : Supervisor) : Prop where
  queue_nodup : supervisor.refresh.ready.Nodup
  queue_eq : supervisor.refresh.ready =
    supervisor.ready ++ supervisor.board.woken supervisor.inbox ++
      supervisor.due supervisor.clock.read.1
  /-- The pass consists of its turns, but for a look at the clock. -/
  turns : ∃ last clock, supervisor.opened.Round (supervisor.passStarts undisturbed) last ∧
    last.clock.Later clock ∧ after = { last with clock }
  takers_eq : takers (supervisor.passStarts undisturbed) = supervisor.refresh.ready
  ready_eq : after.ready = (supervisor.passStarts undisturbed).flatMap TurnStart.queues

/-- If nobody has asked for the end by its last turn, a pass is a round of all its turns. -/
theorem pass_round (hbalanced : Balanced (supervisor.ledger [] []))
    (hpass : supervisor.pass = .ok (more, after)) (hexit : after.exit.requested = false) :
    ∃ last clock, supervisor.opened.Round (supervisor.passStarts undisturbed) last ∧
      takers (supervisor.passStarts undisturbed) = supervisor.refresh.ready ∧
      last.clock.Later clock ∧ after = { last with clock } := by
  obtain ⟨last, pending, hround, hqueue, hending⟩ :=
    pass_played hbalanced (exit_of_pass hpass hexit) hpass
  rcases hending with ⟨hrequested, rfl⟩ | ⟨-, rfl, clock, hlater, rfl⟩
  · rw [abortAll_exit, hrequested] at hexit
    cases hexit
  · exact ⟨last, clock, hround, by rw [hqueue, List.append_nil], hlater, rfl⟩

theorem pass_serves (hbalanced : Balanced (supervisor.ledger [] []))
    (hpass : supervisor.pass = .ok (more, after)) (hexit : after.exit.requested = false) :
    supervisor.Serves after := by
  obtain ⟨last, clock, hround, htakers, hlater, rfl⟩ := pass_round hbalanced hpass hexit
  exact ⟨ready_nodup (refresh_balanced hbalanced), supervisor.refresh_ready,
    ⟨last, clock, hround, hlater, rfl⟩, htakers, hround.ready⟩

/-- Between two passes the queue only grows, unless all contexts are ended. -/
theorem handle_ready {request : Request} (hhandle : supervisor.handle request = .ok after)
    (hpass : request ≠ .pass) (habort : request ≠ .abortAll) :
    ∃ added, after.ready = supervisor.ready ++ added := by
  cases request with
  | pass => exact (hpass rfl).elim
  | abortAll => exact (habort rfl).elim
  | add function retain =>
      cases hhandle
      exact ⟨_, supervisor.add_ready function retain⟩
  | send | exit | takeContext | addSender | dropSender | share =>
      cases hhandle
      exact ⟨[], (List.append_nil _).symm⟩

theorem handleAll_ready {requests : List Request}
    (hhandle : supervisor.handleAll requests = .ok after)
    (hpass : .pass ∉ requests) (habort : .abortAll ∉ requests) :
    ∃ added, after.ready = supervisor.ready ++ added := by
  induction requests generalizing supervisor with
  | nil =>
      cases hhandle
      exact ⟨[], (List.append_nil _).symm⟩
  | cons request requests ih =>
      rw [List.mem_cons, not_or] at hpass habort
      rw [handleAll] at hhandle
      split at hhandle
      · cases hhandle
      · rename_i next hnext
        obtain ⟨first, hfirst⟩ := handle_ready hnext (Ne.symm hpass.1) (Ne.symm habort.1)
        obtain ⟨added, hadded⟩ := ih hhandle hpass.2 habort.2
        exact ⟨first ++ added, by rw [hadded, hfirst, List.append_assoc]⟩

/-- The turns are split where one of those who take them stands. -/
theorem exists_turn_of_takers {starts : List TurnStart} {earlier later : List ContextId}
    {id : ContextId} (htakers : takers starts = earlier ++ id :: later) :
    ∃ before start behind, starts = before ++ start :: behind ∧ takers before = earlier ∧
      start.task.id = id := by
  obtain ⟨before, rest, rfl, hbefore, hrest⟩ := List.map_eq_append_iff.mp htakers
  obtain ⟨start, behind, rfl, hstart, -⟩ := List.map_eq_cons_iff.mp hrest
  exact ⟨before, start, behind, rfl, hbefore, hstart⟩

/-- The rest of a round and the contexts that are ready before the next turn have no
context in common. -/
theorem Round.nodup_of_yields {last : Supervisor} {start : TurnStart} {later : List TurnStart}
    (hround : supervisor.Round (start :: later) last)
    (hbalanced : Balanced (supervisor.ledger (takers (start :: later)) []))
    (hyields : start.Yields) :
    ∃ others, start.queues = others ++ [start.task.id] ∧
      (takers (start :: later) ++ (supervisor.ready ++ others)).Nodup := by
  obtain ⟨others, hothers⟩ := hyields.queues
  refine ⟨others, hothers, ?_⟩
  cases hround with
  | @turn supervisor next last id context starts hcontext hturn hrest =>
      have hmoves : Moves (supervisor.ledger (id :: takers later) [])
          (next.ledger (takers later) []) :=
        turn_moves hturn
      have hready : next.ready = supervisor.ready ++ others ++ [id] := by
        have hnext := turn_ready hturn
        rw [hothers, ← List.append_assoc] at hnext
        exact hnext
      have hnodup : (takers later ++ next.queued).Nodup :=
        queued_nodup (hmoves.balanced_and_continues hbalanced).1
      have hsublist : (takers later ++ next.ready).Sublist (takers later ++ next.queued) := by
        rw [queued, List.append_assoc]
        exact (List.sublist_append_left _ _).append_left _
      have hperm : (takers later ++ next.ready).Perm
          (id :: (takers later ++ (supervisor.ready ++ others))) := by
        rw [hready, ← List.append_assoc]
        exact List.perm_append_singleton _ _
      exact hperm.nodup_iff.mp (hnodup.sublist hsublist)

/-- A context that yields takes a turn in the next pass.  From the one turn to the other no
context takes two turns. -/
theorem pass_of_yields (hbalanced : Balanced (supervisor.ledger [] []))
    (hpass : supervisor.pass = .ok (more, after)) (hexit : after.exit.requested = false)
    {earlier later : List TurnStart} {start : TurnStart}
    (hstarts : supervisor.passStarts undisturbed = earlier ++ start :: later)
    (hyields : start.Yields) {requests : List Request} {middle last : Supervisor} {more' : Bool}
    (hhandle : after.handleAll requests = .ok middle) (hnoPass : .pass ∉ requests)
    (hnoAbort : .abortAll ∉ requests) (hnext : middle.pass = .ok (more', last))
    (hgoesOn : last.exit.requested = false) :
    ∃ before again behind, middle.passStarts undisturbed = before ++ again :: behind ∧
      again.task.id = start.task.id ∧ (takers (start :: later ++ before)).Nodup := by
  have hafter : Balanced (after.ledger [] []) :=
    ((pass_moves hbalanced hpass).balanced_and_continues hbalanced).1
  have hmiddle : Balanced (middle.ledger [] []) :=
    ((handleAll_moves hafter hhandle).balanced_and_continues hafter).1
  obtain ⟨ending, clock, hround, htakers, -, rfl⟩ := pass_round hbalanced hpass hexit
  rw [hstarts] at hround
  obtain ⟨halfway, hearlier, hlater⟩ := hround.split
  have hopened := opened_balanced hbalanced
  rw [← htakers, hstarts, takers_append] at hopened
  obtain ⟨others, hothers, hnodup⟩ :=
    hlater.nodup_of_yields (hearlier.balanced hopened) hyields
  -- The queue before the context is what the turns up to its own have left.
  obtain ⟨added, hadded⟩ := handleAll_ready hhandle hnoPass hnoAbort
  have hqueue : takers (middle.passStarts undisturbed) =
      (halfway.ready ++ others) ++ start.task.id ::
        (later.flatMap TurnStart.queues ++ added ++ middle.board.woken middle.inbox ++
          middle.due middle.clock.read.1) := by
    rw [(pass_serves hmiddle hnext hgoesOn).takers_eq, refresh_ready, hadded, hlater.ready,
      List.flatMap_cons, hothers]
    simp only [List.append_assoc, List.cons_append, List.nil_append]
  obtain ⟨before, again, behind, hsplit, hbefore, hagain⟩ := exists_turn_of_takers hqueue
  refine ⟨before, again, behind, hsplit, hagain, ?_⟩
  rw [takers_append, hbefore]
  exact hnodup

/-- Whatever has been asked of a supervisor, a pass in which nobody asks for the end serves
the queue of ready contexts, first come, first served, and a context that yields waits for
one turn of every other context at most.  Such a pass breaks off only if a context wants to
sleep beyond the end of the clock. -/
theorem pass_firstComeFirstServed (session : Session) (clock : Clock) (exit : ExitRequest)
    (idlePoll : Nat) {requests : List Request} {supervisor : Supervisor}
    (hreach : (create session clock exit idlePoll).handleAll requests = .ok supervisor)
    (htimely : ∀ start ∈ supervisor.passStarts undisturbed, ¬start.Oversleeps) :
    ∃ more after, supervisor.pass = .ok (more, after) ∧
      (after.exit.requested = false →
        supervisor.Serves after ∧
        ∀ earlier start later,
          supervisor.passStarts undisturbed = earlier ++ start :: later → start.Yields →
          ∀ between middle, after.handleAll between = .ok middle →
            .pass ∉ between → .abortAll ∉ between →
          ∀ more' last, middle.pass = .ok (more', last) → last.exit.requested = false →
            ∃ before again behind,
              middle.passStarts undisturbed = before ++ again :: behind ∧
                again.task.id = start.task.id ∧ (takers (start :: later ++ before)).Nodup) := by
  obtain ⟨hbalanced, -⟩ := exclusive_of_handleAll hreach
  cases hpass : supervisor.pass with
  | error interruption =>
      obtain ⟨-, earlier, start, hstarts, hoversleeps⟩ := pass_eq_error hpass
      have hmem : start ∈ supervisor.passStarts undisturbed := by
        rw [hstarts]
        exact List.mem_append_right _ (List.mem_singleton_self start)
      exact (htimely start hmem hoversleeps).elim
  | ok outcome =>
      obtain ⟨more, after⟩ := outcome
      refine ⟨more, after, rfl, fun hexit => ⟨pass_serves hbalanced hpass hexit, ?_⟩⟩
      intro earlier start later hstarts hyields between middle hhandle hnoPass hnoAbort more' last
        hnext hgoesOn
      exact pass_of_yields hbalanced hpass hexit hstarts hyields hhandle hnoPass hnoAbort hnext
        hgoesOn

/-- A context starts another one, wakes one, latches an event for the one behind it and
yields. -/
theorem pass_firstComeFirstServed_mixed :
    let waiter : ScriptFunction := ⟨"void waiter()", [.wait 7, .finish .void]⟩
    let talker : ScriptFunction := ⟨"void talker()",
      [.yield, .spawn "void child()", .signal 7, .signal 9, .yield, .finish .void]⟩
    let taker : ScriptFunction := ⟨"void taker()", [.yield, .wait 9, .finish .void]⟩
    let program := Program.ofFunctions true [("void child()", [.yield])]
    let first := create (.ofEngine { program } false) (.ticking 1000) {} defaultIdlePoll
    ∃ supervisor after last start later before again behind,
      first.handleAll [.add waiter false, .add talker false, .add taker false, .pass] =
          .ok supervisor ∧
        supervisor.pass = .ok (true, after) ∧ after.pass = .ok (true, last) ∧
        supervisor.Serves after ∧ supervisor.refresh.ready = [2, 3] ∧
        after.ready = [4, 1, 2, 3] ∧
        supervisor.passStarts undisturbed = start :: later ∧ start.task.id = 2 ∧
        after.passStarts undisturbed = before ++ again :: behind ∧ again.task.id = 2 ∧
        (takers (start :: later ++ before)).Nodup := by
  intro waiter talker taker program first
  let requests : List Request := [.add waiter false, .add talker false, .add taker false, .pass]
  obtain ⟨supervisor, hreach, hproperty⟩ := exists_eq_ok_of_any (first.handleAll requests)
    (fun supervisor => supervisor.refresh.ready = [2, 3] ∧
      ((supervisor.passStarts undisturbed).head?.any fun start => start.task.id = 2 ∧
        (start.task.context.resume start.supervisor.session.engine.program).2.2 =
          .suspended .yield) ∧
      supervisor.pass.toOption.any fun (more, after) => more ∧ after.exit.requested = false ∧
        after.ready = [4, 1, 2, 3] ∧
        after.pass.toOption.any fun (more, last) => more ∧ last.exit.requested = false)
    (by decide +kernel)
  obtain ⟨hready, hhead, hpassed⟩ := of_decide_eq_true hproperty
  obtain ⟨⟨more, after⟩, hpass, hafter⟩ := exists_eq_ok_of_any _ _ hpassed
  obtain ⟨rfl, hexit, hleft, hagain⟩ := of_decide_eq_true hafter
  obtain ⟨⟨more, last⟩, hlast, hlater⟩ := exists_eq_ok_of_any _ _ hagain
  obtain ⟨rfl, hgoesOn⟩ := of_decide_eq_true hlater
  obtain ⟨start, later, hstarts⟩ : ∃ start later,
      supervisor.passStarts undisturbed = start :: later := by
    cases hstarts : supervisor.passStarts undisturbed with
    | nil => simp [hstarts] at hhead
    | cons start later => exact ⟨start, later, rfl⟩
  rw [hstarts] at hhead
  obtain ⟨hid, hyields⟩ := of_decide_eq_true hhead
  have hwatched := pass_watched supervisor
  rw [hpass] at hwatched
  obtain ⟨_, _, hpass', hserves⟩ :=
    pass_firstComeFirstServed _ _ _ _ hreach hwatched.of_ok
  rw [hpass] at hpass'
  cases hpass'
  obtain ⟨hserves, hyielded⟩ := hserves hexit
  obtain ⟨before, again, behind, hsplit, hsame, hnodup⟩ :=
    hyielded [] start later hstarts hyields [] after rfl List.not_mem_nil List.not_mem_nil true last
      hlast hgoesOn
  exact ⟨supervisor, after, last, start, later, before, again, behind, hreach, hpass, hlast,
    hserves, hready, hleft, hstarts, hid, hsplit, hsame.trans hid, hnodup⟩

end Supervisor

end ScriptBundle
