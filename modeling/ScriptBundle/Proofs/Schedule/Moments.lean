import ScriptBundle.Proofs.Schedule.Board
import ScriptBundle.Proofs.Schedule.Requests
import ScriptBundle.Proofs.Schedule.Trace

/-!
# Moments

The moments at which something happens to the events of a supervisor are listed
beside the operations that bring them about, each with the supervisor just before it.
The board of a supervisor follows from the moments that went before and from nothing
else.
-/

namespace ScriptBundle

open Ledger

/-- Something that happens to the events, and the supervisor just before it. -/
structure Moment where
  before : Supervisor
  occasion : Occasion

namespace Supervisor

def board (supervisor : Supervisor) : Board :=
  { latched := supervisor.latched, waiting := supervisor.waiting }

/-- The contexts that wait for an event, in the order they came. -/
def parked (supervisor : Supervisor) (event : EventId) : List ContextId :=
  supervisor.board.parked event

/-! ## The moments of a history -/

def deliveryMoments (supervisor : Supervisor) : List EventId → List Moment
  | [] => []
  | event :: events =>
      ⟨supervisor, .delivery event⟩ :: (supervisor.deliver event).deliveryMoments events

/-- A context that suspends itself to wait asks for an event. -/
def settleMoments (supervisor : Supervisor) (id : ContextId) : ExecutionState → List Moment
  | .suspended (.wait event) => [⟨supervisor, .wait event id⟩]
  | _ => []

def turnMoments (supervisor : Supervisor) (task : Task) : List Moment :=
  let (_, effects, state) := task.context.resume supervisor.session.engine.program
  let supervisor := supervisor.readClock.2
  ((supervisor.record effects).spawn effects.spawned).deliveryMoments effects.signalled ++
    (supervisor.perform effects).settleMoments task.id state

def queueMoments (supervisor : Supervisor) : List ContextId → List Moment
  | [] => []
  | id :: remaining =>
      match supervisor.context? id with
      | none => supervisor.queueMoments remaining
      | some context =>
          (supervisor.remove id).turnMoments { id, context } ++
            match (supervisor.remove id).turn { id, context } with
            | .error _ => []
            | .ok next =>
                if next.exit.requested then [⟨next, .abort⟩] else next.queueMoments remaining

def passMoments (supervisor : Supervisor) : List Moment :=
  if supervisor.exit.requested then [⟨supervisor, .abort⟩]
  else
    deliveryMoments { supervisor with inbox := [] } supervisor.inbox ++
      queueMoments { supervisor.refresh with ready := [] } supervisor.refresh.ready

def requestMoments (supervisor : Supervisor) : Request → List Moment
  | .pass => supervisor.passMoments
  | .abortAll => [⟨supervisor, .abort⟩]
  | _ => []

/-- All moments while requests are handled one after the other. -/
def moments (supervisor : Supervisor) : List Request → List Moment
  | [] => []
  | request :: requests =>
      supervisor.requestMoments request ++
        match supervisor.handle request with
        | .error _ => []
        | .ok next => next.moments requests

/-! ## What an operation does to the board -/

/-- A delivery moves those who wait for the event to the ready ones, or latches it. -/
theorem deliver_eq (supervisor : Supervisor) (event : EventId) :
    supervisor.deliver event =
      if supervisor.parked event = [] then
        { supervisor with latched := supervisor.latched.insert event }
      else
        { supervisor with
          ready := supervisor.ready ++ supervisor.parked event
          waiting := supervisor.waiting.filter fun entry => entry.1 ≠ event } := by
  have hwoken : supervisor.deliver event =
      if (supervisor.waiting.filter fun entry => entry.1 = event).isEmpty then
        { supervisor with latched := supervisor.latched.insert event }
      else
        { supervisor with
          ready := supervisor.ready ++ supervisor.parked event
          waiting := supervisor.waiting.filter fun entry => !decide (entry.1 = event) } := by
    rw [deliver, List.partition_eq_filter_filter]
    rfl
  simp only [ne_eq, decide_not]
  rw [hwoken]
  refine if_congr ?_ rfl rfl
  rw [List.isEmpty_iff, parked, Board.parked, List.map_eq_nil_iff]
  rfl

theorem board_deliver (supervisor : Supervisor) (event : EventId) :
    (supervisor.deliver event).board = supervisor.board.after (.delivery event) := by
  rw [deliver_eq, Board.after, parked]
  split <;> rfl

theorem board_foldl_deliver (events : List EventId) (supervisor : Supervisor) :
    (events.foldl deliver supervisor).board =
      supervisor.board.afterAll (events.map .delivery) := by
  induction events generalizing supervisor with
  | nil => rfl
  | cons event events ih =>
      rw [List.foldl_cons, ih, board_deliver]
      rfl

theorem board_refresh (supervisor : Supervisor) :
    supervisor.refresh.board = supervisor.board.afterAll (supervisor.inbox.map .delivery) :=
  board_foldl_deliver supervisor.inbox { supervisor with inbox := [] }

@[simp]
theorem board_add (supervisor : Supervisor) (function : ScriptFunction) (retain : Bool) :
    (supervisor.add function retain).2.board = supervisor.board := by
  unfold add
  split
  split <;> rfl

@[simp]
theorem board_spawn (supervisor : Supervisor) (functions : List ScriptFunction) :
    (supervisor.spawn functions).board = supervisor.board := by
  induction functions generalizing supervisor with
  | nil => rfl
  | cons function functions ih => exact (ih _).trans (supervisor.board_add function false)

/-- A context that asks for a latched event goes on and uses the event up; otherwise it
is parked. -/
theorem settle_wait (supervisor : Supervisor) (task : Task) (event : EventId) (now : Instant) :
    supervisor.settle task (.suspended (.wait event)) now =
      .ok (if event ∈ supervisor.latched then
          { supervisor.keep task with
            latched := supervisor.latched.erase event
            ready := supervisor.ready ++ [task.id] }
        else
          { supervisor.keep task with
            waiting := supervisor.waiting ++ [(event, task.id)] }) := by
  by_cases hlatched : event ∈ supervisor.latched
  · rw [if_pos hlatched]
    exact if_pos hlatched
  · rw [if_neg hlatched]
    exact if_neg hlatched

theorem board_conclude (supervisor : Supervisor) (id : ContextId) (state : ExecutionState)
    (context : Option Context) :
    (supervisor.conclude id state context).board = supervisor.board := by
  unfold conclude
  split <;> rfl

theorem board_settle {supervisor after : Supervisor} {task : Task} {state : ExecutionState}
    {now : Instant} (hsettle : supervisor.settle task state now = .ok after) :
    after.board =
      supervisor.board.afterAll ((supervisor.settleMoments task.id state).map (·.occasion)) := by
  match state with
  | .suspended (.wait event) =>
      rw [settle_wait] at hsettle
      cases hsettle
      change _ = supervisor.board.after (.wait event task.id)
      rw [Board.after, show supervisor.board.latched = supervisor.latched from rfl]
      split <;> rfl
  | .suspended .yield =>
      cases hsettle
      rfl
  | .suspended (.sleep duration) =>
      simp only [settle, park] at hsettle
      split at hsettle <;> cases hsettle
      rfl
  | .aborted =>
      cases hsettle
      exact supervisor.board_conclude _ _ _
  | .finished _ | .exception _ =>
      simp only [settle] at hsettle
      split at hsettle <;> cases hsettle
      · exact supervisor.board_conclude _ _ _
      · rfl

theorem board_abortAll (supervisor : Supervisor) :
    supervisor.abortAll.board = supervisor.board.after .abort := by
  obtain ⟨results, hresults, -⟩ := foldl_conclude [] [] supervisor.active
    { supervisor with active := [], ready := [], sleeping := [], waiting := [] }
  rw [abortAll, hresults]
  rfl

theorem board_idle (supervisor : Supervisor) : supervisor.idle.2.board = supervisor.board := by
  obtain ⟨_, hidle⟩ := supervisor.idle_eq
  rw [hidle]
  rfl

/-! ## The board follows from the moments -/

/-- The books are in order, between two turns or within one. -/
def InOrder (supervisor : Supervisor) : Prop :=
  ∃ pending running, Balanced (supervisor.ledger pending running)

end Supervisor

/-- What happens at some moments. -/
def occasions (moments : List Moment) : List Occasion :=
  moments.map (·.occasion)

/-- The moments follow each other from a board on: nothing else changes it. -/
def Consistent : Board → List Moment → Prop
  | _, [] => True
  | board, moment :: moments =>
      moment.before.board = board ∧ moment.before.InOrder ∧
        Consistent (board.after moment.occasion) moments

theorem consistent_append {board : Board} {first second : List Moment} :
    Consistent board (first ++ second) ↔
      Consistent board first ∧ Consistent (board.afterAll (occasions first)) second := by
  induction first generalizing board with
  | nil => exact (and_iff_right trivial).symm
  | cons moment moments ih =>
      rw [List.cons_append, Consistent, Consistent, ih, and_assoc, and_assoc]
      rfl

/-- The supervisor at a moment has the board that the earlier moments lead to. -/
theorem Consistent.split {board : Board} {earlier later : List Moment} {moment : Moment}
    (hconsistent : Consistent board (earlier ++ moment :: later)) :
    moment.before.board = board.afterAll (occasions earlier) ∧ moment.before.InOrder := by
  obtain ⟨-, hboard, horder, -⟩ := consistent_append.mp hconsistent
  exact ⟨hboard, horder⟩

/-- Between two moments nothing but the moments between them changes the board. -/
theorem Consistent.between {board : Board} {earlier between later : List Moment}
    {first second : Moment}
    (hconsistent : Consistent board (earlier ++ first :: (between ++ second :: later))) :
    second.before.board =
      (first.before.board.after first.occasion).afterAll (occasions between) := by
  obtain ⟨-, hfirst, -, hlater⟩ := consistent_append.mp hconsistent
  rw [hfirst]
  exact hlater.split.1

namespace Supervisor

variable {pending : List ContextId}

/-- An operation has these moments: they follow each other from the board before it, and
lead to the board after it. -/
structure Brings (before : Supervisor) (moments : List Moment)
    (after : Except Interruption Supervisor) : Prop where
  consistent : Consistent before.board moments
  board : ∀ supervisor, after = .ok supervisor →
    supervisor.board = before.board.afterAll (occasions moments)

theorem brings_nil {before : Supervisor} {after : Except Interruption Supervisor}
    (hboard : ∀ supervisor, after = .ok supervisor → supervisor.board = before.board) :
    before.Brings [] after :=
  ⟨trivial, hboard⟩

theorem Brings.append {before middle : Supervisor} {first second : List Moment}
    {after : Except Interruption Supervisor} (hfirst : before.Brings first (.ok middle))
    (hsecond : middle.Brings second after) : before.Brings (first ++ second) after where
  consistent := by
    refine consistent_append.mpr ⟨hfirst.consistent, ?_⟩
    rw [← hfirst.board middle rfl]
    exact hsecond.consistent
  board supervisor hafter := by
    rw [hsecond.board supervisor hafter, hfirst.board middle rfl, occasions, occasions, occasions,
      List.map_append, Board.afterAll_append]

theorem brings_one {before : Supervisor} {occasion : Occasion}
    {after : Except Interruption Supervisor} (horder : before.InOrder)
    (hboard : ∀ supervisor, after = .ok supervisor →
      supervisor.board = before.board.after occasion) :
    before.Brings [⟨before, occasion⟩] after :=
  ⟨⟨rfl, horder, trivial⟩, hboard⟩

theorem deliveryMoments_brings {supervisor : Supervisor} {running : List ContextId}
    (hbalanced : Balanced (supervisor.ledger pending running)) (events : List EventId) :
    supervisor.Brings (supervisor.deliveryMoments events)
      (.ok (events.foldl deliver supervisor)) := by
  induction events generalizing supervisor with
  | nil => exact brings_nil fun _ hafter => by cases hafter; rfl
  | cons event events ih =>
      have hfirst : supervisor.Brings [⟨supervisor, .delivery event⟩]
          (.ok (supervisor.deliver event)) :=
        brings_one ⟨pending, running, hbalanced⟩ fun _ hafter => by
          cases hafter
          exact supervisor.board_deliver event
      exact hfirst.append
        (ih ((supervisor.deliver_moves event).balanced_and_continues hbalanced).1)

theorem settleMoments_brings {supervisor : Supervisor} {running : List ContextId}
    (hbalanced : Balanced (supervisor.ledger pending running)) (task : Task)
    (state : ExecutionState) (now : Instant) :
    supervisor.Brings (supervisor.settleMoments task.id state)
      (supervisor.settle task state now) where
  consistent := by
    unfold settleMoments
    split
    · exact ⟨rfl, ⟨pending, running, hbalanced⟩, trivial⟩
    · trivial
  board _ hsettle := board_settle hsettle

theorem turnMoments_brings {supervisor : Supervisor} {task : Task}
    (hbalanced : Balanced (supervisor.ledger pending [task.id])) :
    supervisor.Brings (supervisor.turnMoments task) (supervisor.turn task) := by
  rcases hresume : task.context.resume supervisor.session.engine.program with
    ⟨context, effects, state⟩
  let spawned := (supervisor.readClock.2.record effects).spawn effects.spawned
  have hspawned : Moves (supervisor.ledger pending [task.id])
      (spawned.ledger pending [task.id]) :=
    (supervisor.readClock.2.record effects).spawn_moves effects.spawned
  have hquiet : supervisor.Brings [] (.ok spawned) := brings_nil fun _ hafter => by
    cases hafter
    exact board_spawn _ _
  have hdelivered := deliveryMoments_brings
    (hspawned.balanced_and_continues hbalanced).1 effects.signalled
  have hperformed : Moves (supervisor.ledger pending [task.id])
      ((supervisor.readClock.2.perform effects).ledger pending [task.id]) :=
    supervisor.readClock.2.perform_moves effects
  have hsettled := settleMoments_brings (hperformed.balanced_and_continues hbalanced).1
    { task with context } state supervisor.readClock.1
  have hmoments : supervisor.turnMoments task = spawned.deliveryMoments effects.signalled ++
      (supervisor.readClock.2.perform effects).settleMoments task.id state := by
    rw [turnMoments, hresume]
  rw [hmoments, turn_eq hresume]
  exact (hquiet.append hdelivered).append hsettled

theorem queueMoments_brings {supervisor : Supervisor} {ids : List ContextId}
    (hbalanced : Balanced (supervisor.ledger ids [])) :
    supervisor.Brings (supervisor.queueMoments ids)
      ((supervisor.runQueue ids).map (·.2)) := by
  induction ids generalizing supervisor with
  | nil => exact brings_nil fun _ hafter => by cases hafter; rfl
  | cons id remaining ih =>
      have hactive : id ∈ supervisor.activeIds := hbalanced.queued.subset List.mem_cons_self
      obtain ⟨context, hcontext⟩ :=
        Option.isSome_iff_exists.mp ((supervisor.mem_activeIds_iff id).mp hactive)
      have hremoved : Balanced ((supervisor.remove id).ledger remaining [id]) :=
        ((supervisor.remove_moves id).balanced_and_continues hbalanced).1
      have hturn : (supervisor.remove id).Brings
          ((supervisor.remove id).turnMoments { id, context })
          ((supervisor.remove id).turn { id, context }) :=
        turnMoments_brings hremoved
      have hquiet : supervisor.Brings [] (.ok (supervisor.remove id)) :=
        brings_nil fun _ hafter => by cases hafter; rfl
      simp only [queueMoments, runQueue, hcontext]
      cases hturned : (supervisor.remove id).turn { id, context } with
      | error interruption =>
          rw [hturned] at hturn
          rw [List.append_nil]
          exact hquiet.append hturn
      | ok next =>
          rw [hturned] at hturn
          have hnext : Balanced (next.ledger remaining []) :=
            ((turn_moves hturned).balanced_and_continues hbalanced).1
          refine (hquiet.append hturn).append ?_
          simp only
          split
          · exact brings_one ⟨remaining, [], hnext⟩ fun _ hafter => by
              cases hafter
              exact next.board_abortAll
          · exact ih hnext

theorem passMoments_brings {supervisor : Supervisor}
    (hbalanced : Balanced (supervisor.ledger [] [])) :
    supervisor.Brings supervisor.passMoments (supervisor.pass.map (·.2)) := by
  unfold passMoments pass
  split
  · exact brings_one ⟨[], [], hbalanced⟩ fun _ hafter => by
      cases hafter
      exact supervisor.board_abortAll
  · let opened : Supervisor := { supervisor with inbox := [] }
    have hopened : supervisor.Brings [] (.ok opened) :=
      brings_nil fun _ hafter => by cases hafter; rfl
    have hcollected : opened.Brings (opened.deliveryMoments supervisor.inbox)
        (.ok supervisor.collect) :=
      deliveryMoments_brings (show Balanced (opened.ledger [] []) from hbalanced) _
    have hquiet : supervisor.collect.Brings [] (.ok supervisor.refresh) :=
      brings_nil fun _ hafter => by cases hafter; rfl
    have hrefreshed := (hopened.append hcollected).append hquiet
    have hmoves : Moves (supervisor.ledger [] []) (supervisor.refresh.ledger [] []) :=
      supervisor.refresh_moves
    rw [List.append_nil, List.nil_append] at hrefreshed
    simp only
    generalize supervisor.refresh = next at hrefreshed hmoves ⊢
    have hnext := (hmoves.balanced_and_continues hbalanced).1
    refine hrefreshed.append ?_
    split
    · rename_i hready
      rw [hready]
      refine brings_nil fun last hlast => ?_
      cases hlast
      dsimp only
      split
      · rfl
      · exact next.board_idle
    · have hqueue := queueMoments_brings (next.takeReady_moves.balanced_and_continues hnext).1
      have hready : next.Brings [] (.ok { next with ready := [] }) :=
        brings_nil fun _ hafter => by cases hafter; rfl
      exact hready.append hqueue

theorem requestMoments_brings {supervisor : Supervisor}
    (hbalanced : Balanced (supervisor.ledger [] [])) (request : Request) :
    supervisor.Brings (supervisor.requestMoments request) (supervisor.handle request) := by
  cases request with
  | pass =>
      have hpass := passMoments_brings hbalanced
      rw [requestMoments, handle]
      split
      · rename_i hinterrupted
        rw [hinterrupted] at hpass
        exact hpass
      · rename_i hdone
        rw [hdone] at hpass
        exact hpass
  | abortAll =>
      exact brings_one ⟨[], [], hbalanced⟩ fun _ hafter => by
        cases hafter
        exact supervisor.board_abortAll
  | add function retain =>
      exact brings_nil fun _ hafter => by
        cases hafter
        exact supervisor.board_add function retain
  | send | exit | takeContext | addSender | dropSender | share =>
      exact brings_nil fun _ hafter => by cases hafter; rfl

theorem moments_brings {supervisor : Supervisor}
    (hbalanced : Balanced (supervisor.ledger [] [])) (requests : List Request) :
    supervisor.Brings (supervisor.moments requests) (supervisor.handleAll requests) := by
  induction requests generalizing supervisor with
  | nil => exact brings_nil fun _ hafter => by cases hafter; rfl
  | cons request requests ih =>
      have hfirst := requestMoments_brings hbalanced request
      rw [moments, handleAll]
      cases hnext : supervisor.handle request with
      | error interruption =>
          rw [hnext] at hfirst
          rw [List.append_nil]
          exact hfirst
      | ok next =>
          rw [hnext] at hfirst
          exact hfirst.append (ih ((handle_moves hbalanced hnext).balanced_and_continues hbalanced).1)

end Supervisor

end ScriptBundle
