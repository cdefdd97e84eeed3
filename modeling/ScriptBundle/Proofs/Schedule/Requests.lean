import ScriptBundle.Proofs.Outcomes
import ScriptBundle.Proofs.Schedule.Accounting

/-!
# Supervisors in use

Those who hold a supervisor add contexts to it, send events, ask for the end,
order passes, take finished contexts and end all contexts, in any order.  Whatever
they do, no context is lost or queued twice, and what has ended stays so.
-/

namespace ScriptBundle.Supervisor

open Ledger

/-- What can be asked of a supervisor. -/
inductive Request where
  | add (function : ScriptFunction) (retain : Bool)
  | send (event : EventId)
  | exit (code : Int32)
  | pass
  | takeContext (id : ContextId)
  | abortAll
  | addSender
  | dropSender
  /-- Others use the shared engine and pool. -/
  | share (session : Session)

def handle (supervisor : Supervisor) : Request → Except Interruption Supervisor
  | .add function retain => .ok (supervisor.add function retain).2
  | .send event => .ok (supervisor.send event)
  | .exit code => .ok (supervisor.requestExit code)
  | .pass =>
      match supervisor.pass with
      | .error interruption => .error interruption
      | .ok (_, supervisor) => .ok supervisor
  | .takeContext id => .ok (supervisor.takeContext id).2
  | .abortAll => .ok supervisor.abortAll
  | .addSender => .ok supervisor.addSender
  | .dropSender => .ok supervisor.dropSender
  | .share session => .ok { supervisor with session }

/-- Handles requests one after the other. -/
def handleAll (supervisor : Supervisor) : List Request → Except Interruption Supervisor
  | [] => .ok supervisor
  | request :: requests =>
      match supervisor.handle request with
      | .error interruption => .error interruption
      | .ok supervisor => supervisor.handleAll requests

theorem takeContext_state? (supervisor : Supervisor) (id : ContextId) :
    (supervisor.takeContext id).2.state? = supervisor.state? := by
  funext other
  unfold takeContext state? result?
  rw [List.find?_map, Option.map_map]
  refine congrArg₂ Option.map (funext fun result => ?_)
    (congrArg (List.find? · supervisor.results) (funext fun result => ?_))
  · simp only [Function.comp_apply]
    split <;> rfl
  · simp only [Function.comp_apply]
    split <;> rfl

theorem handle_moves {supervisor after : Supervisor} {request : Request}
    (hbalanced : Balanced (supervisor.ledger [] []))
    (hhandle : supervisor.handle request = .ok after) :
    Moves (supervisor.ledger [] []) (after.ledger [] []) := by
  cases request with
  | add function retain =>
      cases hhandle
      exact supervisor.add_moves function retain
  | pass =>
      simp only [handle] at hhandle
      split at hhandle
      · cases hhandle
      · rename_i hpass
        cases hhandle
        exact pass_moves hbalanced hpass
  | takeContext id =>
      cases hhandle
      have hledger : (supervisor.takeContext id).2.ledger [] [] = supervisor.ledger [] [] := by
        unfold ledger
        rw [takeContext_state?]
        rfl
      rw [hledger]
  | abortAll =>
      cases hhandle
      exact supervisor.abortAll_moves
  | send | exit | addSender | dropSender | share =>
      cases hhandle
      exact .refl

theorem handleAll_moves {supervisor after : Supervisor} {requests : List Request}
    (hbalanced : Balanced (supervisor.ledger [] []))
    (hhandle : supervisor.handleAll requests = .ok after) :
    Moves (supervisor.ledger [] []) (after.ledger [] []) := by
  induction requests generalizing supervisor with
  | nil =>
      cases hhandle
      exact .refl
  | cons request requests ih =>
      simp only [handleAll] at hhandle
      split at hhandle
      · cases hhandle
      · rename_i next hnext
        have hmoves : Moves (supervisor.ledger [] []) (next.ledger [] []) :=
          handle_moves hbalanced hnext
        exact hmoves.trans (ih (hmoves.balanced_and_continues hbalanced).1 hhandle)

theorem create_balanced (session : Session) (clock : Clock) (exit : ExitRequest)
    (idlePoll : Nat) : Balanced ((create session clock exit idlePoll).ledger [] []) where
  queued := .refl _
  nodup := List.nodup_nil
  present_final _ hid := (List.not_mem_nil hid).elim
  final_retained _ hid := (Bool.false_ne_true hid).elim
  retained_final _ hid := (List.not_mem_nil hid).elim
  final_terminal _ _ hfinal := (Option.some_ne_none _ hfinal.symm).elim
  bounded _ hid := hid.elim (fun hmem => (List.not_mem_nil hmem).elim)
    fun hmem => (List.not_mem_nil hmem).elim

/-- The contexts of a supervisor are accounted for. -/
structure Accounted (supervisor : Supervisor) : Prop where
  active_nodup : supervisor.activeIds.Nodup
  /-- An active context is in one place of one queue. -/
  active_queued : ∀ id ∈ supervisor.activeIds, supervisor.queued.count id = 1
  queued_active : ∀ id ∈ supervisor.queued, id ∈ supervisor.activeIds
  active_unfinished : ∀ id ∈ supervisor.activeIds, id ∉ supervisor.finishedIds
  finished_retained : ∀ id ∈ supervisor.finishedIds, id ∈ supervisor.retained
  /-- A retained context is not lost. -/
  retained_known : ∀ id ∈ supervisor.retained,
    id ∈ supervisor.activeIds ∨ id ∈ supervisor.finishedIds
  /-- The next id is a new one. -/
  ids_lt : ∀ id, id ∈ supervisor.activeIds ∨ id ∈ supervisor.retained → id < supervisor.nextId

/-- A retained context without a final state is active between two turns. -/
theorem active_of_unfinished {supervisor : Supervisor} {pending : List ContextId}
    (hbalanced : Balanced (supervisor.ledger pending [])) {id : ContextId}
    (hretained : id ∈ supervisor.retained) (hstate : supervisor.state? id = none) :
    id ∈ supervisor.activeIds := by
  by_contra hgone
  have hsome := hbalanced.retained_final id hretained hgone
  rw [show (supervisor.ledger pending []).final id = none from hstate] at hsome
  cases hsome

theorem mem_finishedIds_iff (supervisor : Supervisor) (id : ContextId) :
    id ∈ supervisor.finishedIds ↔ (supervisor.state? id).isSome := by
  unfold finishedIds state? result?
  rw [Option.isSome_map, List.find?_isSome, List.mem_map]
  simp only [decide_eq_true_eq]

theorem accounted_of_balanced {supervisor : Supervisor}
    (hbalanced : Balanced (supervisor.ledger [] [])) : supervisor.Accounted where
  active_nodup := hbalanced.nodup
  active_queued id hid := by
    calc supervisor.queued.count id
      _ = supervisor.activeIds.count id := hbalanced.queued.count_eq id
      _ = if id ∈ supervisor.activeIds then 1 else 0 := List.Nodup.count hbalanced.nodup
      _ = 1 := if_pos hid
  queued_active id hid := hbalanced.queued.subset hid
  active_unfinished id hid hfinished := by
    have hsome := (supervisor.mem_finishedIds_iff id).mp hfinished
    have hnone : supervisor.state? id = none := hbalanced.present_final id hid
    rw [hnone] at hsome
    exact Bool.false_ne_true hsome
  finished_retained id hid :=
    hbalanced.final_retained id ((supervisor.mem_finishedIds_iff id).mp hid)
  retained_known id hid := by
    by_cases hactive : id ∈ supervisor.activeIds
    · exact .inl hactive
    · exact .inr ((supervisor.mem_finishedIds_iff id).mpr (hbalanced.retained_final id hid hactive))
  ids_lt := hbalanced.bounded

theorem add_eq_ok {supervisor : Supervisor} {function : ScriptFunction} {retain : Bool}
    {id : ContextId} (hadd : (supervisor.add function retain).1 = .ok id) :
    id = supervisor.nextId := by
  unfold add at hadd
  split at hadd
  split at hadd
  · cases hadd
  · exact (Except.ok.inj hadd).symm

/-- Whatever is asked of a supervisor, its contexts stay accounted for.  An id that
has been given away does not become active again, final states are final, and a
new context gets an id that no context had before. -/
theorem handleAll_accounted (session : Session) (clock : Clock) (exit : ExitRequest)
    (idlePoll : Nat) {earlier later : List Request} {middle last : Supervisor}
    (hmiddle : (create session clock exit idlePoll).handleAll earlier = .ok middle)
    (hlast : middle.handleAll later = .ok last) :
    last.Accounted ∧
      (∀ id state, middle.state? id = some state → last.state? id = some state) ∧
      (∀ id < middle.nextId, id ∉ middle.activeIds →
        id ∉ last.activeIds ∧ last.state? id = middle.state? id) ∧
      (∀ function retain id, (last.add function retain).1 = .ok id →
        middle.nextId ≤ id ∧ id ∉ last.activeIds ∧ id ∉ last.finishedIds) := by
  have hcreated := create_balanced session clock exit idlePoll
  obtain ⟨hbefore, -⟩ := (handleAll_moves hcreated hmiddle).balanced_and_continues hcreated
  obtain ⟨hafter, hcontinues⟩ := (handleAll_moves hbefore hlast).balanced_and_continues hbefore
  have haccounted := accounted_of_balanced hafter
  refine ⟨haccounted, ?_, hcontinues.ended, ?_⟩
  · intro id state hstate
    exact hcontinues.final_eq_some hbefore hstate
  · intro function retain id hadd
    obtain rfl := add_eq_ok hadd
    refine ⟨hcontinues.nextId, fun hactive => ?_, fun hfinished => ?_⟩
    · exact Nat.lt_irrefl _ (haccounted.ids_lt _ (.inl hactive))
    · exact Nat.lt_irrefl _ (haccounted.ids_lt _ (.inr (haccounted.finished_retained _ hfinished)))

/-- A context that waits for an event outlives the one that spawned it. -/
theorem handleAll_accounted_outlived :
    let program := Program.ofFunctions true
      [("void entry()", [.spawn "void child()", .wait 7, .finish (.int 5)]),
        ("void child()", [.sleep ⟨3, 0, by decide⟩, .finish .void])]
    let first := create (.ofEngine { program } false) (.ticking 1000) {} defaultIdlePoll
    let earlier : List Request :=
      [.add ⟨"void entry()", [.spawn "void child()", .wait 7, .finish (.int 5)]⟩ true,
        .pass, .send 7, .pass]
    let later : List Request := [.takeContext 1, .exit 3, .pass]
    ∃ middle last, first.handleAll earlier = .ok middle ∧ middle.handleAll later = .ok last ∧
      middle.state? 1 = some (.finished (.int 5)) ∧ middle.activeIds = [2] ∧
      last.Accounted ∧ last.state? 1 = some (.finished (.int 5)) ∧ last.activeIds = [] := by
  intro program first earlier later
  obtain ⟨middle, hmiddle, hproperty⟩ := exists_eq_ok_of_any (first.handleAll earlier)
    (fun middle => middle.state? 1 = some (.finished (.int 5)) ∧ middle.activeIds = [2] ∧
      (middle.handleAll later).toOption.any fun last => last.activeIds = [])
    (by decide +kernel)
  obtain ⟨hstate, hactive, hlater⟩ := of_decide_eq_true hproperty
  obtain ⟨last, hlast, hnone⟩ := exists_eq_ok_of_any _ _ hlater
  obtain ⟨haccounted, hfinal, -, -⟩ := handleAll_accounted _ _ _ _ hmiddle hlast
  exact ⟨middle, last, hmiddle, hlast, hstate, hactive, haccounted, hfinal 1 _ hstate,
    of_decide_eq_true hnone⟩

end ScriptBundle.Supervisor
