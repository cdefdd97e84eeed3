import ScriptBundle.Proofs.Schedule.Custody
import ScriptBundle.Proofs.Schedule.Requests

/-!
# Worlds

A supervisor shares its pool and its engine with others, who take contexts from it, let
them run and put them back.  Others may also hold the contexts that a supervisor gave
away.  When a supervisor is dropped, another one may take its place.  Through all of this
the books of the supervisor stay in order and every context is in one place.
-/

namespace ScriptBundle

open Ledger Custody

/-- A supervisor, and the contexts that others hold. -/
structure World where
  supervisor : Supervisor
  lent : List Context

namespace World

/-- A world in which no context was made yet. -/
def fresh (session : Session) (clock : Clock) (exit : ExitRequest) (idlePoll : Nat) : World :=
  ⟨.create session.drain clock exit idlePoll, []⟩

/-- Whether a request concerns nobody but the supervisor, and is no pass. -/
def isPlain : Supervisor.Request → Bool
  | .pass | .takeContext _ | .share _ => false
  | _ => true

/-- What happens in the time of one supervisor. -/
inductive Step : World → World → Prop where
  | ask {world : World} {request : Supervisor.Request} {after : Supervisor}
      (hplain : isPlain request = true) (hhandle : world.supervisor.handle request = .ok after) :
      Step world { world with supervisor := after }
  /-- A pass, during which someone outside may ask for the end. -/
  | pass {world : World} {outside : ContextId → Option Int32} {more : Bool} {after : Supervisor}
      (hpass : world.supervisor.passAmid outside = .ok (more, after)) :
      Step world { world with supervisor := after }
  | take (world : World) (id : ContextId) :
      Step world
        { supervisor := (world.supervisor.takeContext id).2
          lent := (world.supervisor.takeContext id).1.toList ++ world.lent }
  /-- Others take a context from the pool. -/
  | acquire (world : World) :
      Step world
        { supervisor := { world.supervisor with session := world.supervisor.session.acquire.2 }
          lent := world.supervisor.session.acquire.1 :: world.lent }
  /-- Others put a context into the pool, which may have run on. -/
  | release (world : World) {context changed : Context} (hlent : context ∈ world.lent)
      (hsame : changed.id = context.id) :
      Step world
        { supervisor :=
            { world.supervisor with session := world.supervisor.session.release changed }
          lent := world.lent.erase context }
  /-- Others use the engine in other ways, or drop idle contexts. -/
  | share (world : World) {session : Session}
      (hfree : session.pool.free.Sublist world.supervisor.session.pool.free)
      (hcreated : world.supervisor.session.engine.contextsCreated ≤
        session.engine.contextsCreated) :
      Step world { world with supervisor := { world.supervisor with session } }

/-- What happens while supervisors follow one another. -/
inductive Change : World → World → Prop where
  | step {world after : World} (hstep : Step world after) : Change world after
  /-- The supervisor is dropped, and there is a new one. -/
  | renew (world : World) (clock : Clock) (exit : ExitRequest) (idlePoll : Nat) :
      Change world
        { world with supervisor := .create world.supervisor.close clock exit idlePoll }

/-- One world follows another in the time of one supervisor. -/
abbrev Uses : World → World → Prop :=
  Relation.ReflTransGen Step

/-- One world follows another. -/
abbrev Reaches : World → World → Prop :=
  Relation.ReflTransGen Change

/-- The contexts of a world by their numbers. -/
def custody (world : World) : Custody :=
  world.supervisor.custody world.lent

theorem Step.balanced {world after : World} (hstep : Step world after)
    (hbalanced : Balanced (world.supervisor.ledger [] [])) :
    Balanced (after.supervisor.ledger [] []) := by
  cases hstep with
  | ask _ hhandle =>
      exact ((Supervisor.handle_moves hbalanced hhandle).balanced_and_continues hbalanced).1
  | pass hpass =>
      exact ((Supervisor.passAmid_moves hbalanced hpass).balanced_and_continues hbalanced).1
  | take id =>
      have hhandle : world.supervisor.handle (.takeContext id) =
          .ok (world.supervisor.takeContext id).2 := rfl
      exact ((Supervisor.handle_moves hbalanced hhandle).balanced_and_continues hbalanced).1
  | acquire | release | share => exact hbalanced

theorem Step.keeps {world after : World} (hstep : Step world after) :
    Keeps world.custody after.custody := by
  cases hstep with
  | @ask request after hplain hhandle =>
      cases request with
      | add function retain =>
          cases hhandle
          exact world.supervisor.add_keeps function retain
      | abortAll =>
          cases hhandle
          exact world.supervisor.abortAll_keeps
      | send | exit | addSender | dropSender =>
          cases hhandle
          exact .refl _
      | pass | takeContext | share => cases hplain
  | pass hpass => exact Supervisor.passAmid_keeps hpass
  | take id => exact world.supervisor.takeContext_keeps id
  | acquire => exact acquire_keeps world.supervisor.session _
  | @release context changed hlent hsame =>
      have htaken : Keeps world.custody (.of world.supervisor.session
          (context :: (world.lent.erase context ++ world.supervisor.contexts))) :=
        keeps_of_count fun number => by
          have hnumber := ((List.perm_cons_erase hlent).map (·.id)).count_eq number
          simp only [numbers, List.map_append, List.map_cons, List.count_append, List.count_cons]
            at hnumber ⊢
          omega
      exact htaken.trans (release_keeps world.supervisor.session hsame _)
  | @share session hfree hcreated => exact share_keeps hfree hcreated _

/-- A request to exit is not taken back. -/
theorem Step.requested {world after : World} (hstep : Step world after)
    (hrequested : world.supervisor.exit.requested = true) :
    after.supervisor.exit.requested = true := by
  cases hstep with
  | @ask request after hplain hhandle =>
      cases request with
      | add function retain =>
          cases hhandle
          exact (world.supervisor.add_exit function retain) ▸ hrequested
      | abortAll =>
          cases hhandle
          exact world.supervisor.abortAll_exit ▸ hrequested
      | send | addSender | dropSender =>
          cases hhandle
          exact hrequested
      | exit =>
          cases hhandle
          rfl
      | pass | takeContext | share => cases hplain
  | pass hpass =>
      rw [Supervisor.passAmid, if_pos hrequested] at hpass
      cases hpass
      exact world.supervisor.abortAll_exit ▸ hrequested
  | take | acquire | release | share => exact hrequested

theorem Change.keeps {world after : World} (hchange : Change world after) :
    Keeps world.custody after.custody := by
  cases hchange with
  | step hstep => exact hstep.keeps
  | renew clock exit idlePoll =>
      have hclosed : Keeps world.custody (.of world.supervisor.close world.lent) :=
        world.supervisor.close_keeps
      refine hclosed.trans (keeps_of_count fun number => Nat.le_of_eq ?_)
      rw [show Supervisor.contexts (.create world.supervisor.close clock exit idlePoll) = [] from
        rfl, List.append_nil]

theorem Reaches.keeps {world after : World} (hreach : Reaches world after) :
    Keeps world.custody after.custody := by
  induction hreach with
  | refl => exact .refl _
  | tail _ hchange ih => exact ih.trans hchange.keeps

theorem Uses.requested {world after : World} (huses : Uses world after)
    (hrequested : world.supervisor.exit.requested = true) :
    after.supervisor.exit.requested = true := by
  induction huses with
  | refl => exact hrequested
  | tail _ hstep ih => exact hstep.requested ih

end World

end ScriptBundle
