import Mathlib.Order.Monotone.Basic
import ScriptBundle.Proofs.Schedule.Standstill

/-!
# Rounds

A pass is a round of turns.  It refreshes the queues, takes the queue of ready contexts
away and gives the contexts of this queue their turns, up to the first one at whose end
somebody has asked for the end of the program.  What holds of one turn is carried along
the round by induction on the turns.
-/

namespace ScriptBundle

open Ledger

/-! ## Clocks -/

namespace Clock

/-- A clock after some more readings and waits. -/
structure Later (earlier later : Clock) : Prop where
  readings : later.readings = earlier.readings
  taken : earlier.taken ≤ later.taken
  waited : earlier.waited ≤ later.waited

theorem Later.refl (clock : Clock) : clock.Later clock :=
  ⟨rfl, Nat.le_refl _, Nat.le_refl _⟩

theorem Later.trans {first second third : Clock} (hleft : first.Later second)
    (hright : second.Later third) : first.Later third where
  readings := hright.readings.trans hleft.readings
  taken := Nat.le_trans hleft.taken hright.taken
  waited := Nat.le_trans hleft.waited hright.waited

theorem later_read (clock : Clock) : clock.Later clock.read.2 :=
  ⟨rfl, Nat.le_succ _, Nat.le_refl _⟩

theorem later_wait (clock : Clock) (span : Nat) : clock.Later (clock.wait span) :=
  ⟨rfl, Nat.le_refl _, Nat.le_add_right _ _⟩

/-- A clock whose readings do not go back shows no earlier time later on. -/
theorem Later.read_le {earlier later : Clock} (hlater : earlier.Later later)
    (hreadings : Monotone earlier.readings) : earlier.read.1 ≤ later.read.1 := by
  have hreading : earlier.readings earlier.taken ≤ later.readings later.taken := by
    rw [hlater.readings]
    exact hreadings hlater.taken
  exact Nat.add_le_add hreading hlater.waited

end Clock

namespace Supervisor

/-! ## Turns in a row -/

/-- The supervisor just before the first turn of a pass. -/
def opened (supervisor : Supervisor) : Supervisor :=
  { supervisor.refresh with ready := [] }

/-- Turns that follow each other, from one supervisor to another one. -/
inductive Round : Supervisor → List TurnStart → Supervisor → Prop where
  | done (supervisor : Supervisor) : Round supervisor [] supervisor
  | turn {supervisor next last : Supervisor} {id : ContextId} {context : Context}
      {starts : List TurnStart} (hcontext : supervisor.context? id = some context)
      (hturn : (supervisor.remove id).turn { id, context } = .ok next)
      (hrest : Round next starts last) :
      Round supervisor (⟨supervisor.remove id, { id, context }⟩ :: starts) last

/-- The contexts that take some turns, in the order of the turns. -/
def takers (starts : List TurnStart) : List ContextId :=
  starts.map (·.task.id)

theorem takers_append (first second : List TurnStart) :
    takers (first ++ second) = takers first ++ takers second :=
  List.map_append

namespace Round

variable {supervisor last : Supervisor} {starts : List TurnStart} {pending : List ContextId}

theorem moves (hround : supervisor.Round starts last) :
    Moves (supervisor.ledger (takers starts ++ pending) []) (last.ledger pending []) := by
  induction hround with
  | done => exact .refl
  | @turn supervisor next last id context starts hcontext hturn hrest ih =>
      have hmoves : Moves (supervisor.ledger (id :: (takers starts ++ pending)) [])
          (next.ledger (takers starts ++ pending) []) := turn_moves hturn
      exact hmoves.trans ih

theorem balanced (hround : supervisor.Round starts last)
    (hbalanced : Balanced (supervisor.ledger (takers starts ++ pending) [])) :
    Balanced (last.ledger pending []) :=
  (hround.moves.balanced_and_continues hbalanced).1

/-- Between two turns of a round there is a supervisor that the earlier ones lead to. -/
theorem split {earlier later : List TurnStart}
    (hround : supervisor.Round (earlier ++ later) last) :
    ∃ middle, supervisor.Round earlier middle ∧ middle.Round later last := by
  induction earlier generalizing supervisor with
  | nil => exact ⟨supervisor, .done supervisor, hround⟩
  | cons start earlier ih =>
      cases hround with
      | turn hcontext hturn hrest =>
          obtain ⟨middle, hearlier, hlater⟩ := ih hrest
          exact ⟨middle, .turn hcontext hturn hearlier, hlater⟩

end Round

/-! ## The round of a pass -/

theorem refresh_clock (supervisor : Supervisor) :
    supervisor.refresh.clock = supervisor.clock.read.2 := by
  obtain ⟨_, _, _, hcollect⟩ := supervisor.collect_eq
  calc supervisor.refresh.clock
    _ = supervisor.collect.clock.read.2 := rfl
    _ = supervisor.clock.read.2 := by rw [hcollect]

theorem idle_later (supervisor : Supervisor) :
    ∃ clock, supervisor.clock.Later clock ∧ supervisor.idle.2 = { supervisor with clock } := by
  unfold idle
  split
  · split
    · exact ⟨_, .refl _, rfl⟩
    · exact ⟨_, supervisor.clock.later_wait _, rfl⟩
  · exact ⟨_, supervisor.clock.later_read.trans (Clock.later_wait _ _), rfl⟩

/-- The end of all contexts empties the queues. -/
theorem abortAll_frame (supervisor : Supervisor) :
    ∃ results, supervisor.abortAll =
      { supervisor with active := [], ready := [], sleeping := [], waiting := [], results } := by
  obtain ⟨results, hresults, -⟩ := foldl_conclude [] [] supervisor.active
    { supervisor with active := [], ready := [], sleeping := [], waiting := [] }
  exact ⟨results, hresults⟩

/-- What the turns of a queue come to: all contexts of the queue took their turns, or the
end was asked for in the last turn and ends all contexts. -/
structure Played (supervisor : Supervisor) (queue : List ContextId) (starts : List TurnStart)
    (last : Supervisor) (pending : List ContextId) (after : Supervisor) : Prop where
  round : supervisor.Round starts last
  queue_eq : queue = takers starts ++ pending
  ending : last.exit.requested = true ∧ after = last.abortAll ∨
    last.exit.requested = false ∧ pending = [] ∧
      ∃ clock, last.clock.Later clock ∧ after = { last with clock }

/-- Each id of a queue finds its context, since the books are balanced. -/
theorem runQueue_played {supervisor after : Supervisor} {queue : List ContextId} {more : Bool}
    (hbalanced : Balanced (supervisor.ledger queue []))
    (hexit : supervisor.exit.requested = false)
    (hrun : supervisor.runQueue queue = .ok (more, after)) :
    ∃ last pending,
      supervisor.Played queue (supervisor.queueStarts undisturbed queue) last pending after := by
  induction queue generalizing supervisor with
  | nil =>
      cases hrun
      exact ⟨after, [], .done after, rfl, .inr ⟨hexit, rfl, after.clock, .refl _, rfl⟩⟩
  | cons id remaining ih =>
      have hactive : id ∈ supervisor.activeIds := hbalanced.queued.subset List.mem_cons_self
      obtain ⟨context, hcontext⟩ :=
        Option.isSome_iff_exists.mp ((supervisor.mem_activeIds_iff id).mp hactive)
      rw [runQueue, hcontext] at hrun
      rw [queueStarts, hcontext]
      simp only [turnAmid_undisturbed]
      cases hturn : (supervisor.remove id).turn { id, context } with
      | error interruption => simp [hturn] at hrun
      | ok next =>
          have hmoves : Moves (supervisor.ledger (id :: remaining) []) (next.ledger remaining []) :=
            turn_moves hturn
          simp only [hturn] at hrun ⊢
          split at hrun
          · rename_i hrequested
            cases hrun
            rw [if_pos hrequested]
            exact ⟨next, remaining, .turn hcontext hturn (.done next), rfl,
              .inl ⟨hrequested, rfl⟩⟩
          · rename_i hcontinues
            rw [if_neg hcontinues]
            obtain ⟨last, pending, hround, hqueue, hending⟩ :=
              ih (hmoves.balanced_and_continues hbalanced).1 (Bool.eq_false_iff.mpr hcontinues)
                hrun
            exact ⟨last, pending, .turn hcontext hturn hround, congrArg (id :: ·) hqueue, hending⟩

variable {supervisor after : Supervisor} {more : Bool}

theorem opened_moves (supervisor : Supervisor) :
    Moves (supervisor.ledger [] []) (supervisor.opened.ledger supervisor.refresh.ready []) :=
  supervisor.refresh_moves.trans supervisor.refresh.takeReady_moves

theorem opened_balanced (hbalanced : Balanced (supervisor.ledger [] [])) :
    Balanced (supervisor.opened.ledger supervisor.refresh.ready []) :=
  (supervisor.opened_moves.balanced_and_continues hbalanced).1

theorem opened_of_ready (hready : supervisor.refresh.ready = []) :
    supervisor.opened = supervisor.refresh := by
  rw [opened, ← hready]

/-- A pass that is not asked to be the last one is a round of turns over the contexts that
are ready at its beginning.  If there are none, it looks at the clock at most. -/
theorem pass_played (hbalanced : Balanced (supervisor.ledger [] []))
    (hexit : supervisor.exit.requested = false) (hpass : supervisor.pass = .ok (more, after)) :
    ∃ last pending,
      supervisor.opened.Played supervisor.refresh.ready (supervisor.passStarts undisturbed) last
        pending after := by
  rw [passStarts, if_neg (Bool.eq_false_iff.mp hexit)]
  have hopened : supervisor.opened.exit.requested = false := by rw [opened, refresh_exit, hexit]
  have hquiet : ∀ clock, supervisor.refresh.clock.Later clock →
      after = { supervisor.refresh with clock } → supervisor.refresh.ready = [] →
      ∃ last pending,
        supervisor.opened.Played supervisor.refresh.ready
          (supervisor.opened.queueStarts undisturbed supervisor.refresh.ready) last pending
          after := by
    intro clock hlater hafter hready
    rw [hready]
    exact ⟨supervisor.opened, [], .done _, rfl,
      .inr ⟨hopened, rfl, clock, hlater, by rw [opened_of_ready hready, hafter]⟩⟩
  rcases pass_eq_ok hexit hpass with ⟨hready, -, -, hafter⟩ | ⟨hready, -, hidle⟩ | ⟨-, hrun⟩
  · exact hquiet supervisor.refresh.clock (.refl _) hafter hready
  · obtain ⟨clock, hlater, hclock⟩ := supervisor.refresh.idle_later
    exact hquiet clock hlater ((congrArg Prod.snd hidle).trans hclock) hready
  · exact runQueue_played (opened_balanced hbalanced) hopened hrun

/-- A pass is a round of turns.  At its end all contexts are ended, or the clock has moved on
at most.  There are no turns if the end was asked for before the pass. -/
theorem pass_rounds (hbalanced : Balanced (supervisor.ledger [] []))
    (hpass : supervisor.pass = .ok (more, after)) :
    ∃ first last, (first = supervisor ∨ first = supervisor.opened) ∧
      first.Round (supervisor.passStarts undisturbed) last ∧
      (after = last.abortAll ∨ ∃ clock, last.clock.Later clock ∧ after = { last with clock }) := by
  cases hexit : supervisor.exit.requested with
  | true =>
      rw [pass, if_pos hexit] at hpass
      cases hpass
      rw [passStarts, if_pos hexit]
      exact ⟨supervisor, supervisor, .inl rfl, .done supervisor, .inl rfl⟩
  | false =>
      obtain ⟨last, pending, hround, -, hending⟩ := pass_played hbalanced hexit hpass
      refine ⟨supervisor.opened, last, .inr rfl, hround, ?_⟩
      exact hending.imp And.right fun hgoesOn => hgoesOn.2.2

/-- A queue gives no turn to a context that it does not hold, and no second one. -/
theorem takers_queueStarts (outside : ContextId → Option Int32) (supervisor : Supervisor)
    (queue : List ContextId) :
    (takers (supervisor.queueStarts outside queue)).Sublist queue := by
  induction queue generalizing supervisor with
  | nil => exact .refl _
  | cons id remaining ih =>
      rw [queueStarts]
      cases supervisor.context? id with
      | none => exact (ih supervisor).cons id
      | some context =>
          apply List.Sublist.cons_cons id
          cases (supervisor.remove id).turnAmid outside { id, context } with
          | error interruption => exact List.nil_sublist remaining
          | ok next =>
              simp only
              split
              · exact List.nil_sublist remaining
              · exact ih next

theorem takers_passStarts (outside : ContextId → Option Int32) (supervisor : Supervisor) :
    (takers (supervisor.passStarts outside)).Sublist supervisor.refresh.ready := by
  unfold passStarts
  split
  · exact List.nil_sublist _
  · exact takers_queueStarts outside supervisor.opened supervisor.refresh.ready

theorem refresh_balanced (hbalanced : Balanced (supervisor.ledger [] [])) :
    Balanced (supervisor.refresh.ledger [] []) :=
  (supervisor.refresh_moves.balanced_and_continues hbalanced).1

theorem queued_nodup {pending : List ContextId}
    (hbalanced : Balanced (supervisor.ledger pending [])) :
    (pending ++ supervisor.queued).Nodup :=
  hbalanced.queued.nodup_iff.mpr hbalanced.nodup

theorem ready_nodup (hbalanced : Balanced (supervisor.ledger [] [])) :
    supervisor.ready.Nodup := by
  have hqueued : (supervisor.ready ++ (supervisor.sleeping.map (·.2) ++
      supervisor.waiting.map (·.2))).Nodup := by
    rw [← List.append_assoc]
    exact queued_nodup hbalanced
  exact (List.nodup_append.mp hqueued).1

/-- A context takes one turn in a pass at most. -/
theorem takers_nodup (outside : ContextId → Option Int32)
    (hbalanced : Balanced (supervisor.ledger [] [])) :
    (takers (supervisor.passStarts outside)).Nodup :=
  (ready_nodup (refresh_balanced hbalanced)).sublist (takers_passStarts outside supervisor)

end Supervisor

/-! ## More passes -/

/-- A computation that comes to an end comes to the same end if it may make more passes. -/
def Settles {ε α : Type} (compute : Nat → Except ε α) : Prop :=
  ∀ passes value, compute passes = .ok value → ∀ more, passes ≤ more → compute more = .ok value

theorem settles_const {ε α : Type} (outcome : Except ε α) : Settles fun _ => outcome :=
  fun _ _ hvalue _ _ => hvalue

theorem Settles.bind {ε α β : Type} {compute : Nat → Except ε α} {next : α → Nat → Except ε β}
    (hcompute : Settles compute) (hnext : ∀ value, Settles (next value)) :
    Settles fun passes => compute passes >>= fun value => next value passes := by
  intro passes result hresult more hle
  obtain ⟨value, hvalue, hrest⟩ := bind_eq_ok_iff.mp hresult
  exact bind_eq_ok_iff.mpr
    ⟨value, hcompute passes value hvalue more hle, hnext value passes result hrest more hle⟩

namespace Supervisor

theorem run_settles (supervisor : Supervisor) :
    Settles fun passes => supervisor.run passes := by
  intro passes last hlast more hle
  induction passes generalizing supervisor more with
  | zero => cases hlast
  | succ passes ih =>
      obtain ⟨more, rfl⟩ := Nat.exists_eq_add_of_le' hle
      rw [← Nat.add_assoc]
      simp only [run] at hlast ⊢
      split at hlast
      · cases hlast
      · exact ih _ hlast _ (Nat.le_add_left passes more)
      · exact hlast

end Supervisor

end ScriptBundle
