import ScriptBundle.Proofs.Schedule.ExitCode
import ScriptBundle.Proofs.Schedule.Worlds

/-!
# Cancellation

A request to exit ends a supervisor at once, wherever in a pass it is made.  The turn in
which it is made is the last one of the pass and of all later passes; the contexts that
are left are aborted, and no aborted context is ever idle in the pool again.
-/

namespace ScriptBundle

open Ledger Custody

namespace Supervisor

variable {outside : ContextId → Option Int32} {elsewhere : List Context}

/-! ## The turns of a pass -/

/-- A retained context without a final state was active, and is aborted. -/
theorem abortAll_retained {supervisor : Supervisor} {pending : List ContextId}
    (hbalanced : Balanced (supervisor.ledger pending [])) {id : ContextId}
    (hretained : id ∈ supervisor.retained) :
    supervisor.abortAll.state? id = some ((supervisor.state? id).getD .aborted) := by
  rw [abortAll_state?]
  cases hstate : supervisor.state? id with
  | none => exact if_pos ⟨active_of_unfinished hbalanced hretained hstate, hretained⟩
  | some state =>
      have hinactive : id ∉ supervisor.activeIds := fun hactive =>
        Option.some_ne_none state (hstate.symm.trans (hbalanced.present_final id hactive))
      exact (if_neg fun hmem => hinactive hmem.1).trans hstate

end Supervisor

namespace World

end World

end ScriptBundle
