import ScriptBundle.Proofs.Schedule.Exceptions

/-!
# Deadlines

A deadline is the time at which a turn begins plus the span that its context wants to
sleep.  Neither the loader nor the scheduler bounds the span, so the sum may lie beyond
the end of the clock.  A run breaks off at the first such turn, and nowhere else.
-/

namespace ScriptBundle

/-- The turns of a computation, and what it comes to.  It breaks off at the clock just if
its last turn oversleeps; no other turn does. -/
inductive Watched {α : Type} : List TurnStart → Except Interruption α → Prop where
  | settled {starts : List TurnStart} {result : Except Interruption α}
      (hstarts : ∀ start ∈ starts, ¬start.Oversleeps) (hresult : result ≠ .error .clockOverflow) :
      Watched starts result
  | overflow {earlier : List TurnStart} {start : TurnStart}
      (hearlier : ∀ other ∈ earlier, ¬other.Oversleeps) (hstart : start.Oversleeps) :
      Watched (earlier ++ [start]) (.error .clockOverflow)

/-- The turns of what follows a computation, if it comes to its end. -/
def startsAfter {α : Type} (result : Except Interruption α) (following : α → List TurnStart) :
    List TurnStart :=
  match result with
  | .ok value => following value
  | .error _ => []

namespace Watched

variable {α β : Type} {starts later : List TurnStart} {result : Except Interruption α}

/-- A computation that gives no turn does not look at the clock. -/
theorem quiet (hresult : result ≠ .error .clockOverflow) : Watched [] result :=
  .settled (fun _ hstart => (List.not_mem_nil hstart).elim) hresult

theorem done (value : α) : Watched [] (.ok value) :=
  quiet fun hbroken => by cases hbroken

theorem append (hstarts : ∀ start ∈ starts, ¬start.Oversleeps) (hlater : Watched later result) :
    Watched (starts ++ later) result := by
  cases hlater with
  | settled hlater hresult =>
      refine .settled (fun start hstart => ?_) hresult
      exact (List.mem_append.mp hstart).elim (hstarts start) (hlater start)
  | overflow hearlier hstart =>
      rw [← List.append_assoc]
      refine .overflow (fun other hother => ?_) hstart
      exact (List.mem_append.mp hother).elim (hstarts other) (hearlier other)

/-- No turn oversleeps in a computation that comes to its end. -/
theorem of_ok {value : α} (hwatched : Watched starts (.ok value)) :
    ∀ start ∈ starts, ¬start.Oversleeps := by
  cases hwatched with
  | settled hstarts hresult => exact hstarts

/-- What breaks off stays broken off, whatever it would have come to. -/
theorem of_error {interruption : Interruption}
    (hwatched : Watched starts (.error interruption : Except Interruption α)) :
    Watched starts (.error interruption : Except Interruption β) := by
  cases hwatched with
  | settled hstarts hresult =>
      refine .settled hstarts fun hsame => hresult ?_
      cases hsame
      rfl
  | overflow hearlier hstart => exact .overflow hearlier hstart

theorem bind {next : α → Except Interruption β} {following : α → List TurnStart}
    (hresult : Watched starts result)
    (hnext : ∀ value, result = .ok value → Watched (following value) (next value)) :
    Watched (starts ++ startsAfter result following) (result >>= next) := by
  cases result with
  | error interruption =>
      rw [startsAfter, List.append_nil]
      exact hresult.of_error
  | ok value => exact append hresult.of_ok (hnext value rfl)

/-- What follows the last turn does not look at the clock. -/
theorem followed {next : α → Except Interruption β} (hresult : Watched starts result)
    (hnext : ∀ value, next value ≠ .error .clockOverflow) : Watched starts (result >>= next) := by
  cases result with
  | error interruption => exact hresult.of_error
  | ok value => exact .settled hresult.of_ok (hnext value)

/-- No turn in front of the last one oversleeps. -/
theorem dropLast (hwatched : Watched starts result) :
    ∀ start ∈ starts.dropLast, ¬start.Oversleeps := by
  cases hwatched with
  | settled hstarts hresult =>
      exact fun start hstart => hstarts start ((List.dropLast_subset _ hstart))
  | overflow hearlier hstart =>
      rw [List.dropLast_concat]
      exact hearlier

/-- The clock breaks a computation off just if one of its turns oversleeps. -/
theorem eq_clockOverflow_iff (hwatched : Watched starts result) :
    result = .error .clockOverflow ↔ ∃ start ∈ starts, start.Oversleeps := by
  cases hwatched with
  | settled hstarts hresult =>
      exact ⟨fun hbroken => (hresult hbroken).elim,
        fun ⟨start, hstart, hoversleeps⟩ => (hstarts start hstart hoversleeps).elim⟩
  | overflow hearlier hstart =>
      exact ⟨fun _ => ⟨_, List.mem_append_right _ List.mem_cons_self, hstart⟩, fun _ => rfl⟩

end Watched

namespace Supervisor

theorem turn_of_oversleeps {supervisor : Supervisor} {task : Task}
    (hoversleeps : TurnStart.Oversleeps ⟨supervisor, task⟩) :
    supervisor.turn task = .error .clockOverflow := by
  obtain ⟨duration, hstate, hlate⟩ := hoversleeps
  rcases hresume : task.context.resume supervisor.session.engine.program with
    ⟨context, effects, state⟩
  rw [hresume] at hstate
  obtain rfl : state = .suspended (.sleep duration) := hstate
  rw [turn_eq hresume, settle, park]
  exact if_neg (Nat.not_lt_of_le hlate)

theorem turn_watched (supervisor : Supervisor) (task : Task) :
    Watched [⟨supervisor, task⟩] (supervisor.turn task) := by
  cases hturn : supervisor.turn task with
  | error interruption =>
      obtain ⟨rfl, hoversleeps⟩ := turn_eq_error hturn
      exact .overflow (fun _ hother => (List.not_mem_nil hother).elim) hoversleeps
  | ok next =>
      refine .settled (fun start hstart hoversleeps => ?_) (fun hbroken => by cases hbroken)
      obtain rfl := List.mem_singleton.mp hstart
      rw [turn_of_oversleeps hoversleeps] at hturn
      cases hturn

theorem runQueue_watched (supervisor : Supervisor) (ids : List ContextId) :
    Watched (supervisor.queueStarts undisturbed ids) (supervisor.runQueue ids) := by
  induction ids generalizing supervisor with
  | nil => exact .done _
  | cons id remaining ih =>
      rw [queueStarts, runQueue]
      cases supervisor.context? id with
      | none => exact ih supervisor
      | some context =>
          have hturn := (supervisor.remove id).turn_watched { id, context }
          simp only [turnAmid_undisturbed]
          cases hnext : (supervisor.remove id).turn { id, context } with
          | error interruption =>
              rw [hnext] at hturn
              exact hturn.of_error
          | ok next =>
              rw [hnext] at hturn
              have hrest : Watched
                  (if next.exit.requested then [] else next.queueStarts undisturbed remaining)
                  (if next.exit.requested then .ok (false, next.abortAll)
                    else next.runQueue remaining) := by
                split
                · exact .done _
                · exact ih next
              exact .append hturn.of_ok hrest

theorem pass_watched (supervisor : Supervisor) :
    Watched (supervisor.passStarts undisturbed) supervisor.pass := by
  unfold passStarts pass
  split
  · exact .done _
  · simp only
    cases supervisor.refresh.ready with
    | nil => exact .done _
    | cons id remaining => exact runQueue_watched _ _

theorem run_watched (passes : Nat) (supervisor : Supervisor) :
    Watched (supervisor.runStarts passes) (supervisor.run passes) := by
  induction passes generalizing supervisor with
  | zero => exact .quiet fun hbroken => by cases hbroken
  | succ passes ih =>
      have hpass := supervisor.pass_watched
      rw [runStarts, run]
      cases hnext : supervisor.pass with
      | error interruption =>
          rw [hnext] at hpass
          rw [List.append_nil]
          exact hpass.of_error
      | ok outcome =>
          obtain ⟨more, next⟩ := outcome
          rw [hnext] at hpass
          refine .append hpass.of_ok ?_
          cases more with
          | true => exact ih next
          | false => exact .done _

end Supervisor

namespace Runner

/-! ## The turns of a whole run -/

/-- The turns that are given to a function and to all the contexts it starts. -/
def superviseStarts (runner : Runner) (passes : Nat) (function : ScriptFunction)
    (exit : ExitRequest) : List TurnStart :=
  match (Supervisor.create runner.session runner.clock exit runner.idlePoll).add function true with
  | (.error _, _) => []
  | (.ok _, supervisor) => supervisor.runStarts passes

/-- The turns of the hook at the end. -/
def atExitStarts (runner : Runner) (passes : Nat) : List TurnStart :=
  match runner.find? atExit with
  | none => []
  | some hook => runner.superviseStarts passes hook {}

/-- The turns that follow the globals. -/
def mainStarts (runner : Runner) (passes : Nat) (diagnostics : Diagnostics)
    (entry : ScriptFunction) : List TurnStart :=
  match runner.session.engine.initializeGlobals with
  | .error _ => []
  | .ok engine =>
      let runner :=
        { runner with session := { runner.session with engine } }.enter .globalsInitialized
      let runner := (runner.presentReport diagnostics).1.enter .running
      runner.superviseStarts passes entry runner.exit ++
        startsAfter (runner.runEntry passes entry) fun (_, runner) => runner.atExitStarts passes

/-- The turns of a run, in their order. -/
def starts (runner : Runner) (passes : Nat) (diagnostics : Diagnostics) : List TurnStart :=
  match entryPoints.findSome? runner.find? with
  | none => []
  | some entry =>
      match runner.find? beforeGlobals with
      | none => runner.mainStarts passes diagnostics entry
      | some hook =>
          (runner.enter .preGlobals).superviseStarts passes hook runner.exit ++
            startsAfter ((runner.enter .preGlobals).runBeforeGlobals passes hook) fun
              | (.ok none, runner) => runner.mainStarts passes diagnostics entry
              | _ => []

theorem supervise_watched (runner : Runner) (passes : Nat) (function : ScriptFunction)
    (exit : ExitRequest) :
    Watched (runner.superviseStarts passes function exit)
      (runner.supervise passes function exit) := by
  rw [superviseStarts]
  rcases hadd : (Supervisor.create runner.session runner.clock exit runner.idlePoll).add
    function true with ⟨error | id, supervisor⟩
  · rw [supervise]
    simp only [hadd]
    exact .done _
  · rw [supervise_of_add hadd]
    exact (supervisor.run_watched passes).followed fun _ hbroken => by cases hbroken

theorem runAtExit_watched (runner : Runner) (passes : Nat) :
    Watched (runner.atExitStarts passes) (runner.runAtExit passes) := by
  unfold atExitStarts runAtExit
  cases runner.find? atExit with
  | none => exact .done _
  | some hook =>
      exact (runner.supervise_watched passes hook {}).followed fun _ hbroken => by cases hbroken

theorem runBeforeGlobals_watched (runner : Runner) (passes : Nat) (hook : ScriptFunction) :
    Watched (runner.superviseStarts passes hook runner.exit)
      (runner.runBeforeGlobals passes hook) := by
  refine (runner.supervise_watched passes hook runner.exit).followed ?_
  rintro ⟨error | ⟨state, exit⟩, next⟩ hbroken
  · cases hbroken
  · rcases state with _ | (⟨value⟩ | suspension | message | _)
    · cases hbroken
    · simp only at hbroken
      split at hbroken <;> cases hbroken
    all_goals cases hbroken

theorem runEntry_watched (runner : Runner) (passes : Nat) (entry : ScriptFunction) :
    Watched (runner.superviseStarts passes entry runner.exit)
      (runner.runEntry passes entry) := by
  refine (runner.supervise_watched passes entry runner.exit).followed ?_
  rintro ⟨error | ⟨state, exit⟩, next⟩ hbroken
  · cases hbroken
  · rcases state with _ | (⟨value⟩ | suspension | message | _)
    · cases hbroken
    · cases value <;> cases hbroken
    all_goals cases hbroken

theorem runMain_watched (runner : Runner) (passes : Nat) (diagnostics : Diagnostics)
    (source : String) (entry : ScriptFunction) :
    Watched (runner.mainStarts passes diagnostics entry)
      (runner.runMain passes diagnostics source entry) := by
  unfold mainStarts runMain
  cases runner.session.engine.initializeGlobals with
  | error error => exact .done _
  | ok engine =>
      simp only
      refine .bind (runEntry_watched _ passes entry) ?_
      rintro ⟨outcome, next⟩ -
      exact (next.runAtExit_watched passes).followed fun _ hbroken => by cases hbroken

/-- A run watches the clock in its turns alone. -/
theorem run_watched (runner : Runner) (passes : Nat) (diagnostics : Diagnostics)
    (source : String) :
    Watched (runner.starts passes diagnostics) (runner.run passes diagnostics source) := by
  unfold starts run
  cases entryPoints.findSome? runner.find? with
  | none => exact .done _
  | some entry =>
      cases runner.find? beforeGlobals with
      | none => exact runner.runMain_watched passes diagnostics source entry
      | some hook =>
          refine .bind ((runner.enter .preGlobals).runBeforeGlobals_watched passes hook) ?_
          rintro ⟨error | (_ | outcome), next⟩ -
          · exact .done _
          · exact next.runMain_watched passes diagnostics source entry
          · exact .done _

/-- A run breaks off at the clock if and only if one of its turns ends with a sleep whose
deadline lies beyond the end of the clock; this turn is the last one.  Without such a turn
it comes to its end, or it takes more passes than it was given. -/
theorem run_eq_clockOverflow_iff (runner : Runner) (passes : Nat) (diagnostics : Diagnostics)
    (source : String) :
    (runner.run passes diagnostics source = .error .clockOverflow ↔
        ∃ start ∈ runner.starts passes diagnostics, start.Oversleeps) ∧
      (∀ start ∈ (runner.starts passes diagnostics).dropLast, ¬start.Oversleeps) ∧
      ((∀ start ∈ runner.starts passes diagnostics, ¬start.Oversleeps) →
        runner.run passes diagnostics source = .error .outOfPasses ∨
          ∃ result, runner.run passes diagnostics source = .ok result) := by
  have hwatched := runner.run_watched passes diagnostics source
  refine ⟨hwatched.eq_clockOverflow_iff, hwatched.dropLast, fun hstarts => ?_⟩
  cases hrun : runner.run passes diagnostics source with
  | ok result => exact .inr ⟨result, rfl⟩
  | error interruption =>
      cases interruption with
      | outOfPasses => exact .inl rfl
      | clockOverflow =>
          obtain ⟨start, hstart, hoversleeps⟩ := hwatched.eq_clockOverflow_iff.mp hrun
          exact (hstarts start hstart hoversleeps).elim

/-- A program in which one context sleeps while another one asks for the end. -/
def napProgram (span : Duration) : Program :=
  .ofFunctions true
    [("int main()", [.spawn "void nap()", .yield, .exit 7]), ("void nap()", [.sleep span])]

def napping (span : Duration) : Runner where
  session := .ofEngine { program := napProgram span } false
  clock := .ticking 1000

/-- The longest span that a program can name. -/
def longestSpan : Duration :=
  ⟨18446744073709551615, 999999999, by decide⟩

/-- An engine loads the program with the longest span, and its run breaks off.  With an
hour in place of that span the run ends before the sleeper wakes up. -/
theorem run_eq_clockOverflow_napping :
    (({} : Engine).loadFrom (napProgram longestSpan).encode).1.1 = .ok true ∧
      (napping longestSpan).run 10 {} "main.script" = .error .clockOverflow ∧
      (∃ start ∈ (napping longestSpan).starts 10 {}, start.Oversleeps) ∧
      ∃ rest after, (napping ⟨3600, 0, by decide⟩).run 10 {} "main.script" =
        .ok ((.ok ⟨.aborted, 7⟩, rest), after) := by
  have hload : (({} : Engine).loadFrom (napProgram longestSpan).encode).1.1 = .ok true := by
    decide +kernel
  have hbroken : (napping longestSpan).run 10 {} "main.script" = .error .clockOverflow := by
    have htested : (match (napping longestSpan).run 10 {} "main.script" with
        | .error interruption => decide (interruption = .clockOverflow)
        | .ok _ => false) = true := by decide +kernel
    split at htested
    · rename_i hrun
      rw [hrun, of_decide_eq_true htested]
    · cases htested
  obtain ⟨⟨⟨result, rest⟩, after⟩, hrun, hresult⟩ := exists_eq_ok_of_any
    ((napping ⟨3600, 0, by decide⟩).run 10 {} "main.script")
    (fun result => result.1.1.toOption = some ⟨.aborted, 7⟩) (by decide +kernel)
  cases result with
  | error error => cases of_decide_eq_true hresult
  | ok outcome =>
      obtain rfl : outcome = ⟨.aborted, 7⟩ := Option.some.inj (of_decide_eq_true hresult)
      exact ⟨hload, hbroken, (run_eq_clockOverflow_iff _ 10 {} _).1.mp hbroken, rest, after, hrun⟩

end Runner
end ScriptBundle
