import ScriptBundle.Proofs.Schedule.Anonymity

/-!
# Runs that recycle in different ways

Contexts that were used before are as good as new ones.  A run gives the same outcome, shows
the same to the user and leaves the same behind, whether contexts are used again or not, and
in whichever order they went back to the pool.
-/

namespace ScriptBundle

/-- A runner without the idle contexts and without the counts of contexts made. -/
def Runner.withoutPool (runner : Runner) : Runner :=
  { runner with session := runner.session.withoutPool }

/-- The runners are the same but for their pools, which are tidy. -/
structure Runner.Interchangeable (hooks : Hooks) (left right : Runner) : Prop where
  tidyLeft : left.session.Tidy hooks
  tidyRight : right.session.Tidy hooks
  same : left.withoutPool = right.withoutPool

/-- A step of two runs gives the same and leaves the runners the same but for their pools. -/
def Runner.EndsSame {α : Type} (hooks : Hooks) (first second : α × Runner) : Prop :=
  first.1 = second.1 ∧ Interchangeable hooks first.2 second.2

namespace Runner.Interchangeable

variable {hooks : Hooks} {left right : Runner}

/-- What changes the runners alike and leaves their pools tidy keeps them the same. -/
theorem update (hsame : Interchangeable hooks left right) (change : Runner → Runner)
    (hchange : ∀ runner, (change runner).withoutPool = change runner.withoutPool)
    (htidy : ∀ runner : Runner, runner.session.Tidy hooks → (change runner).session.Tidy hooks) :
    Interchangeable hooks (change left) (change right) where
  tidyLeft := htidy left hsame.tidyLeft
  tidyRight := htidy right hsame.tidyRight
  same := by rw [hchange, hchange, hsame.same]

theorem enter (hsame : Interchangeable hooks left right) (state : RunState) :
    Interchangeable hooks (left.enter state) (right.enter state) :=
  hsame.update (Runner.enter · state) (fun _ => rfl) fun _ htidy => htidy

theorem present (hsame : Interchangeable hooks left right) (shown : Presented) :
    Interchangeable hooks (left.present shown) (right.present shown) :=
  hsame.update (Runner.present · shown) (fun _ => rfl) fun _ htidy => htidy

theorem setExit (hsame : Interchangeable hooks left right) (exit : ExitRequest) :
    Interchangeable hooks { left with exit } { right with exit } :=
  hsame.update (fun runner => { runner with exit }) (fun _ => rfl) fun _ htidy => htidy

theorem drain (hsame : Interchangeable hooks left right) :
    Interchangeable hooks left.drain right.drain :=
  hsame.update Runner.drain (fun _ => rfl) fun _ htidy => htidy.drain

theorem takeCallStack (hsame : Interchangeable hooks left right) :
    Interchangeable hooks left.takeCallStack.2 right.takeCallStack.2 :=
  hsame.update (·.takeCallStack.2) (fun _ => rfl) fun _ htidy => ⟨htidy.installed, htidy.idle⟩

/-- An exception is shown alike, and copied alike. -/
theorem showException (hsame : Interchangeable hooks left right) (message : String) :
    let shown (runner : Runner) : Runner :=
      let (callStack, runner) := runner.takeCallStack
      let info := exceptionInfo message callStack
      let shown := runner.present (.exception info)
      if runner.wantsCopy then shown.present (.clipboard info) else shown
    Interchangeable hooks (shown left) (shown right) := by
  apply hsame.update
  · intro runner
    simp only
    rw [show runner.withoutPool.takeCallStack.2.wantsCopy = runner.takeCallStack.2.wantsCopy from
      rfl]
    split <;> rfl
  · intro runner htidy
    simp only
    split <;> exact ⟨htidy.installed, htidy.idle⟩

theorem find? (hsame : Interchangeable hooks left right) : left.find? = right.find? :=
  (congrArg Runner.find? hsame.same :)

theorem presentReport (hsame : Interchangeable hooks left right) (diagnostics : Diagnostics) :
    (left.presentReport diagnostics).2 = (right.presentReport diagnostics).2 ∧
      Interchangeable hooks (left.presentReport diagnostics).1
        (right.presentReport diagnostics).1 := by
  have hwarnings : left.showsWarnings = right.showsWarnings :=
    (congrArg Runner.showsWarnings hsame.same :)
  unfold Runner.presentReport
  rw [hwarnings]
  split
  · exact ⟨rfl, hsame⟩
  · exact ⟨rfl, hsame.present _⟩

/-- The globals are initialised alike. -/
theorem initializeGlobals (hsame : Interchangeable hooks left right) :
    Matches
      (fun engine engine' =>
        Interchangeable hooks { left with session := { left.session with engine } }
          { right with session := { right.session with engine := engine' } })
      left.session.engine.initializeGlobals right.session.engine.initializeGlobals := by
  have hfailure : left.session.engine.globalsFailure = right.session.engine.globalsFailure :=
    (congrArg (·.session.engine.globalsFailure) hsame.same :)
  unfold Engine.initializeGlobals
  rw [hfailure]
  split
  · rfl
  · exact hsame.update (fun runner =>
      { runner with session :=
        { runner.session with engine := runner.session.engine.log "globals" } })
      (fun _ => rfl) fun _ htidy => ⟨htidy.installed, htidy.idle⟩

end Runner.Interchangeable

namespace Recycling

open Runner

variable (first second : Recycling) {hooks : Hooks} {left right : Runner}

theorem supervise_same (hsame : Interchangeable hooks left right) (passes : Nat)
    (function : ScriptFunction) (exit : ExitRequest) :
    Matches (EndsSame hooks) (first.supervise left passes function exit)
      (second.supervise right passes function exit) := by
  have hcreated : Supervisor.Interchangeable hooks
      (.create left.session left.clock exit left.idlePoll)
      (.create right.session right.clock exit right.idlePoll) :=
    ⟨.create hsame.tidyLeft _ _ _, .create hsame.tidyRight _ _ _,
      (congrArg (fun runner : Runner =>
        Supervisor.create runner.session runner.clock exit runner.idlePoll) hsame.same :)⟩
  have hclosed : ∀ {last last' : Supervisor} {clock clock' : Clock}, clock = clock' →
      Supervisor.Interchangeable hooks last last' →
        Interchangeable hooks { left with session := first.close last, clock }
          { right with session := second.close last', clock := clock' } := by
    rintro last last' clock clock' rfl hlast
    refine ⟨first.close_tidy hlast.tidyLeft, second.close_tidy hlast.tidyRight, ?_⟩
    have hsession : last.session.withoutPool = last'.session.withoutPool :=
      (congrArg Supervisor.session hlast.same :)
    have hrunner := congrArg (fun runner : Runner =>
      { runner with session := last'.session.withoutPool, clock }) hsame.same
    simp only [withoutPool, close_withoutPool, hsession] at hrunner ⊢
    exact hrunner
  obtain ⟨hid, hadded⟩ := add_interchangeable first second hcreated function true
  have hclock : left.clock = right.clock := (congrArg Runner.clock hsame.same :)
  unfold supervise
  simp only
  generalize first.add (.create left.session left.clock exit left.idlePoll) function true =
    added at hid hadded ⊢
  generalize second.add (.create right.session right.clock exit right.idlePoll) function true =
    added' at hid hadded ⊢
  obtain ⟨outcome, supervisor⟩ := added
  obtain ⟨outcome', supervisor'⟩ := added'
  obtain rfl : outcome = outcome' := hid
  cases outcome with
  | error error => exact ⟨rfl, hclosed hclock hadded⟩
  | ok id =>
      rcases (run_interchangeable first second hadded passes).cases with
        ⟨interruption, hrun, hrun'⟩ | ⟨last, last', hrun, hrun', hlast⟩
      · simp only [hrun, hrun']
        rfl
      · simp only [hrun, hrun']
        refine ⟨?_, hclosed (congrArg Supervisor.clock hlast.same :) hlast⟩
        simp only [hlast.state? id, hlast.exit]

theorem runBeforeGlobals_same (hsame : Interchangeable hooks left right) (passes : Nat)
    (hook : ScriptFunction) :
    Matches (EndsSame hooks) (first.runBeforeGlobals left passes hook)
      (second.runBeforeGlobals right passes hook) := by
  have hexit : left.exit = right.exit := (congrArg Runner.exit hsame.same :)
  unfold runBeforeGlobals
  rw [hexit]
  apply (supervise_same first second hsame passes hook right.exit).bind
  rintro ⟨result, next⟩ ⟨result', next'⟩ ⟨hresult, hnext⟩
  obtain rfl : result = result' := hresult
  cases result with
  | error error => exact ⟨rfl, hnext⟩
  | ok ended =>
      obtain ⟨state, exit⟩ := ended
      have hset := hnext.setExit exit
      cases state with
      | none => exact ⟨rfl, hset.enter .halted⟩
      | some state =>
          cases state with
          | finished value =>
              simp only
              split
              · exact ⟨rfl, hset⟩
              · exact ⟨rfl, hset.enter .halted⟩
          | exception message => exact ⟨rfl, hset.takeCallStack.enter .halted⟩
          | aborted => exact ⟨rfl, hset.enter .aborted⟩
          | suspended suspension => exact ⟨rfl, hset.enter .halted⟩

theorem runEntry_same (hsame : Interchangeable hooks left right) (passes : Nat)
    (entry : ScriptFunction) :
    Matches (EndsSame hooks) (first.runEntry left passes entry)
      (second.runEntry right passes entry) := by
  have hexit : left.exit = right.exit := (congrArg Runner.exit hsame.same :)
  unfold runEntry
  rw [hexit]
  apply (supervise_same first second hsame passes entry right.exit).bind
  rintro ⟨result, next⟩ ⟨result', next'⟩ ⟨hresult, hnext⟩
  obtain rfl : result = result' := hresult
  cases result with
  | error error => exact ⟨rfl, hnext⟩
  | ok ended =>
      obtain ⟨state, exit⟩ := ended
      have hset := hnext.setExit exit
      cases state with
      | none => exact ⟨rfl, (hset.present .terminated).enter .terminated⟩
      | some state =>
          cases state with
          | finished value => cases value <;> exact ⟨rfl, hset.enter .finished⟩
          | exception message =>
              exact ⟨rfl, (hset.showException message).enter .excepted⟩
          | aborted => exact ⟨rfl, hset.enter .aborted⟩
          | suspended suspension => exact ⟨rfl, (hset.present .terminated).enter .terminated⟩

theorem runAtExit_same (hsame : Interchangeable hooks left right) (passes : Nat) :
    Matches (Interchangeable hooks) (first.runAtExit left passes)
      (second.runAtExit right passes) := by
  unfold runAtExit
  rw [hsame.find?]
  cases right.find? atExit with
  | none => exact hsame
  | some hook =>
      exact (supervise_same first second hsame passes hook {}).bind fun _ _ hends => hends.2

theorem runMain_same (hsame : Interchangeable hooks left right) (passes : Nat)
    (diagnostics : Diagnostics) (source : String) (entry : ScriptFunction) :
    Matches (EndsSame hooks) (first.runMain left passes diagnostics source entry)
      (second.runMain right passes diagnostics source entry) := by
  unfold runMain
  rcases hsame.initializeGlobals.cases with
    ⟨error, hglobals, hglobals'⟩ | ⟨engine, engine', hglobals, hglobals', hinitialized⟩
  · rw [hglobals, hglobals']
    exact ⟨rfl, hsame.drain⟩
  · rw [hglobals, hglobals']
    obtain ⟨hreported, hshown⟩ :=
      (hinitialized.enter .globalsInitialized).presentReport diagnostics
    simp only
    rw [hreported]
    apply (runEntry_same first second (hshown.enter .running) passes entry).bind
    rintro ⟨outcome, next⟩ ⟨outcome', next'⟩ ⟨houtcome, hnext⟩
    obtain rfl : outcome = outcome' := houtcome
    exact (runAtExit_same first second hnext passes).bind fun last last' hlast => ⟨rfl, hlast.drain⟩

/-- Runs that recycle in different ways are interrupted together or end the same. -/
theorem runProgram_same (hsame : Interchangeable hooks left right) (passes : Nat)
    (diagnostics : Diagnostics) (source : String) :
    Matches (EndsSame hooks) (first.runProgram left passes diagnostics source)
      (second.runProgram right passes diagnostics source) := by
  unfold runProgram
  rw [hsame.find?]
  cases entryPoints.findSome? right.find? with
  | none => exact ⟨rfl, hsame⟩
  | some entry =>
      simp only
      cases right.find? beforeGlobals with
      | none => exact runMain_same first second hsame passes diagnostics source entry
      | some hook =>
          apply (runBeforeGlobals_same first second (hsame.enter .preGlobals) passes hook).bind
          rintro ⟨result, next⟩ ⟨result', next'⟩ ⟨hresult, hnext⟩
          obtain rfl : result = result' := hresult
          cases result with
          | error error => exact ⟨rfl, hnext⟩
          | ok ended =>
              cases ended with
              | some outcome => exact ⟨rfl, hnext.drain⟩
              | none => exact runMain_same first second hnext passes diagnostics source entry

/-- Recycling cannot be observed: whichever idle contexts a run uses again, and in whichever
order its supervisors give contexts back, it ends like a run in which every context that is
needed is made. -/
theorem runProgram_unobserved {runner : Runner} (htidy : runner.session.Tidy hooks)
    (recycling : Recycling) (passes : Nat) (diagnostics : Diagnostics) (source : String) :
    Matches (fun first second => first.1 = second.1 ∧ first.2.withoutPool = second.2.withoutPool)
        (recycling.runProgram runner passes diagnostics source)
        (fresh.runProgram runner passes diagnostics source) ∧
      usual.runProgram runner passes diagnostics source =
        runner.run passes diagnostics source := by
  refine ⟨?_, usual_runProgram runner passes diagnostics source⟩
  have hsame : Interchangeable hooks runner runner := ⟨htidy, htidy, rfl⟩
  rcases (runProgram_same recycling fresh hsame passes diagnostics source).cases with
    ⟨interruption, hrun, hrun'⟩ | ⟨ended, ended', hrun, hrun', hresult, hends⟩
  · rw [hrun, hrun']
    rfl
  · rw [hrun, hrun']
    exact ⟨hresult, hends.same⟩

/-- All idle contexts are used again; those that came to an end are given back last. -/
def reversed : Recycling :=
  { usual with
    order := fun supervisor =>
      supervisor.active.map (·.context) ++ supervisor.results.filterMap (·.context)
    order_perm := fun _ => .refl _ }

/-- A runner whose entry point returns while another context waits, so that two contexts go
back to the pool before the hook at exit takes one of them. -/
def waitingAtReturn : Runner where
  session := .ofEngine
    { program := .ofFunctions true
        [("int main()", [.spawn "void waiter()", .yield, .log "main", .finish (.int 3)]),
          ("void waiter()", [.wait 1]), ("void on_exit()", [.log "exit"])] }
    false
  clock := .ticking 1000

theorem runProgram_unobserved_reversed :
    ∃ result after after',
      reversed.runProgram waitingAtReturn 10 {} "main.script" = .ok (result, after) ∧
      fresh.runProgram waitingAtReturn 10 {} "main.script" = .ok (result, after') ∧
      after.withoutPool = after'.withoutPool ∧ result.1.toOption = some ⟨.finished, 3⟩ ∧
      after.session.engine.journal = ["globals", "main", "exit"] ∧
      after.session.pool.created = 2 ∧ after'.session.pool.created = 3 := by
  obtain ⟨⟨result, after⟩, hrun, hafter⟩ := exists_eq_ok_of_any
    (reversed.runProgram waitingAtReturn 10 {} "main.script")
    (fun ended => ended.1.1.toOption = some ⟨.finished, 3⟩ ∧
      ended.2.session.engine.journal = ["globals", "main", "exit"] ∧
      ended.2.session.pool.created = 2)
    (by decide +kernel)
  obtain ⟨⟨result', after'⟩, hrun', hafter'⟩ := exists_eq_ok_of_any
    (fresh.runProgram waitingAtReturn 10 {} "main.script")
    (fun ended => ended.2.session.pool.created = 3) (by decide +kernel)
  have htidy : waitingAtReturn.session.Tidy ⟨false⟩ := Session.Tidy.ofEngine _ _
  obtain ⟨hmatches, -⟩ := runProgram_unobserved htidy reversed 10 {} "main.script"
  rw [hrun, hrun'] at hmatches
  obtain ⟨rfl, hsame⟩ : result = result' ∧ after.withoutPool = after'.withoutPool := hmatches
  obtain ⟨hresult, hjournal, hcreated⟩ := of_decide_eq_true hafter
  exact ⟨result, after, after', hrun, hrun', hsame, hresult, hjournal, hcreated,
    of_decide_eq_true hafter'⟩

end Recycling

/-- A run leaves its pool tidy. -/
theorem Runner.run_tidy {hooks : Hooks} {runner after : Runner} {passes : Nat}
    {diagnostics : Diagnostics} {source : String}
    {result : Except RunError RunOutcome × Diagnostics} (htidy : runner.session.Tidy hooks)
    (hrun : runner.run passes diagnostics source = .ok (result, after)) :
    after.session.Tidy hooks := by
  have hsame : Interchangeable hooks runner runner := ⟨htidy, htidy, rfl⟩
  have hends := Recycling.runProgram_same .usual .usual hsame passes
    diagnostics source
  rw [Recycling.usual_runProgram, hrun] at hends
  exact hends.2.tidyLeft

end ScriptBundle
