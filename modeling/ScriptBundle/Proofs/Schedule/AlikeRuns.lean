import ScriptBundle.Proofs.Schedule.Alike
import ScriptBundle.Schedule.Runner

/-!
# Runs that differ in line cues

Two runners that are alike end their runs with the same outcome, whatever is shown
to the user on the way.
-/

namespace ScriptBundle.Runner

/-- The runners agree up to line cues and what is shown. -/
structure Alike (earlier : List String) (left right : Runner) : Prop where
  session : left.session.Alike earlier right.session
  clock : left.clock = right.clock
  exit : left.exit = right.exit
  idlePoll : left.idlePoll = right.idlePoll

variable {earlier : List String} {left right : Runner}

theorem find?_alike (halike : Alike earlier left right) (declaration : String) :
    (left.find? declaration).map (·.outline) = (right.find? declaration).map (·.outline) :=
  halike.session.program declaration

/-- A step of two runs gives the same, or fails on both sides, and leaves the
runners alike. -/
def Ends {ε α : Type} (earlier : List String) (first second : Except ε α × Runner) : Prop :=
  first.1.toOption = second.1.toOption ∧ Alike earlier first.2 second.2

theorem Ends.cases {ε α : Type} {first second : Except ε α × Runner}
    (hends : Ends earlier first second) :
    (∃ error error' next next', first = (.error error, next) ∧ second = (.error error', next') ∧
        Alike earlier next next') ∨
      ∃ value next next', first = (.ok value, next) ∧ second = (.ok value, next') ∧
        Alike earlier next next' := by
  obtain ⟨result, next⟩ := first
  obtain ⟨result', next'⟩ := second
  obtain ⟨hresult, hnext⟩ := hends
  cases result with
  | error error =>
      cases result' with
      | error error' => exact .inl ⟨error, error', next, next', rfl, rfl, hnext⟩
      | ok value' => cases hresult
  | ok value =>
      cases result' with
      | error error' => cases hresult
      | ok value' =>
          obtain rfl := Option.some.inj hresult
          exact .inr ⟨value, next, next', rfl, rfl, hnext⟩

theorem supervise_alike (halike : Alike earlier left right) (passes : Nat)
    {function function' : ScriptFunction} (hfunction : function.outline = function'.outline)
    (exit : ExitRequest) :
    Matches (Ends earlier) (left.supervise passes function exit)
      (right.supervise passes function' exit) := by
  have hcreated := Supervisor.create_alike halike.session left.clock exit left.idlePoll
  obtain ⟨hid, hadded⟩ := Supervisor.add_alike hcreated hfunction true
  unfold supervise
  simp only
  rw [← halike.clock, ← halike.idlePoll]
  generalize (Supervisor.create left.session left.clock exit left.idlePoll).add function true =
    first at hid hadded ⊢
  generalize (Supervisor.create right.session left.clock exit left.idlePoll).add function' true =
    second at hid hadded ⊢
  obtain ⟨outcome, supervisor⟩ := first
  obtain ⟨outcome', supervisor'⟩ := second
  cases outcome with
  | error error =>
      cases outcome' with
      | error error' =>
          exact ⟨rfl, { halike with
            session := Supervisor.close_alike hadded, clock := rfl, idlePoll := rfl }⟩
      | ok id' => cases hid
  | ok id =>
      cases outcome' with
      | error error' => cases hid
      | ok id' =>
          obtain rfl := Option.some.inj hid
          rcases (Supervisor.run_alike hadded passes).cases with
            ⟨interruption, hfirst, hsecond⟩ | ⟨last, last', hfirst, hsecond, hlast⟩
          · simp only [hfirst, hsecond]
            rfl
          · simp only [hfirst, hsecond]
            refine ⟨?_, { halike with
              session := Supervisor.close_alike hlast, clock := hlast.clock, idlePoll := rfl }⟩
            simp only [Except.toOption, Supervisor.state?_alike hlast, hlast.exit]

theorem takeCallStack_alike (halike : Alike earlier left right) :
    Alike earlier left.takeCallStack.2 right.takeCallStack.2 := by
  obtain ⟨hprogram, hglobals, hjournal, hfree⟩ := halike.session
  exact { halike with session := ⟨hprogram, hglobals, hjournal, hfree⟩ }

theorem enter_alike (halike : Alike earlier left right) (state : RunState) :
    Alike earlier (left.enter state) (right.enter state) :=
  { halike with }

/-- What has been shown does not matter. -/
theorem presented_alike (halike : Alike earlier left right) (shown shown' : List Presented) :
    Alike earlier { left with presented := shown } { right with presented := shown' } :=
  { halike with }

theorem drain_alike (halike : Alike earlier left right) :
    Alike earlier left.drain right.drain := by
  obtain ⟨hprogram, hglobals, hjournal, -⟩ := halike.session
  exact { halike with session := ⟨hprogram, hglobals, hjournal, rfl⟩ }

theorem runBeforeGlobals_alike (halike : Alike earlier left right) (passes : Nat)
    {hook hook' : ScriptFunction} (hhook : hook.outline = hook'.outline) :
    Matches (Ends earlier) (left.runBeforeGlobals passes hook)
      (right.runBeforeGlobals passes hook') := by
  unfold runBeforeGlobals
  rw [← halike.exit]
  apply (supervise_alike halike passes hhook left.exit).bind
  intro first second hends
  rcases hends.cases with
    ⟨error, error', next, next', rfl, rfl, hnext⟩ | ⟨⟨state, exit⟩, next, next', rfl, rfl, hnext⟩
  · exact ⟨rfl, hnext⟩
  have hexit : Alike earlier { next with exit } { next' with exit } := { hnext with exit := rfl }
  cases state with
  | none => exact ⟨rfl, enter_alike hexit .halted⟩
  | some state =>
      cases state with
      | finished value =>
          simp only
          split
          · exact ⟨rfl, hexit⟩
          · exact ⟨rfl, enter_alike hexit .halted⟩
      | exception message => exact ⟨rfl, enter_alike (takeCallStack_alike hexit) .halted⟩
      | aborted => exact ⟨rfl, enter_alike hexit .aborted⟩
      | suspended suspension => exact ⟨rfl, enter_alike hexit .halted⟩

theorem runEntry_alike (halike : Alike earlier left right) (passes : Nat)
    {entry entry' : ScriptFunction} (hentry : entry.outline = entry'.outline) :
    Matches (Ends earlier) (left.runEntry passes entry) (right.runEntry passes entry') := by
  unfold runEntry
  rw [← halike.exit]
  apply (supervise_alike halike passes hentry left.exit).bind
  intro first second hends
  rcases hends.cases with
    ⟨error, error', next, next', rfl, rfl, hnext⟩ | ⟨⟨state, exit⟩, next, next', rfl, rfl, hnext⟩
  · exact ⟨rfl, hnext⟩
  have hexit : Alike earlier { next with exit } { next' with exit } := { hnext with exit := rfl }
  cases state with
  | none => exact ⟨rfl, enter_alike (presented_alike hexit _ _) .terminated⟩
  | some state =>
      cases state with
      | finished value => cases value <;> exact ⟨rfl, enter_alike hexit .finished⟩
      | exception message =>
          refine ⟨rfl, enter_alike ?_ .excepted⟩
          -- The user may ask for a copy on either side.
          have htaken := takeCallStack_alike hexit
          split <;> split
          · exact presented_alike htaken _ _
          · exact presented_alike htaken _ _
          · exact presented_alike htaken _ _
          · exact presented_alike htaken _ _
      | aborted => exact ⟨rfl, enter_alike hexit .aborted⟩
      | suspended suspension =>
          exact ⟨rfl, enter_alike (presented_alike hexit _ _) .terminated⟩

theorem runAtExit_alike (halike : Alike earlier left right) (passes : Nat) :
    Matches (Alike earlier) (left.runAtExit passes) (right.runAtExit passes) := by
  have hfound := find?_alike halike atExit
  unfold runAtExit
  cases hleft : left.find? atExit with
  | none =>
      rw [hleft] at hfound
      rw [Option.map_eq_none_iff.mp hfound.symm]
      exact halike
  | some hook =>
      rw [hleft] at hfound
      obtain ⟨hook', hright, hhook⟩ := Option.map_eq_some_iff.mp hfound.symm
      rw [hright]
      exact (supervise_alike halike passes hhook.symm {}).bind fun _ _ hends => hends.2

theorem presentReport_alike (halike : Alike earlier left right)
    (diagnostics diagnostics' : Diagnostics) :
    Alike earlier (left.presentReport diagnostics).1 (right.presentReport diagnostics').1 := by
  unfold presentReport
  split <;> split
  · exact halike
  · exact presented_alike halike _ _
  · exact presented_alike halike _ _
  · exact presented_alike halike _ _

/-- The runs end alike, whatever was diagnosed. -/
def RunsAlike (earlier : List String)
    (first second : (Except RunError RunOutcome × Diagnostics) × Runner) : Prop :=
  Ends earlier (first.1.1, first.2) (second.1.1, second.2)

theorem runMain_alike (halike : Alike earlier left right) (passes : Nat)
    (diagnostics diagnostics' : Diagnostics) (source source' : String)
    {entry entry' : ScriptFunction} (hentry : entry.outline = entry'.outline) :
    Matches (RunsAlike earlier) (left.runMain passes diagnostics source entry)
      (right.runMain passes diagnostics' source' entry') := by
  obtain ⟨hprogram, ⟨hglobals, hglobals'⟩, hjournal, hfree⟩ := halike.session
  have hinitialized : Session.Alike earlier
      { left.session with engine := left.session.engine.log "globals" }
      { right.session with engine := right.session.engine.log "globals" } := by
    refine ⟨hprogram, ⟨hglobals, hglobals'⟩, ?_, hfree⟩
    simp only [Engine.log, hjournal, List.append_assoc]
  have hentered : Alike earlier
      { left with
        session := { left.session with engine := left.session.engine.log "globals" }
        state := .globalsInitialized }
      { right with
        session := { right.session with engine := right.session.engine.log "globals" }
        state := .globalsInitialized } :=
    { halike with session := hinitialized }
  unfold runMain Engine.initializeGlobals
  rw [hglobals, hglobals']
  have hshown := presentReport_alike hentered diagnostics diagnostics'
  apply (runEntry_alike (enter_alike hshown .running) passes hentry).bind
  rintro ⟨outcome, next⟩ ⟨outcome', next'⟩ ⟨houtcome, hnext⟩
  exact (runAtExit_alike hnext passes).bind fun last last' hlast =>
    ⟨houtcome, drain_alike hlast⟩

theorem findSome?_alike (halike : Alike earlier left right) (declarations : List String) :
    (declarations.findSome? left.find?).map (·.outline) =
      (declarations.findSome? right.find?).map (·.outline) := by
  induction declarations with
  | nil => rfl
  | cons declaration declarations ih =>
      have hfound := find?_alike halike declaration
      rw [List.findSome?_cons, List.findSome?_cons]
      cases hleft : left.find? declaration with
      | none =>
          rw [hleft] at hfound
          rw [Option.map_eq_none_iff.mp hfound.symm]
          exact ih
      | some function =>
          rw [hleft] at hfound
          obtain ⟨function', hright, hfunction⟩ := Option.map_eq_some_iff.mp hfound.symm
          rw [hright]
          exact congrArg some hfunction.symm

/-- Alike runners are interrupted together or end alike. -/
theorem run_alike (halike : Alike earlier left right) (passes : Nat)
    (diagnostics diagnostics' : Diagnostics) (source source' : String) :
    Matches (RunsAlike earlier) (left.run passes diagnostics source)
      (right.run passes diagnostics' source') := by
  have hfound := findSome?_alike halike entryPoints
  have hhooked := find?_alike halike beforeGlobals
  unfold run
  cases hleft : entryPoints.findSome? left.find? with
  | none =>
      rw [hleft] at hfound
      rw [Option.map_eq_none_iff.mp hfound.symm]
      exact ⟨rfl, halike⟩
  | some entry =>
      rw [hleft] at hfound
      obtain ⟨entry', hright, hentry⟩ := Option.map_eq_some_iff.mp hfound.symm
      rw [hright]
      cases hhook : left.find? beforeGlobals with
      | none =>
          rw [hhook] at hhooked
          simp only [Option.map_eq_none_iff.mp hhooked.symm]
          exact runMain_alike halike passes _ _ _ _ hentry.symm
      | some hook =>
          rw [hhook] at hhooked
          obtain ⟨hook', hhook', houtline⟩ := Option.map_eq_some_iff.mp hhooked.symm
          simp only [hhook']
          apply (runBeforeGlobals_alike (enter_alike halike .preGlobals) passes
            houtline.symm).bind
          intro first second hends
          rcases hends.cases with
            ⟨error, error', next, next', rfl, rfl, hnext⟩ | ⟨ended, next, next', rfl, rfl, hnext⟩
          · exact ⟨rfl, hnext⟩
          · cases ended with
            | some outcome => exact ⟨rfl, drain_alike hnext⟩
            | none => exact runMain_alike hnext passes _ _ _ _ hentry.symm

end ScriptBundle.Runner
