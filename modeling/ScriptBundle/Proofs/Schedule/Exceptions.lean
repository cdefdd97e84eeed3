import ScriptBundle.Proofs.Schedule.BeforeGlobals
import ScriptBundle.Proofs.Schedule.Cancellation
import ScriptBundle.Proofs.Schedule.Tidiness

/-!
# Exceptions and their call stacks

The exceptions of a run are listed in the order in which they are raised, each with the call
stack of its context at that moment.  The message of an unhandled exception is kept with the
entry point's context, but its call stack is kept in the one place that all contexts share.
So the user sees the message of the entry point with the call stack of the last exception
that any context raised.
-/

namespace ScriptBundle

open Ledger

/-- An exception, with the call stack of its context when it was raised. -/
structure Raised where
  id : ContextId
  message : String
  callStack : String
  deriving DecidableEq

def ExecutionState.message? : ExecutionState → Option String
  | .exception message => some message
  | _ => none

/-- The exception at the end of a turn. -/
def TurnStart.raised? (start : TurnStart) : Option Raised :=
  let (context, _, state) :=
    start.task.context.resume start.supervisor.session.engine.program
  state.message?.map fun message => ⟨start.task.id, message, context.callStack⟩

/-- The messages of the exceptions that one context raised. -/
def messagesOf (id : ContextId) (raised : List Raised) : List String :=
  (raised.filter (·.id = id)).map (·.message)

theorem messagesOf_append (id : ContextId) (first second : List Raised) :
    messagesOf id (first ++ second) = messagesOf id first ++ messagesOf id second := by
  simp only [messagesOf, List.filter_append, List.map_append]

/-- Where a context raised one exception, the others are those of other contexts. -/
theorem messagesOf_eq_singleton {id : ContextId} {raised : List Raised} {message : String}
    (hmessages : messagesOf id raised = [message]) :
    ∃ earlier own later, raised = earlier ++ ⟨id, message, own⟩ :: later ∧
      ∀ other ∈ earlier ++ later, other.id ≠ id := by
  obtain ⟨exception, hfilter, rfl⟩ := List.map_eq_singleton_iff.mp hmessages
  obtain ⟨earlier, later, rfl, hearlier, hid, hlater⟩ := List.filter_eq_cons_iff.mp hfilter
  obtain ⟨id', message, own⟩ := exception
  obtain rfl := of_decide_eq_true hid
  refine ⟨earlier, own, later, rfl, fun other hother => ?_⟩
  rcases List.mem_append.mp hother with hmem | hmem
  · simpa using hearlier other hmem
  · simpa using List.filter_eq_nil_iff.mp hlater other hmem

/-- Records the call stacks of some exceptions, one after the other. -/
def ExceptionSlot.recordAll (slot : ExceptionSlot) (raised : List Raised) : ExceptionSlot :=
  raised.foldl (fun slot exception => slot.record exception.callStack) slot

/-- The latest call stack is what remains. -/
theorem ExceptionSlot.recordAll_callStack (slot : ExceptionSlot) (raised : List Raised) :
    (slot.recordAll raised).callStack =
      (raised.getLast?.map (·.callStack)).getD slot.callStack := by
  induction raised generalizing slot with
  | nil => rfl
  | cons exception raised ih =>
      rw [recordAll, List.foldl_cons]
      rw [← recordAll, ih, List.getLast?_cons]
      cases raised.getLast? <;> rfl

/-! ## Turns -/

/-- A turn records a call stack just when it ends with an exception, and it is the one of the
position where it ends. -/
theorem runSteps_callStack (program : Program) (declaration : String) (rest : List Step)
    (taken : Nat) (line : UInt32) :
    (runSteps program declaration rest taken line).effects.callStack =
      (runSteps program declaration rest taken line).state.message?.map fun _ =>
        (runSteps program declaration rest taken line).running.callStack := by
  induction rest generalizing taken line with
  | nil => rfl
  | cons step rest ih =>
      cases step with
      | signal | line | log => exact ih (taken + 1) _
      | spawn target =>
          rw [runSteps]
          cases program.find? target with
          | none => rfl
          | some function => exact ih (taken + 1) line
      | yield | sleep | wait | exit | raise | exitThenRaise | finish => rfl

theorem Context.observed_callStack {context : Context} (hhooks : context.hooks.isSome)
    (effects : Effects) : (context.observed effects).callStack = effects.callStack := by
  obtain ⟨hooks, hhooks⟩ := Option.isSome_iff_exists.mp hhooks
  simp only [observed, hhooks]
  split <;> rfl

theorem Context.resume_callStack {context : Context} (hhooks : context.hooks.isSome)
    (program : Program) :
    (context.resume program).2.1.callStack =
      (context.resume program).2.2.message?.map fun _ => (context.resume program).1.callStack := by
  cases hrunning : context.running with
  | none => simp only [resume, hrunning, observed_callStack hhooks, callStack]; rfl
  | some running =>
      simp only [resume, hrunning, observed_callStack hhooks, callStack]
      exact runSteps_callStack _ _ _ _ _

namespace Supervisor

/-- The exception that a context has ended with. -/
def messages (supervisor : Supervisor) (id : ContextId) : List String :=
  ((supervisor.state? id).bind ExecutionState.message?).toList

theorem add_frame (supervisor : Supervisor) (function : ScriptFunction) :
    ∃ session active ready nextId, (supervisor.add function false).2 =
        { supervisor with session, active, ready, nextId } ∧
      session.slot = supervisor.session.slot := by
  have hslot : supervisor.session.acquire.2.slot = supervisor.session.slot := rfl
  unfold add
  generalize supervisor.session.acquire = acquired at hslot ⊢
  obtain ⟨context, session⟩ := acquired
  simp only
  split
  · exact ⟨_, _, _, _, rfl, hslot⟩
  · exact ⟨_, _, _, _, rfl, hslot⟩

theorem spawn_frame (supervisor : Supervisor) (functions : List ScriptFunction) :
    ∃ session active ready nextId, supervisor.spawn functions =
        { supervisor with session, active, ready, nextId } ∧
      session.slot = supervisor.session.slot := by
  induction functions generalizing supervisor with
  | nil => exact ⟨_, _, _, _, rfl, rfl⟩
  | cons function functions ih =>
      obtain ⟨_, _, _, _, hadded, hslot⟩ := supervisor.add_frame function
      obtain ⟨session, active, ready, nextId, hspawned, hslot'⟩ :=
        ih (supervisor.add function false).2
      refine ⟨session, active, ready, nextId, ?_, ?_⟩
      · rw [spawn, List.foldl_cons, ← spawn, hspawned, hadded]
      · rw [hslot', hadded, hslot]

/-- What a turn asks for changes neither the results nor which contexts are retained. -/
theorem perform_frame (supervisor : Supervisor) (effects : Effects) :
    (supervisor.perform effects).results = supervisor.results ∧
      (supervisor.perform effects).retained = supervisor.retained ∧
      (supervisor.perform effects).session.slot = (supervisor.session.absorb effects).slot := by
  obtain ⟨_, _, _, _, hspawned, hslot⟩ := (supervisor.record effects).spawn_frame effects.spawned
  obtain ⟨_, _, _, hdelivered⟩ :=
    foldl_deliver_eq effects.signalled ((supervisor.record effects).spawn effects.spawned)
  rw [perform, hdelivered, hspawned]
  exact ⟨rfl, rfl, hslot⟩

theorem settle_frame {supervisor after : Supervisor} {task : Task} {state : ExecutionState}
    {now : Instant} (hsettle : supervisor.settle task state now = .ok after) :
    after.retained = supervisor.retained ∧ after.session.slot = supervisor.session.slot := by
  unfold settle at hsettle
  split at hsettle
  · obtain ⟨_, _, _, _, rfl⟩ := park_frame hsettle
    exact ⟨rfl, rfl⟩
  · cases hsettle
    obtain ⟨_, hconclude⟩ := supervisor.conclude_eq task.id .aborted none
    rw [hconclude]
    exact ⟨rfl, rfl⟩
  · split at hsettle
    · cases hsettle
      obtain ⟨_, hconclude⟩ := supervisor.conclude_eq task.id state (some task.context)
      rw [hconclude]
      exact ⟨rfl, rfl⟩
    · cases hsettle
      exact ⟨rfl, rfl⟩

/-- A turn that comes to an end decides the final state of its context, and of no other. -/
theorem settle_state? {supervisor after : Supervisor} {task : Task} {state : ExecutionState}
    {now : Instant} (hsettle : supervisor.settle task state now = .ok after)
    {id : ContextId} (hretained : id ∈ supervisor.retained) :
    after.state? id =
      if id = task.id ∧ state.isTerminal = true then some state else supervisor.state? id := by
  have hconclude : ∀ {terminal : ExecutionState} (context : Option Context),
      terminal.isTerminal = true → (supervisor.conclude task.id terminal context).state? id =
        if id = task.id ∧ terminal.isTerminal = true then some terminal
        else supervisor.state? id := by
    intro terminal context hterminal
    rw [@conclude_state? [] [] supervisor]
    simp [recording, ledger, hretained, hterminal]
  unfold settle at hsettle
  split at hsettle
  · obtain ⟨_, _, _, hresults⟩ := park_eq_ok hsettle
    rw [if_neg fun hboth => Bool.false_ne_true hboth.2, state?, state?, result?, result?, hresults]
    rfl
  · cases hsettle
    exact hconclude none rfl
  · rename_i hsuspended _
    have hterminal : state.isTerminal = true := by
      cases state with
      | suspended suspension => exact (hsuspended suspension rfl).elim
      | finished | exception | aborted => rfl
    split at hsettle
    · cases hsettle
      exact hconclude _ hterminal
    · rename_i hforgotten
      cases hsettle
      have hother : ¬(id = task.id ∧ state.isTerminal = true) := fun hboth =>
        hforgotten (hboth.1 ▸ hretained)
      rw [if_neg hother]
      rfl

/-- The exceptions raised between two moments account for the call stack that is kept and for
the retained contexts that have ended with an exception. -/
structure Tells (before : Supervisor) (raised : List Raised) (after : Supervisor) : Prop where
  slot : after.session.slot = before.session.slot.recordAll raised
  retained : before.retained ⊆ after.retained
  messages : ∀ id ∈ before.retained,
    after.messages id = before.messages id ++ messagesOf id raised

namespace Tells

variable {before middle after : Supervisor} {first second : List Raised}

/-- Nothing is raised where none of this changes. -/
theorem of_eq (hslot : after.session.slot = before.session.slot)
    (hretained : after.retained = before.retained) (hresults : after.results = before.results) :
    Tells before [] after where
  slot := hslot
  retained := hretained ▸ List.Subset.refl _
  messages id _ := by
    rw [messagesOf, List.filter_nil, List.map_nil, List.append_nil, Supervisor.messages,
      Supervisor.messages, state?, state?, result?, result?, hresults]

theorem trans (hleft : Tells before first middle) (hright : Tells middle second after) :
    Tells before (first ++ second) after where
  slot := by
    rw [hright.slot, hleft.slot]
    exact List.foldl_append.symm
  retained := List.Subset.trans hleft.retained hright.retained
  messages id hid := by
    rw [hright.messages id (hleft.retained hid), hleft.messages id hid, messagesOf_append,
      List.append_assoc]

end Tells

theorem turn_tells {supervisor next : Supervisor} {id : ContextId} {context : Context}
    {pending : List ContextId} (hbalanced : Balanced (supervisor.ledger (id :: pending) []))
    (hcontext : supervisor.context? id = some context) (hhooks : context.hooks.isSome)
    (hturn : (supervisor.remove id).turn { id, context } = .ok next) :
    Tells supervisor (TurnStart.raised? ⟨supervisor.remove id, { id, context }⟩).toList next := by
  have hrecorded := Context.resume_callStack hhooks supervisor.session.engine.program
  rcases hresume : context.resume supervisor.session.engine.program with ⟨ran, effects, state⟩
  rw [hresume] at hrecorded
  have hraised : TurnStart.raised? ⟨supervisor.remove id, { id, context }⟩ =
      state.message?.map fun message => ⟨id, message, ran.callStack⟩ := by
    rw [TurnStart.raised?]
    simp only [remove, hresume]
  rw [turn_eq hresume] at hturn
  obtain ⟨hresults, hretained, hslot⟩ :=
    (supervisor.remove id).readClock.2.perform_frame effects
  obtain ⟨hretained', hslot'⟩ := settle_frame hturn
  rw [hraised]
  constructor
  case slot =>
    rw [hslot', hslot, Session.absorb, hrecorded]
    cases state.message? <;> rfl
  case retained =>
    rw [hretained', hretained]
    exact List.Subset.refl _
  case messages =>
    intro other hother
    have hsame : (((supervisor.remove id).readClock.2.perform effects).state? other) =
        supervisor.state? other := by
      rw [state?, result?, hresults]
      rfl
    rw [messages, settle_state? hturn (hretained ▸ hother), hsame]
    by_cases hid : other = id
    · subst hid
      have hactive : other ∈ supervisor.activeIds := by
        rw [mem_activeIds_iff, hcontext]
        rfl
      have hnone : supervisor.state? other = none := hbalanced.present_final other hactive
      rw [messages, hnone]
      cases state with
      | exception message => simp [messagesOf, ExecutionState.message?, ExecutionState.isTerminal]
      | finished | suspended | aborted =>
          simp [messagesOf, ExecutionState.message?, ExecutionState.isTerminal]
    · have hnone : messagesOf other (state.message?.map fun message =>
          (⟨id, message, ran.callStack⟩ : Raised)).toList = [] := by
        cases state.message? with
        | none => rfl
        | some message => simp [messagesOf, Ne.symm hid]
      rw [if_neg fun hboth => hid hboth.1, hnone, List.append_nil, messages]

/-! ## Passes -/

/-- The exceptions that end some turns. -/
def raisedIn (starts : List TurnStart) : List Raised :=
  starts.flatMap fun start => start.raised?.toList

/-- The turns that are given in a run. -/
def runStarts : (passes : Nat) → Supervisor → List TurnStart
  | 0, _ => []
  | passes + 1, supervisor =>
      supervisor.passStarts undisturbed ++
        match supervisor.pass with
        | .ok (true, next) => next.runStarts passes
        | _ => []

/-- The exceptions that are raised in a run. -/
def raised (passes : Nat) (supervisor : Supervisor) : List Raised :=
  raisedIn (supervisor.runStarts passes)

/-- The end of all contexts raises nothing. -/
theorem abortAll_tells {supervisor : Supervisor} {pending : List ContextId}
    (hbalanced : Balanced (supervisor.ledger pending [])) :
    Tells supervisor [] supervisor.abortAll := by
  obtain ⟨results, habort, -⟩ := foldl_conclude [] [] supervisor.active
    { supervisor with active := [], ready := [], sleeping := [], waiting := [] }
  constructor
  case slot =>
    rw [abortAll, habort]
    rfl
  case retained =>
    rw [abortAll, habort]
    exact List.Subset.refl _
  case messages =>
    intro id hid
    rw [messages, abortAll_retained hbalanced hid, messages]
    cases supervisor.state? id with
    | none => rfl
    | some state => exact (List.append_nil _).symm

variable {hooks : Hooks} {supervisor after : Supervisor} {more : Bool}

theorem runQueue_tells {ids : List ContextId} (htidy : supervisor.Tidy hooks)
    (hbalanced : Balanced (supervisor.ledger ids []))
    (hrun : supervisor.runQueue ids = .ok (more, after)) :
    Tells supervisor (raisedIn (supervisor.queueStarts undisturbed ids)) after := by
  induction ids generalizing supervisor with
  | nil =>
      cases hrun
      exact .of_eq rfl rfl rfl
  | cons id remaining ih =>
      have hactive : id ∈ supervisor.activeIds := hbalanced.queued.subset List.mem_cons_self
      obtain ⟨context, hcontext⟩ :=
        Option.isSome_iff_exists.mp ((supervisor.mem_activeIds_iff id).mp hactive)
      have hhooks := htidy.context? hcontext
      rw [runQueue, hcontext] at hrun
      rw [queueStarts, hcontext]
      simp only [turnAmid_undisturbed]
      cases hturn : (supervisor.remove id).turn { id, context } with
      | error interruption => simp [hturn] at hrun
      | ok next =>
          have hmoves : Moves (supervisor.ledger (id :: remaining) []) (next.ledger remaining []) :=
            turn_moves hturn
          have hnext := (hmoves.balanced_and_continues hbalanced).1
          have hturned := turn_tells hbalanced hcontext (hhooks ▸ rfl) hturn
          simp only [hturn] at hrun ⊢
          rw [raisedIn, List.flatMap_cons]
          split at hrun
          · rename_i hexit
            cases hrun
            rw [if_pos hexit]
            exact hturned.trans (abortAll_tells hnext)
          · rename_i hexit
            rw [if_neg hexit]
            exact hturned.trans
              (ih (Recycling.usual.turn_tidy (htidy.remove id) hhooks hturn) hnext hrun)

theorem pass_tells (htidy : supervisor.Tidy hooks)
    (hbalanced : Balanced (supervisor.ledger [] []))
    (hpass : supervisor.pass = .ok (more, after)) :
    Tells supervisor (raisedIn (supervisor.passStarts undisturbed)) after := by
  unfold pass at hpass
  unfold passStarts
  split at hpass
  · rename_i hexit
    cases hpass
    rw [if_pos hexit]
    exact abortAll_tells hbalanced
  · rename_i hexit
    rw [if_neg hexit]
    have hrefreshed : Tells supervisor [] { supervisor.refresh with ready := [] } := by
      obtain ⟨_, _, _, _, _, hrefresh⟩ := supervisor.refresh_eq
      rw [hrefresh]
      exact .of_eq rfl rfl rfl
    simp only at hpass
    split at hpass
    · rename_i hready
      have hafter := congrArg Prod.snd (Except.ok.inj hpass)
      change _ = after at hafter
      have hsame : Tells { supervisor.refresh with ready := [] } [] after := by
        split at hafter
        · exact hafter ▸ .of_eq rfl rfl rfl
        · obtain ⟨_, hidle⟩ := supervisor.refresh.idle_eq
          rw [← hafter, hidle]
          exact .of_eq rfl rfl rfl
      rw [hready]
      exact hrefreshed.trans hsame
    · have hmoves : Moves (supervisor.ledger [] [])
          (ledger { supervisor.refresh with ready := [] } supervisor.refresh.ready []) :=
        supervisor.refresh_moves.trans supervisor.refresh.takeReady_moves
      exact hrefreshed.trans (runQueue_tells htidy.refresh.takeReady
        (hmoves.balanced_and_continues hbalanced).1 hpass)

theorem run_tells {passes : Nat} (htidy : supervisor.Tidy hooks)
    (hbalanced : Balanced (supervisor.ledger [] []))
    (hrun : supervisor.run passes = .ok after) :
    Tells supervisor (supervisor.raised passes) after := by
  induction passes generalizing supervisor with
  | zero => cases hrun
  | succ passes ih =>
      rw [run] at hrun
      rw [raised, runStarts, raisedIn, List.flatMap_append]
      split at hrun
      · cases hrun
      · rename_i next hpass
        have htidy' : next.Tidy hooks := Recycling.usual.pass_tidy htidy
          ((Recycling.usual_pass supervisor).trans hpass)
        have hnext := ((pass_moves hbalanced hpass).balanced_and_continues hbalanced).1
        rw [hpass]
        exact (pass_tells htidy hbalanced hpass).trans (ih htidy' hnext hrun)
      · rename_i hpass
        cases hrun
        rw [hpass]
        exact (pass_tells htidy hbalanced hpass).trans (.of_eq rfl rfl rfl)

end Supervisor

/-! ## What the user sees -/

theorem Session.slot_foldl_release (contexts : List Context) (session : Session) :
    (contexts.foldl Session.release session).slot = session.slot := by
  induction contexts generalizing session with
  | nil => rfl
  | cons context contexts ih => exact ih (session.release context)

/-- The text of an exception that is shown. -/
def Presented.exception? : Presented → Option String
  | .exception info => some info
  | _ => none

/-- The call stacks of two texts for one message tell them apart. -/
theorem exceptionInfo_inj {message first second : String} :
    exceptionInfo message first = exceptionInfo message second ↔ first = second := by
  refine ⟨fun hinfo => ?_, fun hsame => hsame ▸ rfl⟩
  have hlonger : ∀ callStack : String,
      message ≠ message ++ "\r\ncall stack:\r\n" ++ callStack := by
    intro callStack hsame
    have hlength := congrArg String.length hsame
    rw [String.length_append, String.length_append] at hlength
    have hpositive : 0 < "\r\ncall stack:\r\n".length := by decide
    omega
  unfold exceptionInfo at hinfo
  split at hinfo <;> split at hinfo
  · simp [*]
  · exact (hlonger _ hinfo).elim
  · exact (hlonger _ hinfo.symm).elim
  · exact String.append_right_inj _ |>.mp hinfo

namespace Runner

/-- The exceptions that have been shown so far. -/
def exceptionsShown (runner : Runner) : List String :=
  runner.presented.filterMap Presented.exception?

theorem supervise_presented {runner next : Runner} {passes : Nat} {function : ScriptFunction}
    {exit : ExitRequest} {result : Except EngineError (Option ExecutionState × ExitRequest)}
    (hrun : runner.supervise passes function exit = .ok (result, next)) :
    next.presented = runner.presented := by
  unfold supervise at hrun
  simp only at hrun
  split at hrun
  · cases hrun
    rfl
  · split at hrun
    · cases hrun
    · cases hrun
      rfl

theorem runAtExit_presented {runner next : Runner} {passes : Nat}
    (hrun : runner.runAtExit passes = .ok next) : next.presented = runner.presented := by
  unfold runAtExit at hrun
  split at hrun
  · cases hrun
    rfl
  · obtain ⟨⟨result, after⟩, hsupervise, hdone⟩ := bind_eq_ok_iff.mp hrun
    cases hdone
    exact supervise_presented hsupervise

theorem presentReport_exceptionsShown (runner : Runner) (diagnostics : Diagnostics) :
    (runner.presentReport diagnostics).1.exceptionsShown = runner.exceptionsShown := by
  unfold presentReport
  split
  · rfl
  · simp [exceptionsShown, present, Presented.exception?]

/-- The hook before the globals shows nothing and leaves the pool tidy. -/
theorem runBeforeGlobals_leaves {hooks : Hooks} {runner next : Runner} {passes : Nat}
    {hook : ScriptFunction} {result : Except RunError (Option RunOutcome)}
    (htidy : runner.session.Tidy hooks)
    (hrun : runner.runBeforeGlobals passes hook = .ok (result, next)) :
    next.session.Tidy hooks ∧ next.presented = runner.presented := by
  unfold runBeforeGlobals at hrun
  obtain ⟨⟨supervised, before⟩, hsupervise, hrest⟩ := bind_eq_ok_iff.mp hrun
  have hpresented := supervise_presented hsupervise
  have htidy' : before.session.Tidy hooks := Recycling.usual.supervise_tidy htidy
    ((Recycling.usual_supervise runner passes hook runner.exit).trans hsupervise)
  have htaken : ∀ exit, (takeCallStack { before with exit }).2.session.Tidy hooks :=
    fun _ => ⟨htidy'.installed, htidy'.idle⟩
  cases supervised with
  | error error =>
      cases hrest
      exact ⟨htidy', hpresented⟩
  | ok ended =>
      obtain ⟨state, exit⟩ := ended
      cases state with
      | none =>
          cases hrest
          exact ⟨htidy', hpresented⟩
      | some state =>
          cases state with
          | finished value =>
              simp only at hrest
              split at hrest
              · cases hrest
                exact ⟨htidy', hpresented⟩
              · cases hrest
                exact ⟨htidy', hpresented⟩
          | exception message =>
              cases hrest
              exact ⟨htaken exit, hpresented⟩
          | suspended | aborted =>
              cases hrest
              exact ⟨htidy', hpresented⟩

theorem entryOutcome_excepted {exit : ExitRequest} {state : Option ExecutionState}
    (hexcepted : (entryOutcome exit state).state = .excepted) :
    ∃ message, state = some (.exception message) := by
  match state with
  | some (.exception message) => exact ⟨message, rfl⟩
  | some (.finished _) | some .aborted | some (.suspended _) | none => cases hexcepted

theorem hookOutcome_ne_excepted {exit : ExitRequest} {state : Option ExecutionState}
    {outcome : RunOutcome} (houtcome : hookOutcome exit state = some outcome) :
    outcome.state ≠ .excepted := by
  match state with
  | some (.finished value) =>
      simp only [hookOutcome] at houtcome
      split at houtcome
      · cases houtcome
      · cases houtcome
        exact RunState.noConfusion
  | some .aborted | some (.exception _) | some (.suspended _) | none =>
      cases houtcome
      exact RunState.noConfusion

/-- The entry point's message is shown with the call stack that is kept at the end. -/
theorem runEntry_excepted {runner after : Runner} {passes : Nat} {entry : ScriptFunction}
    {outcome : RunOutcome} (hrun : runner.runEntry passes entry = .ok (.ok outcome, after))
    (hexcepted : outcome.state = .excepted) :
    ∃ id supervisor last message,
      (Supervisor.create runner.session runner.clock runner.exit runner.idlePoll).add entry true =
          (.ok id, supervisor) ∧
        supervisor.run passes = .ok last ∧ last.state? id = some (.exception message) ∧
        after.exceptionsShown =
          runner.exceptionsShown ++ [exceptionInfo message last.session.slot.callStack] := by
  obtain ⟨id, supervisor, last, hadd, hlast, rfl⟩ := runEntry_eq_ok hrun
  obtain ⟨message, hstate⟩ := entryOutcome_excepted hexcepted
  refine ⟨id, supervisor, last, message, hadd, hlast, hstate, ?_⟩
  have hslot : last.close.slot = last.session.slot := Session.slot_foldl_release _ _
  rw [runEntry, supervise_eq hadd hlast, ok_bind, hstate] at hrun
  simp only [takeCallStack, ExceptionSlot.take, hslot] at hrun
  cases hrun
  simp only [enter, exceptionsShown]
  split
  · simp [present, Presented.exception?]
  · simp [present, Presented.exception?]

theorem runMain_excepted {hooks : Hooks} {runner after : Runner} {passes : Nat}
    {diagnostics rest : Diagnostics} {source : String} {entry : ScriptFunction}
    {outcome : RunOutcome} (htidy : runner.session.Tidy hooks)
    (hrun : runner.runMain passes diagnostics source entry = .ok ((.ok outcome, rest), after))
    (hexcepted : outcome.state = .excepted) :
    ∃ id supervisor last message, runner.mainSupervisor? entry = some (id, supervisor) ∧
      supervisor.Tidy hooks ∧ supervisor.run passes = .ok last ∧
      last.state? id = some (.exception message) ∧
      after.exceptionsShown =
        runner.exceptionsShown ++ [exceptionInfo message last.session.slot.callStack] := by
  unfold runMain at hrun
  unfold mainSupervisor?
  cases hglobals : runner.session.engine.initializeGlobals with
  | error error =>
      rw [hglobals] at hrun
      cases hrun
  | ok engine =>
      rw [hglobals] at hrun
      simp only at hrun
      let initialized : Runner :=
        { runner with session := { runner.session with engine } }.enter .globalsInitialized
      have hshown : (initialized.presentReport diagnostics).1.exceptionsShown =
          runner.exceptionsShown := presentReport_exceptionsShown initialized diagnostics
      obtain ⟨presented, hpresented⟩ := presentReport_eq initialized diagnostics
      obtain ⟨⟨result, next⟩, hentry, hrest⟩ := bind_eq_ok_iff.mp hrun
      obtain ⟨final, hexit, hdone⟩ := bind_eq_ok_iff.mp hrest
      cases hdone
      obtain ⟨id, supervisor, last, message, hadd, hlast, hstate, hinfo⟩ :=
        runEntry_excepted hentry hexcepted
      have hreported : (initialized.presentReport diagnostics).1.enter .running =
          { initialized with presented, state := .running } := congrArg (enter · _) hpresented
      have hfinal : final.presented = next.presented := runAtExit_presented hexit
      have hadd' : (Supervisor.create { runner.session with engine } runner.clock runner.exit
          runner.idlePoll).add entry true = (.ok id, supervisor) := by
        rw [hreported] at hadd
        exact hadd
      have hsupervisor : supervisor.Tidy hooks := by
        have hsession : Session.Tidy hooks { runner.session with engine } :=
          ⟨htidy.installed, htidy.idle⟩
        have hadded := (Supervisor.Tidy.create hsession runner.clock runner.exit
          runner.idlePoll).add entry true
        rw [hadd'] at hadded
        exact hadded
      refine ⟨id, supervisor, last, message, ?_, hsupervisor, hlast, hstate, ?_⟩
      · simp only [hadd']
      · calc final.drain.exceptionsShown
          _ = next.exceptionsShown := congrArg (List.filterMap _) hfinal
          _ = runner.exceptionsShown ++ [exceptionInfo message last.session.slot.callStack] :=
              hinfo.trans (congrArg (· ++ _) hshown)

/-- A run ends with an exception where its entry point does. -/
theorem run_excepted {hooks : Hooks} {runner after : Runner} {passes : Nat}
    {diagnostics rest : Diagnostics} {source : String} {outcome : RunOutcome}
    (htidy : runner.session.Tidy hooks)
    (hrun : runner.run passes diagnostics source = .ok ((.ok outcome, rest), after))
    (hexcepted : outcome.state = .excepted) :
    ∃ id supervisor last message, runner.entrySupervisor? passes = some (id, supervisor) ∧
      supervisor.Tidy hooks ∧ supervisor.run passes = .ok last ∧
      last.state? id = some (.exception message) ∧
      after.exceptionsShown =
        runner.exceptionsShown ++ [exceptionInfo message last.session.slot.callStack] := by
  unfold run at hrun
  unfold entrySupervisor?
  cases hfound : entryPoints.findSome? runner.find? with
  | none =>
      rw [hfound] at hrun
      cases hrun
  | some entry =>
      rw [hfound] at hrun
      cases hhook : runner.find? beforeGlobals with
      | none =>
          rw [hhook] at hrun
          exact runMain_excepted htidy hrun hexcepted
      | some hook =>
          rw [hhook] at hrun
          obtain ⟨⟨result, next⟩, hresult, hrest⟩ := bind_eq_ok_iff.mp hrun
          have htidy' : (runner.enter .preGlobals).session.Tidy hooks := htidy
          obtain ⟨hleft, hpresented⟩ := runBeforeGlobals_leaves htidy' hresult
          have hshown : next.exceptionsShown = runner.exceptionsShown :=
            congrArg (List.filterMap _) hpresented
          simp only [hresult]
          cases result with
          | error error => cases hrest
          | ok ended =>
              cases ended with
              | none =>
                  rw [← hshown]
                  exact runMain_excepted hleft hrest hexcepted
              | some early =>
                  obtain ⟨exit, state, hearly⟩ := runBeforeGlobals_eq_ok hresult
                  cases hrest
                  exact (hookOutcome_ne_excepted hearly.symm hexcepted).elim

/-- The user sees the message of the entry point's exception with the call stack of the last
exception of the run.  This is the entry point's own call stack, unless some other context
raised an exception after it; then it is so just if that context stood at the same place. -/
theorem run_exceptionShown {hooks : Hooks} {runner after : Runner} {passes : Nat}
    {diagnostics rest : Diagnostics} {source : String} {outcome : RunOutcome}
    (htidy : runner.session.Tidy hooks)
    (hrun : runner.run passes diagnostics source = .ok ((.ok outcome, rest), after))
    (hexcepted : outcome.state = .excepted) :
    ∃ id supervisor last message own earlier later info,
      runner.entrySupervisor? passes = some (id, supervisor) ∧
      supervisor.run passes = .ok last ∧ last.state? id = some (.exception message) ∧
      supervisor.raised passes = earlier ++ ⟨id, message, own⟩ :: later ∧
      (∀ other ∈ earlier ++ later, other.id ≠ id) ∧
      info = exceptionInfo message ((later.getLast?.map (·.callStack)).getD own) ∧
      after.exceptionsShown = runner.exceptionsShown ++ [info] ∧
      (info = exceptionInfo message own ↔ ∀ other ∈ later.getLast?, other.callStack = own) := by
  obtain ⟨id, supervisor, last, message, hentry, hsupervisor, hlast, hstate, hshown⟩ :=
    run_excepted htidy hrun hexcepted
  obtain ⟨hbalanced, hretained⟩ := entrySupervisor?_balanced hentry
  have htells := Supervisor.run_tells hsupervisor hbalanced hlast
  have hnone : supervisor.messages id = [] := by
    obtain ⟨_, _, _, _, _, hadd⟩ := entrySupervisor?_eq_some hentry
    obtain ⟨-, hactive, -⟩ := Supervisor.create_add_eq hadd
    have hunfinished : supervisor.state? id = none := hbalanced.present_final id hactive
    rw [Supervisor.messages, hunfinished]
    rfl
  have hmessages : messagesOf id (supervisor.raised passes) = [message] := by
    have htold := htells.messages id hretained
    rw [hnone, List.nil_append, Supervisor.messages, hstate] at htold
    exact htold.symm
  obtain ⟨earlier, own, later, hraised, hothers⟩ := messagesOf_eq_singleton hmessages
  refine ⟨id, supervisor, last, message, own, earlier, later, _, hentry, hlast, hstate, hraised,
    hothers, rfl, ?_, ?_⟩
  · have hlatest : (earlier ++ ⟨id, message, own⟩ :: later).getLast?.map (·.callStack) =
        some ((later.getLast?.map (·.callStack)).getD own) := by
      rw [List.getLast?_append, List.getLast?_cons]
      cases later.getLast? <;> rfl
    rw [hshown, htells.slot, ExceptionSlot.recordAll_callStack, hraised, hlatest,
      Option.getD_some]
  · rw [exceptionInfo_inj]
    cases later.getLast? <;> simp

/-- A runner whose entry point raises an exception before a context that it spawned does. -/
def overtakenException : Runner where
  session := .ofEngine
    { program := .ofFunctions true
        [("int main()", [.spawn "void child()", .raise "main failed"]),
          ("void child()", [.raise "child failed"])] }
    false
  clock := .ticking 1000

theorem run_exceptionShown_overtaken :
    ∃ outcome rest after id supervisor last message own earlier later info,
      overtakenException.run 10 {} "main.script" = .ok ((.ok outcome, rest), after) ∧
      outcome.state = .excepted ∧
      overtakenException.entrySupervisor? 10 = some (id, supervisor) ∧
      supervisor.run 10 = .ok last ∧ last.state? id = some (.exception message) ∧
      supervisor.raised 10 = earlier ++ ⟨id, message, own⟩ :: later ∧
      own = "int main() (line 0, step 2)" ∧ after.exceptionsShown = [info] ∧
      info = "main failed\r\ncall stack:\r\nvoid child() (line 0, step 1)" ∧
      info ≠ exceptionInfo message own := by
  obtain ⟨⟨⟨result, rest⟩, after⟩, hrun, hresult⟩ := exists_eq_ok_of_any
    (overtakenException.run 10 {} "main.script")
    (fun result => result.1.1.toOption.any (·.state = .excepted)) (by decide +kernel)
  cases result with
  | error error => cases hresult
  | ok outcome =>
      have hexcepted : outcome.state = .excepted := of_decide_eq_true hresult
      obtain ⟨id, supervisor, last, message, own, earlier, later, info, hentry, hlast, hstate,
        hraised, hothers, hinfo, hshown, howner⟩ :=
          run_exceptionShown (Session.Tidy.ofEngine _ _) hrun hexcepted
      have hevents : (overtakenException.entrySupervisor? 10).all (fun entry =>
          entry.1 = 1 ∧ entry.2.raised 10 =
            [⟨1, "main failed", "int main() (line 0, step 2)"⟩,
              ⟨2, "child failed", "void child() (line 0, step 1)"⟩]) = true := by
        decide +kernel
      rw [hentry] at hevents
      obtain ⟨rfl, hevents⟩ := of_decide_eq_true hevents
      rw [hevents] at hraised
      refine ⟨outcome, rest, after, 1, supervisor, last, message, own, earlier, later, info, hrun,
        hexcepted, hentry, hlast, hstate, hevents.trans hraised, ?_⟩
      -- The entry point's exception is the first of the two.
      cases earlier with
      | cons first earlier =>
          cases earlier with
          | nil => simp at hraised
          | cons second earlier => simp at hraised
      | nil =>
          simp only [List.nil_append, List.cons.injEq, Raised.mk.injEq, true_and] at hraised
          obtain ⟨⟨rfl, rfl⟩, rfl⟩ := hraised
          refine ⟨rfl, hshown, hinfo, fun hsame => ?_⟩
          exact absurd (howner.mp hsame _ rfl) (by decide)

end Runner

end ScriptBundle
