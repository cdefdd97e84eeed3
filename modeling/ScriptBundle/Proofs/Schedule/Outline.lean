import ScriptBundle.Schedule.Supervisor

/-!
# What line cues leave out

An outline of a function on its way forgets the line cues, the steps taken and the
line of the last cue.  A turn depends on no more than the outline, so two programs
with the same outlines take the same turns.
-/

namespace ScriptBundle

/-- The steps without the line cues. -/
def withoutCues (steps : List Step) : List Step :=
  steps.filter fun step => !Program.isCue step

theorem withoutCues_idem (steps : List Step) :
    withoutCues (withoutCues steps) = withoutCues steps := by
  simp only [withoutCues, List.filter_filter, Bool.and_self]

/-- A declaration and the steps to come, without the line cues. -/
abbrev Outline := String × List Step

def ScriptFunction.outline (function : ScriptFunction) : Outline :=
  (function.declaration, withoutCues function.steps)

def Running.outline (running : Running) : Outline :=
  (running.declaration, withoutCues running.rest)

def Context.outline (context : Context) : Option Outline :=
  context.running.map (·.outline)

/-- What a turn does to others, apart from line cues and call stacks. -/
structure EffectsOutline where
  spawned : List Outline
  signalled : List EventId
  exit : Option Int32
  journal : List String

def Effects.outline (effects : Effects) : EffectsOutline where
  spawned := effects.spawned.map (·.outline)
  signalled := effects.signalled
  exit := effects.exit
  journal := effects.journal

def Turn.outline (turn : Turn) : Outline × EffectsOutline × ExecutionState :=
  (turn.running.outline, turn.effects.outline, turn.state)

/-- Earlier effects that change the outlines alike. -/
theorem Turn.after_outline {left right : Turn} {earlier earlier' : Effects → Effects}
    (change : EffectsOutline → EffectsOutline)
    (hearlier : ∀ effects, (earlier effects).outline = change effects.outline)
    (hearlier' : ∀ effects, (earlier' effects).outline = change effects.outline)
    (houtline : left.outline = right.outline) :
    (left.after earlier).outline = (right.after earlier').outline := by
  simp only [Turn.outline, Prod.mk.injEq] at houtline
  obtain ⟨hrunning, heffects, hstate⟩ := houtline
  simp only [Turn.outline, Turn.after, hearlier, hearlier', hrunning, heffects, hstate]

namespace Program

/-- The two programs differ in line cues at most. -/
def Alike (left right : Program) : Prop :=
  ∀ declaration,
    (left.find? declaration).map (·.outline) = (right.find? declaration).map (·.outline)

theorem Alike.refl (program : Program) : program.Alike program :=
  fun _ => rfl

theorem lookup_map (functions : List (String × List Step)) (change : List Step → List Step)
    (declaration : String) :
    (functions.map fun entry => (entry.1, change entry.2)).lookup declaration =
      (functions.lookup declaration).map change := by
  induction functions with
  | nil => rfl
  | cons entry functions ih =>
      rw [List.map_cons, List.lookup_cons, List.lookup_cons]
      split
      · rfl
      · exact ih

theorem alike_stripped (program : Program) : program.Alike program.stripped := by
  intro declaration
  have hlookup := lookup_map program.functions withoutCues declaration
  change _ = Option.map _ (Option.map _ (List.lookup declaration
    (program.functions.map fun entry => (entry.1, withoutCues entry.2))))
  rw [hlookup, find?, Option.map_map, Option.map_map, Option.map_map]
  refine congrArg (Option.map · _) (funext fun steps => ?_)
  simp only [Function.comp_apply, ScriptFunction.outline, withoutCues_idem]

end Program

/-- A turn takes the same way with and without line cues. -/
theorem runSteps_outline {left right : Program} (halike : left.Alike right)
    (declaration : String) (rest : List Step) (taken taken' : Nat) (line line' : UInt32) :
    (runSteps left declaration rest taken line).outline =
      (runSteps right declaration (withoutCues rest) taken' line').outline := by
  induction rest generalizing taken taken' line line' with
  | nil => rfl
  | cons step rest ih =>
      -- Both sides stop here: what is to come has the same outline already.
      have hrest : withoutCues rest = withoutCues (withoutCues rest) :=
        (withoutCues_idem rest).symm
      cases step with
      | line number => exact ih (taken + 1) taken' number line'
      | signal event =>
          exact Turn.after_outline
            (fun effects => { effects with signalled := event :: effects.signalled })
            (fun _ => rfl) (fun _ => rfl) (ih (taken + 1) (taken' + 1) line line')
      | log text =>
          exact Turn.after_outline
            (fun effects => { effects with journal := text :: effects.journal })
            (fun _ => rfl) (fun _ => rfl) (ih (taken + 1) (taken' + 1) line line')
      | spawn target =>
          have htarget := halike target
          change _ = (runSteps right declaration (.spawn target :: withoutCues rest) taken'
            line').outline
          rw [runSteps, runSteps]
          cases hleft : left.find? target with
          | none =>
              rw [hleft] at htarget
              rw [Option.map_eq_none_iff.mp htarget.symm]
              simp only [Turn.outline, Turn.raise, Running.outline, ← hrest]
              rfl
          | some function =>
              rw [hleft] at htarget
              obtain ⟨function', hright, houtline⟩ := Option.map_eq_some_iff.mp htarget.symm
              rw [hright]
              exact Turn.after_outline
                (fun effects => { effects with spawned := function.outline :: effects.spawned })
                (fun _ => rfl)
                (fun effects => by simp only [Effects.outline, List.map_cons, houtline])
                (ih (taken + 1) (taken' + 1) line line')
      | yield | sleep | wait | exit | raise | exitThenRaise | finish =>
          exact congrArg (fun steps => ((declaration, steps), _, _)) hrest

theorem runSteps_alike {left right : Program} (halike : left.Alike right)
    {running running' : Running} (houtline : running.outline = running'.outline) :
    (runSteps left running.declaration running.rest running.taken running.line).outline =
      (runSteps right running'.declaration running'.rest running'.taken running'.line).outline := by
  obtain ⟨hdeclaration, hrest⟩ := Prod.mk.inj houtline
  rw [hdeclaration]
  calc (runSteps left running'.declaration running.rest running.taken running.line).outline
    _ = (runSteps right running'.declaration (withoutCues running.rest) 0 0).outline :=
        runSteps_outline halike _ _ _ _ _ _
    _ = (runSteps right running'.declaration (withoutCues running'.rest) 0 0).outline := by
        rw [hrest]
    _ = (runSteps right running'.declaration running'.rest running'.taken
          running'.line).outline :=
        (runSteps_outline (Program.Alike.refl right) _ _ _ _ _ _).symm

theorem Context.observed_outline (context : Context) (effects : Effects) :
    (context.observed effects).outline = effects.outline := by
  unfold observed
  split
  · rfl
  · split <;> rfl

/-- Contexts with the same outline take the same turn. -/
theorem Context.resume_alike {program program' : Program} (halike : program.Alike program')
    {left right : Context} (houtline : left.outline = right.outline) :
    (left.resume program).1.outline = (right.resume program').1.outline ∧
      (left.resume program).2.1.outline = (right.resume program').2.1.outline ∧
        (left.resume program).2.2 = (right.resume program').2.2 := by
  unfold resume
  cases hleft : left.running with
  | none =>
      have hright : right.running = none := by
        rw [outline, hleft] at houtline
        exact Option.map_eq_none_iff.mp houtline.symm
      simp only [hright]
      refine ⟨houtline, ?_, trivial⟩
      rw [observed_outline, observed_outline]
  | some running =>
      rw [outline, hleft] at houtline
      obtain ⟨running', hright, hrunning⟩ := Option.map_eq_some_iff.mp houtline.symm
      have hturn := runSteps_alike halike hrunning.symm
      simp only [Turn.outline, Prod.mk.injEq] at hturn
      obtain ⟨hafter, heffects, hstate⟩ := hturn
      simp only [hright]
      refine ⟨congrArg some hafter, ?_, hstate⟩
      rw [observed_outline, observed_outline, heffects]

theorem Context.isPrepared_of_outline {left right : Context}
    (houtline : left.outline = right.outline) : left.isPrepared = right.isPrepared := by
  have hsome := congrArg Option.isSome houtline
  rw [outline, outline, Option.isSome_map, Option.isSome_map] at hsome
  exact hsome

end ScriptBundle
