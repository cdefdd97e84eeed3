import ScriptBundle.Engine.Error
import ScriptBundle.Script.Program

/-!
# Contexts

A context runs one function, in turns.  A turn ends when the function finishes,
suspends itself, raises an exception or asks for the end of the program.  What a
turn does to the world around the context is listed in its effects.
-/

namespace ScriptBundle

/-- Why a context stops without having finished. -/
inductive Suspension where
  | yield
  | sleep (duration : Duration)
  | wait (event : EventId)
  deriving DecidableEq

/-- How a turn ends. -/
inductive ExecutionState where
  | finished (value : ReturnValue)
  | suspended (suspension : Suspension)
  | exception (message : String)
  | aborted
  deriving DecidableEq

namespace ExecutionState

/-- Whether the context is done. -/
def isTerminal : ExecutionState → Bool
  | .suspended _ => false
  | _ => true

end ExecutionState

/-- What a turn asks for and leaves behind. -/
structure Effects where
  /-- Functions to start on contexts of their own. -/
  spawned : List ScriptFunction := []
  signalled : List EventId := []
  /-- The exit code, if the end of the program was asked for. -/
  exit : Option Int32 := none
  journal : List String := []
  /-- The line cues that were passed, with their function. -/
  lines : List (String × UInt32) := []
  /-- The call stack at an exception. -/
  callStack : Option String := none
  deriving DecidableEq

/-- A function on its way. -/
structure Running where
  declaration : String
  /-- The steps still to come. -/
  rest : List Step
  /-- The number of steps taken. -/
  taken : Nat
  /-- The line of the last cue. -/
  line : UInt32
  deriving DecidableEq

namespace Running

def start (function : ScriptFunction) : Running :=
  { declaration := function.declaration, rest := function.steps, taken := 0, line := 0 }

/-- The position in words. -/
def callStack (running : Running) : String :=
  running.declaration ++ s!" (line {running.line}, step {running.taken})"

end Running

/-- The end of a turn. -/
structure Turn where
  running : Running
  effects : Effects
  state : ExecutionState
  deriving DecidableEq

namespace Turn

/-- A turn that ends at once. -/
def stop (running : Running) (state : ExecutionState) : Turn :=
  { running, effects := {}, state }

/-- A turn that ends with an exception. -/
def raise (running : Running) (message : String) : Turn :=
  { running, effects := { callStack := some running.callStack }, state := .exception message }

/-- A turn with an earlier effect. -/
def after (turn : Turn) (earlier : Effects → Effects) : Turn :=
  { turn with effects := earlier turn.effects }

end Turn

/-- The wording of an exception for a function that does not exist. -/
def missingFunctionMessage (declaration : String) : String :=
  "No function matching '" ++ declaration ++ "'"

/-- Takes steps up to the end of a turn. -/
def runSteps (program : Program) (declaration : String) :
    (rest : List Step) → (taken : Nat) → (line : UInt32) → Turn
  | [], taken, line => .stop ⟨declaration, [], taken, line⟩ (.finished .void)
  | step :: rest, taken, line =>
      let here : Running := ⟨declaration, rest, taken + 1, line⟩
      match step with
      | .yield => .stop here (.suspended .yield)
      | .sleep duration => .stop here (.suspended (.sleep duration))
      | .wait event => .stop here (.suspended (.wait event))
      | .signal event =>
          (runSteps program declaration rest (taken + 1) line).after fun effects =>
            { effects with signalled := event :: effects.signalled }
      | .spawn target =>
          match program.find? target with
          | some function =>
              (runSteps program declaration rest (taken + 1) line).after fun effects =>
                { effects with spawned := function :: effects.spawned }
          | none => .raise here (missingFunctionMessage target)
      | .exit code =>
          (Turn.stop here .aborted).after fun effects => { effects with exit := some code }
      | .raise message => .raise here message
      | .exitThenRaise code message =>
          (Turn.raise here message).after fun effects => { effects with exit := some code }
      | .line number =>
          (runSteps program declaration rest (taken + 1) number).after fun effects =>
            { effects with lines := (declaration, number) :: effects.lines }
      | .log text =>
          (runSteps program declaration rest (taken + 1) line).after fun effects =>
            { effects with journal := text :: effects.journal }
      | .finish value => .stop here (.finished value)

/-- What is told about the turns of a context. -/
structure Hooks where
  /-- Whether line cues are passed on. -/
  lines : Bool
  deriving DecidableEq, Repr, Inhabited

structure Context where
  /-- The place of the context in the order in which its engine made them. -/
  id : Nat
  /-- Call stacks of exceptions are recorded once there are hooks. -/
  hooks : Option Hooks
  running : Option Running
  deriving DecidableEq

namespace Context

/-- Whether a function is bound to the context. -/
def isPrepared (context : Context) : Bool :=
  context.running.isSome

/-- Binds a function to a context that has none. -/
def prepare (context : Context) (function : ScriptFunction) : Except EngineError Context :=
  if context.isPrepared then .error (.contextBound context.id)
  else .ok { context with running := some (.start function) }

/-- Releases the function. -/
def unprepare (context : Context) : Context :=
  { context with running := none }

def callStack (context : Context) : String :=
  match context.running with
  | some running => running.callStack
  | none => ""

/-- The effects that the hooks let through. -/
def observed (context : Context) (effects : Effects) : Effects :=
  match context.hooks with
  | none => { effects with lines := [], callStack := none }
  | some hooks => if hooks.lines then effects else { effects with lines := [] }

/-- Runs the context for one turn. -/
def resume (program : Program) (context : Context) : Context × Effects × ExecutionState :=
  match context.running with
  | none =>
      (context, context.observed { callStack := some "" },
        .exception "context resumed without a function")
  | some running =>
      let turn := runSteps program running.declaration running.rest running.taken running.line
      ({ context with running := some turn.running }, context.observed turn.effects, turn.state)

end Context

end ScriptBundle
