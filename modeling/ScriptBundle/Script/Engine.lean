import ScriptBundle.Engine.PropertyStore
import ScriptBundle.Script.Loading

/-!
# The script engine

An engine holds a program, its properties and a journal.  It counts the contexts
it has made.
-/

namespace ScriptBundle

structure Engine where
  program : Program := .empty true
  properties : PropertyStore := .fresh EngineProperty.slotCount
  /-- Why the initialisation of globals fails, if it does. -/
  globalsFailure : Option String := none
  journal : List String := []
  contextsCreated : Nat := 0
  deriving Inhabited

namespace Engine

/-- Adds a line to the journal. -/
def log (engine : Engine) (text : String) : Engine :=
  { engine with journal := engine.journal ++ [text] }

/-- Initialises the global variables. -/
def initializeGlobals (engine : Engine) : Except EngineError Engine :=
  match engine.globalsFailure with
  | some reason => .error (.globals reason)
  | none => .ok (engine.log "globals")

/-- Where and why an engine refuses a program.  The offset is the engine's own
count of the bytes it was given. -/
structure Rejection where
  offset : Nat
  reason : LoadFault
  deriving DecidableEq, Repr

/-- Loads the program at the front of a stream and gives back the rest of the
stream.  The outcome tells whether the program carries debug information; a
refused program leaves the engine as it was. -/
def loadFrom {σ : Type} [ByteStream σ] (engine : Engine) (stream : σ) :
    (Except Rejection Bool × Engine) × σ :=
  match Loader.program.runOn (.start stream) with
  | (.ok program, last) => ((.ok program.debug, { engine with program }), last.inner)
  | (.error reason, last) => ((.error ⟨last.offset, reason⟩, engine), last.inner)

/-- Loads the program at the front of some bytes, and gives back those that are
left. -/
def load (engine : Engine) (bytes : Bytes) : (Except LoadFault Bool × Engine) × Bytes :=
  let ((outcome, engine), rest) := engine.loadFrom bytes
  ((outcome.mapError (·.reason), engine), rest)

end Engine

/-- Something that an artifact can be built from. -/
inductive ProgramSource where
  /-- Bytecode of an external compiler, taken as it is. -/
  | compiled (bytecode : Bytes)
  /-- The program of a script engine. -/
  | script (program : Program)

namespace ProgramSource

/-- The bytes that the source saves, without its debug information if `strip`. -/
def bytecode (source : ProgramSource) (strip : Bool) : Bytes :=
  match source with
  | .compiled bytecode => bytecode
  | .script program => (if strip then program.stripped else program).encode

/-- Saves into a stream that accepts at most `limit` bytes. -/
def saveWithin (source : ProgramSource) (limit : Nat) (strip : Bool) : Except EngineError Bytes :=
  let saved := source.bytecode strip
  if saved.length ≤ limit then .ok saved else .error (.shortStream limit saved.length)

end ProgramSource

end ScriptBundle
