import ScriptBundle.Script.Context
import ScriptBundle.Script.Engine

/-!
# The pool of contexts

Contexts that are done go to a free list and are used again, the latest one
first.  Hooks are installed when a context is made and stay.
-/

namespace ScriptBundle

structure ContextPool where
  /-- The idle contexts, the most recently released first. -/
  free : List Context := []
  hooks : Hooks := ⟨false⟩
  /-- The number of contexts made for this pool. -/
  created : Nat := 0
  deriving DecidableEq, Inhabited

namespace ContextPool

def idle (pool : ContextPool) : Nat :=
  pool.free.length

/-- Takes the most recently released context. -/
def reuse? (pool : ContextPool) : Option (Context × ContextPool) :=
  match pool.free with
  | [] => none
  | context :: free => some (context, { pool with free })

/-- Makes a context and installs the hooks. -/
def create (pool : ContextPool) (engine : Engine) : Context × ContextPool × Engine :=
  ({ id := engine.contextsCreated, hooks := some pool.hooks, running := none },
    { pool with created := pool.created + 1 },
    { engine with contextsCreated := engine.contextsCreated + 1 })

/-- An idle context, or a new one if there is none. -/
def acquire (pool : ContextPool) (engine : Engine) : Context × ContextPool × Engine :=
  match pool.reuse? with
  | some (context, pool) => (context, pool, engine)
  | none => pool.create engine

/-- Puts a context back without the function it ran. -/
def release (pool : ContextPool) (context : Context) : ContextPool :=
  { pool with free := context.unprepare :: pool.free }

/-- Drops the idle contexts. -/
def drain (pool : ContextPool) : ContextPool :=
  { pool with free := [] }

/-- A short description. -/
def summary (pool : ContextPool) : String :=
  "ContextPool \x7b idle: " ++ toString pool.idle ++ ", created: " ++ toString pool.created ++
    " \x7d"

end ContextPool

end ScriptBundle
