/-!
# Engine errors
-/

namespace ScriptBundle

/-- Why the engine refuses a request. -/
inductive EngineError where
  | propertyIndex (index count : Nat)
  | propertyCount (expected found : Nat)
  | readOnlyProperty (index : Nat) (value : UInt64)
  /-- A stream took only a part of the program. -/
  | shortStream (accepted length : Nat)
  /-- A context is asked to run a second function. -/
  | contextBound (context : Nat)
  | globals (reason : String)
  deriving DecidableEq, Repr

namespace EngineError

def message : EngineError → String
  | .propertyIndex index count =>
      s!"Engine property index {index} out of range (engine has {count})"
  | .propertyCount expected found =>
      s!"Engine expects {expected} properties, table carries {found}"
  | .readOnlyProperty index value =>
      s!"Engine property {index} rejected value {value}: read-only property"
  | .shortStream accepted length =>
      s!"Failed to save bytecode: stream accepted {accepted} of {length} bytes"
  | .contextBound context =>
      s!"Failed to prepare context: context {context} is still bound to a function"
  | .globals reason => "Global initialisation failed: " ++ reason

end EngineError

end ScriptBundle
