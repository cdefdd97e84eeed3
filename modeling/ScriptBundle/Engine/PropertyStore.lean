import ScriptBundle.Engine.Error
import ScriptBundle.Engine.PropertyTable

/-!
# The properties of a running engine

An engine has a fixed number of slots.  One of them may be read-only: it refuses
every value.
-/

namespace ScriptBundle

structure PropertyStore where
  values : List UInt64
  readOnly : Option Nat
  deriving DecidableEq, Repr, Inhabited

namespace PropertyStore

/-- A store of `count` slots with the values of a fresh engine. -/
def fresh (count : Nat) : PropertyStore :=
  let baseline := PropertyTable.baseline.values
  { values := baseline.take count ++ List.replicate (count - baseline.length) 0
    readOnly := none }

def size (store : PropertyStore) : Nat :=
  store.values.length

/-- The value of a slot, zero if there is no such slot. -/
def get (store : PropertyStore) (index : Nat) : UInt64 :=
  store.values.getD index 0

def set (store : PropertyStore) (index : Nat) (value : UInt64) :
    Except EngineError PropertyStore :=
  if store.readOnly = some index then .error (.readOnlyProperty index value)
  else if index < store.size then .ok { store with values := store.values.set index value }
  else .error (.propertyIndex index store.size)

/-- Sets the slots from `index` on.  The slots before a refused one keep their
new values. -/
def setFrom (store : PropertyStore) (index : Nat) :
    List UInt64 → Except EngineError Unit × PropertyStore
  | [] => (.ok (), store)
  | value :: values =>
      match store.set index value with
      | .ok changed => setFrom changed (index + 1) values
      | .error error => (.error error, store)

/-- Sets every slot to its value in a table of the same size. -/
def apply (store : PropertyStore) (table : PropertyTable) :
    Except EngineError Unit × PropertyStore :=
  if store.size = table.size then store.setFrom 0 table.values
  else (.error (.propertyCount store.size table.size), store)

end PropertyStore

end ScriptBundle
