import ScriptBundle.Engine.Property
import ScriptBundle.Varint

/-!
# Property tables

A table holds a value for each slot.  It is written as the values alone, one
variable-length integer each, so a reader has to know how many there are.
-/

namespace ScriptBundle

structure PropertyTable where
  values : List UInt64
  deriving DecidableEq, Repr, Inhabited

namespace PropertyTable

/-- A table of `count` zeros. -/
def zeroed (count : Nat) : PropertyTable :=
  ⟨List.replicate count 0⟩

def size (table : PropertyTable) : Nat :=
  table.values.length

/-- The value of a property, zero if the table has no slot for it. -/
def get (table : PropertyTable) (property : EngineProperty) : UInt64 :=
  table.values.getD property.index 0

/-- Sets the value of a property.  A table without its slot is filled up with
zeros first. -/
def set (table : PropertyTable) (property : EngineProperty) (value : UInt64) : PropertyTable :=
  let filled := table.values ++ List.replicate (property.index + 1 - table.size) 0
  ⟨filled.set property.index value⟩

/-- The values that a fresh engine reports. -/
def baseline : PropertyTable :=
  EngineProperty.all.foldl (fun table property => table.set property property.default)
    (zeroed EngineProperty.slotCount)

def encode (table : PropertyTable) : Bytes :=
  table.values.flatMap fun value => Varint.encode value.toNat

/-- A table of exactly `count` slots. -/
def decode (count : Nat) : Decoder PropertyTable := do
  let values ← Decoder.times Varint.decode count
  return ⟨values.map UInt64.ofNat⟩

end PropertyTable

end ScriptBundle
