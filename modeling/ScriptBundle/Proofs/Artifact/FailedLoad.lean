import ScriptBundle.Artifact.Launch
import ScriptBundle.Proofs.Artifact.DirectLoad

/-!
# Loads that fail

A load may fail in front of the engine, at a value of the stored table that the engine
refuses, or at the bytecode.  The engine keeps its program and its journal in each case;
what happens to its properties depends on how far the load came.  A launch ends there.
-/

namespace ScriptBundle

namespace PropertyStore

/-- Slot by slot, a refused table leaves its values in front of the refused one. -/
theorem getElem?_take_append_drop {front back : List UInt64} {index : Nat}
    (hindex : index ≤ front.length) (slot : Nat) :
    (front.take index ++ back.drop index)[slot]? =
      if slot < index then front[slot]? else back[slot]? := by
  have hlength : (front.take index).length = index := by
    rw [List.length_take, Nat.min_eq_left hindex]
  rw [List.getElem?_append, hlength]
  split
  · rename_i hslot
    exact List.getElem?_take_of_lt hslot
  · rename_i hslot
    rw [List.getElem?_drop, Nat.add_sub_cancel' (Nat.le_of_not_lt hslot)]

/-- A table that is not refused is in the slots afterwards. -/
theorem eq_of_apply_eq_ok {store changed : PropertyStore}
    {table : PropertyTable} (hsize : store.size = table.size)
    (happly : store.apply table = (.ok (), changed)) :
    changed = { store with values := table.values } := by
  by_cases hrefused : ∃ index, store.readOnly = some index ∧ index < store.size
  · obtain ⟨index, hreadOnly, hindex⟩ := hrefused
    rw [PropertyStore.apply_refused hreadOnly hindex hsize] at happly
    cases happly
  · have hwritable : store.Writable := fun index hreadOnly =>
      Nat.le_of_not_lt fun hindex => hrefused ⟨index, hreadOnly, hindex⟩
    rw [PropertyStore.apply_eq_ok hwritable hsize] at happly
    exact (Prod.mk.inj happly).2.symm

end PropertyStore

namespace ArtifactReader

/-- An image holds a property table for engines with `count` slots. -/
def Stores (reader : ArtifactReader) (image : Bytes) (count : Nat) (table : PropertyTable) :
    Prop :=
  ∃ offset content opened, reader.readSection image = .ok (offset, content) ∧
    reader.openBlock content.block count = .ok opened ∧ opened.properties = table

theorem Stores.size_eq {reader : ArtifactReader} {image : Bytes} {count : Nat}
    {table : PropertyTable} (hstores : reader.Stores image count table) : table.size = count := by
  obtain ⟨offset, content, opened, -, hopen, rfl⟩ := hstores
  exact size_of_openBlock_eq_ok hopen

/-- How a load that ends with an error leaves the properties, given those `before` it. -/
def LeavesProperties (reader : ArtifactReader) (image : Bytes) (before after : PropertyStore) :
    LoadError → Prop
  | .protocolMismatch error =>
      ∃ table index value, reader.Stores image before.size table ∧
        error = .readOnlyProperty index value ∧ before.readOnly = some index ∧
        table.values[index]? = some value ∧
        ∀ slot, after.values[slot]? =
          if slot < index then table.values[slot]? else before.values[slot]?
  | .bytecodeRejected .. =>
      ∃ table, reader.Stores image before.size table ∧ after.values = table.values
  | _ => after.values = before.values

variable {reader : ArtifactReader} {image : Bytes}

/-- An error that is no refusal leaves the properties as they are. -/
theorem leavesProperties_of_isRefusal_eq_false {error : LoadError} (properties : PropertyStore)
    (herror : error.isRefusal = false) :
    reader.LeavesProperties image properties properties error := by
  cases error with
  | protocolMismatch | bytecodeRejected => cases herror
  | read | header | offsetOutOfRange | truncated | malformed | damagedBytecode | codec => rfl

/-- A refused value is that of the read-only slot. -/
theorem leavesProperties_of_apply_eq_error {store changed : PropertyStore}
    {table : PropertyTable} {error : EngineError} (hstores : reader.Stores image store.size table)
    (happly : store.apply table = (.error error, changed)) :
    changed = { store with values := changed.values } ∧
      reader.LeavesProperties image store changed (.protocolMismatch error) := by
  have hsize : store.size = table.size := hstores.size_eq.symm
  obtain ⟨index, hreadOnly, hindex, rfl⟩ :=
    (PropertyStore.apply_eq_error_iff hsize).mp (congrArg Prod.fst happly)
  have hvalue : index < table.values.length := Nat.lt_of_lt_of_eq hindex hsize
  have hstored : table.values[index]? = some (table.values.getD index 0) := by
    rw [List.getD_eq_getElem?_getD, List.getElem?_eq_getElem hvalue, Option.getD_some]
  rw [PropertyStore.apply_refused hreadOnly hindex hsize] at happly
  cases happly
  exact ⟨rfl, table, index, _, hstores, rfl, hreadOnly, hstored,
    PropertyStore.getElem?_take_append_drop (Nat.le_of_lt hvalue)⟩

/-- A program that is refused is refused behind a table that was taken over. -/
theorem leavesProperties_of_loadBytecode_eq_error {store changed : PropertyStore}
    {table : PropertyTable} {block : BlockReader} {engine loaded : Engine} {error : LoadError}
    (hstores : reader.Stores image store.size table)
    (happly : store.apply table = (.ok (), changed))
    (hload : loadBytecode block engine = (.error error, loaded)) :
    loaded = engine ∧ changed = { store with values := changed.values } ∧
      reader.LeavesProperties image store changed error := by
  have htaken : changed = { store with values := table.values } :=
    PropertyStore.eq_of_apply_eq_ok hstores.size_eq.symm happly
  rw [loadBytecode_eq, Engine.loadFrom] at hload
  cases hrun : Loader.program.runOn (.start block.remaining) with
  | mk outcome last =>
      rw [hrun] at hload
      cases outcome with
      | ok program => cases hload
      | error reason =>
          cases hload
          rw [htaken]
          exact ⟨rfl, rfl, table, hstores, rfl⟩

/-- A failed load changes at most the slots of an engine. -/
theorem leavesProperties_of_load_eq_error {engine loaded : Engine} {error : LoadError}
    (hload : reader.load image engine = (.error error, loaded)) :
    loaded = { engine with
        properties := { engine.properties with values := loaded.properties.values } } ∧
      reader.LeavesProperties image engine.properties loaded.properties error := by
  rcases reader.load_cases image engine with
    ⟨cause, hsection, hend⟩ | ⟨offset, content, hsection, hrest⟩
  · cases hload.symm.trans hend
    exact ⟨rfl, leavesProperties_of_isRefusal_eq_false _
      (isRefusal_of_readSection_eq_error hsection)⟩
  rcases hrest with ⟨cause, hopen, hend⟩ | ⟨opened, hopen, hrest⟩
  · cases hload.symm.trans hend
    exact ⟨rfl, leavesProperties_of_isRefusal_eq_false _
      (isRefusal_of_openBlock_eq_error hopen)⟩
  have hstores : reader.Stores image engine.properties.size opened.properties :=
    ⟨offset, content, opened, hsection, hopen, rfl⟩
  rcases hrest with ⟨cause, properties, happly, hend⟩ | ⟨properties, happly, hend⟩
  · cases hload.symm.trans hend
    obtain ⟨hslots, hleaves⟩ := leavesProperties_of_apply_eq_error hstores happly
    exact ⟨congrArg (fun properties => { engine with properties }) hslots, hleaves⟩
  · cases hlast : loadBytecode opened.block { engine with properties } with
    | mk outcome last =>
        rw [hlast] at hend
        cases outcome with
        | ok debug => cases hload.symm.trans hend
        | error cause =>
            cases hload.symm.trans hend
            obtain ⟨rfl, hslots, hleaves⟩ :=
              leavesProperties_of_loadBytecode_eq_error hstores happly hlast
            exact ⟨congrArg (fun properties => { engine with properties }) hslots, hleaves⟩

/-- A load that fails leaves the program, the debug flag and the journal of the engine,
and its properties except for the values that it set before it was refused.  A launch
fails with it and runs nothing, whatever program the engine had before. -/
theorem load_failed (reader : ArtifactReader) (image : Bytes) (engine loaded : Engine)
    (error : LoadError) (hload : reader.load image engine = (.error error, loaded)) :
    loaded = { engine with
        properties := { engine.properties with values := loaded.properties.values } } ∧
      reader.LeavesProperties image engine.properties loaded.properties error ∧
      ∀ system clock passes diagnostics, reader.image system = .ok image →
        reader.launch system engine clock passes diagnostics =
          .ok { exitCode := -1, engine := loaded, diagnostics } := by
  obtain ⟨hslots, hleaves⟩ := leavesProperties_of_load_eq_error hload
  refine ⟨hslots, hleaves, ?_⟩
  intro system clock passes diagnostics himage
  rw [launch, himage]
  simp only [launchImage, hload]
  rfl

/-- A block with values for three slots in front of a program. -/
def guardedBlock : Bytes :=
  Compression.compress 0 (Records.encode [] ++ (PropertyTable.mk [4, 5, 6]).encode ++
    (Program.ofFunctions true [("void main()", [.log "packed"])]).encode)

def guardedImage : Bytes :=
  Records.encode [] ++ DataSection.encodeLength guardedBlock.length ++ guardedBlock ++
    littleEndian 8 0

/-- An engine that has a program already and that refuses values for its last slot. -/
def guardedEngine : Engine where
  program := .ofFunctions true [("int main()", [.log "earlier", .finish (.int 3)])]
  properties := ⟨[1, 2, 3], some 2⟩

def guardedReader : ArtifactReader :=
  ⟨⟨"game"⟩, .linux, .transparent⟩

/-- The program that the engine has would end with 3.  The launch of an image with a value
for the last slot ends with -1 in front of it. -/
theorem load_failed_guarded :
    (∃ ran, guardedReader.runLoaded guardedEngine (.ticking 1000) 10 {} = .ok ran ∧
        ran.exitCode = 3 ∧ ran.engine.journal = ["globals", "earlier"]) ∧
      ∃ launched,
        guardedReader.launch
            ((FileSystem.empty ["work"]).put ["work", "game"] (.file guardedImage false))
            guardedEngine (.ticking 1000) 10 {} = .ok launched ∧
          launched.exitCode = -1 ∧ launched.engine.journal = [] ∧
          launched.engine.properties.values = [4, 5, 3] := by
  refine ⟨?_, ?_⟩
  · obtain ⟨ran, hrun, hran⟩ := exists_eq_ok_of_any
      (guardedReader.runLoaded guardedEngine (.ticking 1000) 10 {})
      (fun ran => ran.exitCode = 3 ∧ ran.engine.journal = ["globals", "earlier"])
      (by decide +kernel)
    exact ⟨ran, hrun, of_decide_eq_true hran⟩
  · have herror : (guardedReader.load guardedImage guardedEngine).1 =
        .error (.protocolMismatch (.readOnlyProperty 2 6)) := by decide +kernel
    have hslots : (guardedReader.load guardedImage guardedEngine).2.properties.values =
        [4, 5, 3] := by decide +kernel
    obtain ⟨hengine, -, hlaunch⟩ := load_failed guardedReader guardedImage guardedEngine _ _
      (Prod.ext herror rfl)
    refine ⟨_, hlaunch _ (.ticking 1000) 10 {} (by decide +kernel), rfl, ?_, hslots⟩
    rw [hengine]
    rfl

end ArtifactReader
end ScriptBundle
