import ScriptBundle.Proofs.Artifact.Block
import ScriptBundle.Proofs.Script.Saving

/-!
# Loading what was encoded

An engine that loads an artifact gets the property table and the program that the
artifact holds.  An engine without a read-only property refuses no table of its
own size.
-/

namespace ScriptBundle

namespace LoadError

/-- Whether the engine refuses what it is given. -/
def isRefusal : LoadError → Bool
  | .protocolMismatch _ | .bytecodeRejected .. => true
  | _ => false

theorem isRefusal_ofFault (part : ArtifactPart) (fault : Fault) :
    (ofFault part fault).isRefusal = false := by
  rw [ofFault]
  split <;> rfl

end LoadError

namespace PropertyStore

@[simp]
theorem size_fresh (count : Nat) : (fresh count).size = count := by
  simp only [size, fresh, List.length_append, List.length_take, List.length_replicate]
  omega

/-- No slot of the store refuses values. -/
def Writable (store : PropertyStore) : Prop :=
  ∀ index, store.readOnly = some index → store.size ≤ index

theorem writable_of_readOnly_eq_none {store : PropertyStore} (hnone : store.readOnly = none) :
    store.Writable := by
  intro index hindex
  rw [hnone] at hindex
  cases hindex

/-- The slots behind `front` get their values, as many as there are; the others
stay. -/
theorem setFrom_eq_ok (front back values : List UInt64) (readOnly : Option Nat)
    (hlength : values.length ≤ back.length)
    (hwritable : ∀ index, readOnly = some index → front.length + values.length ≤ index) :
    setFrom ⟨front ++ back, readOnly⟩ front.length values =
      (.ok (), ⟨front ++ values ++ back.drop values.length, readOnly⟩) := by
  induction values generalizing front back with
  | nil =>
      rw [List.append_nil]
      rfl
  | cons value values ih =>
      cases back with
      | nil => cases hlength
      | cons old back =>
          have hfree : readOnly ≠ some front.length := by
            intro hindex
            have hlate := hwritable front.length hindex
            rw [List.length_cons] at hlate
            omega
          have hroom : front.length < (front ++ old :: back).length := by
            rw [List.length_append]
            exact Nat.lt_add_of_pos_right (Nat.succ_pos _)
          have hset : (PropertyStore.mk (front ++ old :: back) readOnly).set front.length value =
              .ok ⟨(front ++ [value]) ++ back, readOnly⟩ := by
            rw [set, if_neg hfree, size, if_pos hroom, List.append_assoc]
            simp
          have hlater : ∀ index, readOnly = some index →
              (front ++ [value]).length + values.length ≤ index := by
            intro index hindex
            have hlate := hwritable index hindex
            simp only [List.length_cons, List.length_append, List.length_nil] at hlate ⊢
            omega
          have hrest := ih (front ++ [value]) back (Nat.le_of_succ_le_succ hlength) hlater
          rw [List.length_append, List.append_assoc front [value] values] at hrest
          rw [setFrom, hset]
          exact hrest

/-- Values are set in two goes as in one. -/
theorem setFrom_append {store changed : PropertyStore} {index : Nat} {front : List UInt64}
    (hfront : store.setFrom index front = (.ok (), changed)) (back : List UInt64) :
    store.setFrom index (front ++ back) = changed.setFrom (index + front.length) back := by
  induction front generalizing store index with
  | nil =>
      obtain ⟨-, rfl⟩ := Prod.mk.inj hfront
      rfl
  | cons value front ih =>
      rw [setFrom] at hfront
      rw [List.cons_append, setFrom]
      cases hset : store.set index value with
      | error error => simp [hset] at hfront
      | ok next =>
          simp only [hset] at hfront ⊢
          rw [ih hfront, List.length_cons, Nat.add_assoc, Nat.add_comm 1]

/-- A store that refuses no value takes over a whole table. -/
theorem apply_eq_ok {store : PropertyStore} {table : PropertyTable}
    (hwritable : store.Writable) (hsize : store.size = table.size) :
    store.apply table = (.ok (), { store with values := table.values }) := by
  have hset := setFrom_eq_ok [] store.values table.values store.readOnly (Nat.le_of_eq hsize.symm)
    fun index hindex => by
      have hlate := hwritable index hindex
      rw [hsize, PropertyTable.size] at hlate
      simpa using hlate
  have hnone : store.values.drop table.values.length = [] :=
    List.drop_of_length_le (Nat.le_of_eq hsize)
  rw [hnone, List.append_nil] at hset
  rw [apply, if_pos hsize]
  exact hset

/-- A read-only slot stops a table at its value.  The slots in front of it are set. -/
theorem apply_refused {store : PropertyStore} {table : PropertyTable} {index : Nat}
    (hreadOnly : store.readOnly = some index) (hindex : index < store.size)
    (hsize : store.size = table.size) :
    store.apply table =
      (.error (.readOnlyProperty index (table.values.getD index 0)),
        { store with values := table.values.take index ++ store.values.drop index }) := by
  have hvalue : index < table.values.length := Nat.lt_of_lt_of_eq hindex hsize
  have hlength : (table.values.take index).length = index := by
    rw [List.length_take]
    exact Nat.min_eq_left (Nat.le_of_lt hvalue)
  have hfront := setFrom_eq_ok [] store.values (table.values.take index) store.readOnly
    (by rw [hlength]; exact Nat.le_of_lt hindex)
    fun other hother => by
      obtain rfl : index = other := Option.some.inj (hreadOnly.symm.trans hother)
      rw [hlength, List.length_nil]
      omega
  rw [List.nil_append, hlength] at hfront
  have hsplit : table.values =
      table.values.take index ++ table.values.getD index 0 :: table.values.drop (index + 1) := by
    rw [List.getD_eq_getElem?_getD, List.getElem?_eq_getElem hvalue, Option.getD_some,
      List.getElem_cons_drop, List.take_append_drop]
  rw [apply, if_pos hsize]
  calc store.setFrom 0 table.values
    _ = store.setFrom 0 (table.values.take index ++
          table.values.getD index 0 :: table.values.drop (index + 1)) :=
        congrArg (store.setFrom 0) hsplit
    _ = PropertyStore.setFrom
          { store with values := table.values.take index ++ store.values.drop index }
          (0 + (table.values.take index).length)
          (table.values.getD index 0 :: table.values.drop (index + 1)) :=
        setFrom_append hfront _
    _ = _ := by
        rw [hlength, Nat.zero_add, setFrom, set, if_pos hreadOnly]

/-- What can go wrong with a table of the right size is a read-only slot. -/
theorem apply_eq_error_iff {store : PropertyStore} {table : PropertyTable} {error : EngineError}
    (hsize : store.size = table.size) :
    (store.apply table).1 = .error error ↔
      ∃ index, store.readOnly = some index ∧ index < store.size ∧
        error = .readOnlyProperty index (table.values.getD index 0) := by
  constructor
  · intro herror
    by_cases hrefused : ∃ index, store.readOnly = some index ∧ index < store.size
    · obtain ⟨index, hreadOnly, hindex⟩ := hrefused
      rw [apply_refused hreadOnly hindex hsize] at herror
      exact ⟨index, hreadOnly, hindex, (Except.error.inj herror).symm⟩
    · have hwritable : store.Writable := fun index hreadOnly =>
        Nat.le_of_not_lt fun hindex => hrefused ⟨index, hreadOnly, hindex⟩
      rw [apply_eq_ok hwritable hsize] at herror
      cases herror
  · rintro ⟨index, hreadOnly, hindex, rfl⟩
    rw [apply_refused hreadOnly hindex hsize]

end PropertyStore

namespace Engine

/-- The engine with the values of a property table. -/
def withValues (engine : Engine) (table : PropertyTable) : Engine :=
  { engine with properties := { engine.properties with values := table.values } }

end Engine

namespace BlockReader

/-- A block that is loaded from gives what bytes in memory give, and its own count
and that of the loader stay the same. -/
structure Follows (stream : Counted BlockReader) (direct : Counted Bytes) : Prop where
  remaining : stream.inner.remaining = direct.inner
  cursor : stream.inner.cursor = stream.offset
  offset : stream.offset = direct.offset

theorem follows_start (reader : BlockReader) :
    Follows (.start reader.resetCursor) (.start reader.remaining) :=
  ⟨rfl, rfl, rfl⟩

theorem handsOutAlike_follows : Loader.HandsOutAlike Follows := by
  intro count stream direct hfollows
  obtain ⟨hremaining, hcursor, hoffset⟩ := hfollows
  have hbytes : (stream.read count).1 = (direct.read count).1 :=
    congrArg (List.take count) hremaining
  have hafter : (stream.read count).2.inner.remaining = (direct.read count).2.inner :=
    (stream.inner.remaining_read count).trans (congrArg (List.drop count) hremaining)
  have hcount : (stream.read count).2.offset = (direct.read count).2.offset := by
    change stream.offset + (stream.read count).1.length =
      direct.offset + (direct.read count).1.length
    rw [hbytes, hoffset]
  exact ⟨hbytes, hafter, congrArg (· + (stream.read count).1.length) hcursor, hcount⟩

end BlockReader

namespace ArtifactReader

/-- Loading from a block goes like loading from the bytes that are left in it.
Where the engine stops, the block has counted just the bytes that the engine
has. -/
theorem loadBytecode_eq (block : BlockReader) (engine : Engine) :
    loadBytecode block engine =
      ((engine.loadFrom block.remaining).1.1.mapError fun rejection =>
          .bytecodeRejected rejection.offset rejection.offset rejection.reason,
        (engine.loadFrom block.remaining).1.2) := by
  obtain ⟨hsame, hfollows⟩ := Loader.agree_program BlockReader.handsOutAlike_follows _ _
    (BlockReader.follows_start block)
  unfold loadBytecode Engine.loadFrom
  cases hstream : Loader.program.runOn (.start block.resetCursor) with
  | mk outcome stream =>
      cases hdirect : Loader.program.runOn (.start block.remaining) with
      | mk outcome' direct =>
          rw [hstream, hdirect] at hsame hfollows
          obtain rfl : outcome = outcome' := hsame
          cases outcome with
          | ok program => rfl
          | error reason =>
              have hoffset : stream.offset = direct.offset := hfollows.offset
              have hcursor : stream.inner.cursor = direct.offset :=
                hfollows.cursor.trans hoffset
              simp only [mapError_error, hcursor, hoffset]

theorem loadBytecode_eq_ok {block : BlockReader} {program : Program}
    (hholds : block.Holds program.encode) (hlength : program.document.length < UInt64.size)
    (engine : Engine) :
    loadBytecode block engine = (.ok program.debug, { engine with program }) := by
  have hload := engine.loadFrom_encode program hlength []
  rw [List.append_nil] at hload
  rw [loadBytecode_eq, hholds.1, hload]
  rfl

/-- An error in front of the engine is no refusal by the engine. -/
theorem isRefusal_of_readSection_eq_error {reader : ArtifactReader} {image : Bytes}
    {error : LoadError} (hsection : reader.readSection image = .error error) :
    error.isRefusal = false := by
  rcases bind_eq_error_iff.mp hsection with hbounds | ⟨⟨start, limit⟩, -, hcontent⟩
  · obtain ⟨cause, -, rfl⟩ := mapError_eq_error_iff.mp hbounds
    cases cause <;> rfl
  · rcases bind_eq_error_iff.mp hcontent with hfault | ⟨content, -, hpure⟩
    · obtain ⟨fault, -, rfl⟩ := mapError_eq_error_iff.mp hfault
      exact LoadError.isRefusal_ofFault _ _
    · cases hpure

theorem isRefusal_of_openBlock_eq_error {reader : ArtifactReader} {block : Bytes} {count : Nat}
    {error : LoadError} (hopen : reader.openBlock block count = .error error) :
    error.isRefusal = false := by
  rcases bind_eq_error_iff.mp hopen with hblock | ⟨stream, -, hopen⟩
  · obtain ⟨cause, -, rfl⟩ := mapError_eq_error_iff.mp hblock
    rfl
  rcases bind_eq_error_iff.mp hopen with hplugins | ⟨plugins, -, hopen⟩
  · obtain ⟨fault, -, rfl⟩ := mapError_eq_error_iff.mp hplugins
    exact LoadError.isRefusal_ofFault _ _
  rcases bind_eq_error_iff.mp hopen with htable | ⟨table, -, hpure⟩
  · obtain ⟨fault, -, rfl⟩ := mapError_eq_error_iff.mp htable
    exact LoadError.isRefusal_ofFault _ _
  · cases hpure

/-- How far a load comes: to the section, to the opened block, to the properties that
were set before a refused one, or to the bytecode. -/
theorem load_cases (reader : ArtifactReader) (image : Bytes) (engine : Engine) :
    (∃ error, reader.readSection image = .error error ∧
      reader.load image engine = (.error error, engine)) ∨
    ∃ offset content, reader.readSection image = .ok (offset, content) ∧
      ((∃ error, reader.openBlock content.block engine.properties.size = .error error ∧
        reader.load image engine = (.error error, engine)) ∨
      ∃ opened, reader.openBlock content.block engine.properties.size = .ok opened ∧
        ((∃ error properties, engine.properties.apply opened.properties =
            (.error error, properties) ∧
          reader.load image engine =
            (.error (.protocolMismatch error), { engine with properties })) ∨
        ∃ properties, engine.properties.apply opened.properties = (.ok (), properties) ∧
          reader.load image engine =
            ((loadBytecode opened.block { engine with properties }).1.map fun debug =>
                ⟨offset, content.resources, opened.plugins, debug⟩,
              (loadBytecode opened.block { engine with properties }).2))) := by
  unfold load
  cases hsection : reader.readSection image with
  | error error => exact .inl ⟨error, rfl, rfl⟩
  | ok found =>
      obtain ⟨offset, content⟩ := found
      refine .inr ⟨offset, content, rfl, ?_⟩
      cases hopen : reader.openBlock content.block engine.properties.size with
      | error error => exact .inl ⟨error, rfl, by simp only [hopen]⟩
      | ok opened =>
          refine .inr ⟨opened, rfl, ?_⟩
          cases happly : engine.properties.apply opened.properties with
          | mk outcome properties =>
              cases outcome with
              | error error => exact .inl ⟨error, properties, rfl, by simp only [hopen, happly]⟩
              | ok _ => exact .inr ⟨properties, rfl, by simp only [hopen, happly]⟩

/-- What a load comes to once the block is open and the engine refuses no value. -/
theorem load_eq {reader : ArtifactReader} {image : Bytes} {engine : Engine} {offset : Nat}
    {content : DataSection} {opened : OpenedBlock}
    (hsection : reader.readSection image = .ok (offset, content))
    (hopen : reader.openBlock content.block engine.properties.size = .ok opened)
    (hwritable : engine.properties.Writable)
    (hsize : engine.properties.size = opened.properties.size) :
    reader.load image engine =
      ((loadBytecode opened.block (engine.withValues opened.properties)).1.map fun debug =>
          ⟨offset, content.resources, opened.plugins, debug⟩,
        (loadBytecode opened.block (engine.withValues opened.properties)).2) := by
  rw [load, hsection]
  simp only [hopen, PropertyStore.apply_eq_ok hwritable hsize]
  rfl

/-- An engine takes over the table and the program of an image. -/
theorem load_eq_ok {reader : ArtifactReader} {image : Bytes} {engine : Engine}
    {offset level : Nat} {content : DataSection} {plugins : List Bytes} {table : PropertyTable}
    {program : Program} (hsection : reader.readSection image = .ok (offset, content))
    (hdecrypt : reader.cipher.decrypt content.block = .ok (Compression.compress level
      (Records.encode plugins ++ table.encode ++ program.encode)))
    (hplugins : Records.WithinLimits plugins) (hwritable : engine.properties.readOnly = none)
    (hsize : engine.properties.size = table.size)
    (hlength : program.document.length < UInt64.size) :
    reader.load image engine =
      (.ok ⟨offset, content.resources, plugins, program.debug⟩,
        { engine with properties := ⟨table.values, none⟩, program }) := by
  obtain ⟨rest, hopen, hholds⟩ := openBlock_eq_ok hdecrypt hplugins
  rw [← hsize] at hopen
  have hvalues : engine.withValues table =
      { engine with properties := ⟨table.values, none⟩ } := by
    simp only [Engine.withValues, hwritable]
  rw [load_eq hsection hopen (PropertyStore.writable_of_readOnly_eq_none hwritable) hsize,
    loadBytecode_eq_ok hholds hlength, hvalues]
  rfl

end ArtifactReader

end ScriptBundle
