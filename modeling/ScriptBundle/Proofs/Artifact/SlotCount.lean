import ScriptBundle.Proofs.Artifact.Load
import ScriptBundle.Proofs.Artifact.SectionTable
import ScriptBundle.Proofs.Layout.Limits

/-!
# Engines with another number of slots

An artifact does not say how many slots its property table has; the engine that
loads it says how many it expects.  So a disagreement is not seen: with fewer slots
the last properties are taken for bytecode, with more slots the first bytes of the
bytecode are taken for properties.  Only a read-only slot refuses a table.
-/

namespace ScriptBundle

/-- Without a defect, a reader gives what its data decode to. -/
theorem BlockReader.decode_outcome {α : Type} {reader : BlockReader} {content : Bytes}
    (hholds : reader.Holds content) (decoder : Decoder α) :
    (reader.decode decoder).1 = (decoder.read content).1 := by
  obtain ⟨hremaining, hdamaged, -⟩ := hholds
  unfold decode
  rw [hremaining, hdamaged]
  cases decoder.read content with
  | mk outcome rest =>
      cases outcome with
      | ok value => rfl
      | error fault =>
          simp only
          split <;> rfl

namespace ArtifactReader

variable {reader : ArtifactReader} {image : Bytes}

theorem loadBytecode_ne_protocolMismatch (block : BlockReader) (engine : Engine)
    (error : EngineError) : (loadBytecode block engine).1 ≠ .error (.protocolMismatch error) := by
  intro hload
  rw [loadBytecode_eq] at hload
  obtain ⟨rejection, -, hrejection⟩ := mapError_eq_error_iff.mp hload
  cases hrejection

/-- A load ends with a mismatch just where the engine refuses the table that was read
for it. -/
theorem load_eq_protocolMismatch_iff {engine loaded : Engine} {error : EngineError} :
    reader.load image engine = (.error (.protocolMismatch error), loaded) ↔
      ∃ offset content opened properties,
        reader.readSection image = .ok (offset, content) ∧
          reader.openBlock content.block engine.properties.size = .ok opened ∧
          engine.properties.apply opened.properties = (.error error, properties) ∧
          loaded = { engine with properties } := by
  constructor
  · intro hload
    rcases reader.load_cases image engine with ⟨cause, hsection, hfailed⟩ |
      ⟨offset, content, hsection, ⟨cause, hopen, hfailed⟩ | ⟨opened, hopen, hrefused | hloaded⟩⟩
    · cases hfailed.symm.trans hload
      cases isRefusal_of_readSection_eq_error hsection
    · cases hfailed.symm.trans hload
      cases isRefusal_of_openBlock_eq_error hopen
    · obtain ⟨refusal, properties, happly, hfailed⟩ := hrefused
      cases hfailed.symm.trans hload
      exact ⟨offset, content, opened, properties, hsection, hopen, happly, rfl⟩
    · obtain ⟨properties, -, hresult⟩ := hloaded
      obtain ⟨houtcome, -⟩ := Prod.mk.inj (hresult.symm.trans hload)
      exact absurd (map_eq_error_iff.mp houtcome) (loadBytecode_ne_protocolMismatch _ _ error)
  · rintro ⟨offset, content, opened, properties, hsection, hopen, happly, rfl⟩
    rw [load, hsection]
    simp only [hopen, happly]

/-- A section between its bounds can be read just if its resources are within the
limits. -/
theorem readSection_eq_ok_iff {data : Bytes} {start limit offset : Nat}
    {content found : DataSection}
    (hbounds : Artifact.bounds reader.platform image = .ok (start, limit))
    (hdata : (image.drop start).take (limit - start) = data)
    (hencode : content.encode = .ok data) :
    reader.readSection image = .ok (offset, found) ↔
      Records.WithinLimits content.resources ∧ offset = start ∧ found = content := by
  by_cases hresources : Records.WithinLimits content.resources
  · rw [readSection_eq_ok hbounds hdata hencode hresources]
    simp [hresources, eq_comm]
  · obtain ⟨fault, after, hfault⟩ := DataSection.decode_refuses hencode hresources []
    rw [List.append_nil] at hfault
    rw [readSection_eq hbounds hdata, hfault]
    simp [hresources]

/-- What a block opens to is the records and the table that can be read off its
content, whatever size of the table is expected. -/
theorem exists_openBlock_iff {block bytecode : Bytes} {level : Nat} {plugins : List Bytes}
    {table : PropertyTable} (count : Nat)
    (hdecrypt : reader.cipher.decrypt block = .ok (Compression.compress level
      (Records.encode plugins ++ table.encode ++ bytecode))) :
    (∃ opened, reader.openBlock block count = .ok opened) ↔
      Records.WithinLimits plugins ∧
        ∃ values rest, (Decoder.times Varint.decode (count - table.size)).read bytecode =
          (.ok values, rest) := by
  rw [List.append_assoc] at hdecrypt
  obtain ⟨stream, hstream, hholds⟩ := BlockReader.ofBlock_holds hdecrypt
  rw [← PropertyTable.exists_read_decode_iff]
  constructor
  · rintro ⟨opened, hopen⟩
    obtain ⟨stream', middle, hstream', hplugins, htable⟩ := openBlock_eq_ok_iff.mp hopen
    obtain rfl := Except.ok.inj (hstream.symm.trans hstream')
    have hlimits : Records.WithinLimits plugins := by
      refine Decidable.of_not_not fun hlimits => ?_
      obtain ⟨fault, after, hfault⟩ := Records.decode_refuses hlimits (table.encode ++ bytecode)
      have houtcome := BlockReader.decode_outcome hholds Records.decode
      rw [hplugins, hfault] at houtcome
      cases houtcome
    obtain ⟨after, hafter, hmiddle⟩ :=
      BlockReader.decode_holds (Records.decode_reads plugins hlimits) hholds
    obtain ⟨-, rfl⟩ := Prod.mk.inj (hplugins.symm.trans hafter)
    have houtcome := BlockReader.decode_outcome hmiddle (PropertyTable.decode count)
    rw [htable] at houtcome
    exact ⟨hlimits, opened.properties, _, Prod.ext houtcome.symm rfl⟩
  · rintro ⟨hlimits, found, rest, hread⟩
    obtain ⟨middle, hplugins, hmiddle⟩ :=
      BlockReader.decode_holds (Records.decode_reads plugins hlimits) hholds
    have houtcome := BlockReader.decode_outcome hmiddle (PropertyTable.decode count)
    rw [hread] at houtcome
    exact ⟨⟨plugins, found, (middle.decode (PropertyTable.decode count)).2⟩,
      openBlock_eq_ok_iff.mpr ⟨stream, middle, hstream, hplugins, Prod.ext houtcome rfl⟩⟩

/-- A reader that expects fewer slots leaves the others in front of the bytecode. -/
theorem openBlock_front {block bytecode : Bytes} {level count : Nat} {plugins : List Bytes}
    {table : PropertyTable} (hcount : count ≤ table.size)
    (hdecrypt : reader.cipher.decrypt block = .ok (Compression.compress level
      (Records.encode plugins ++ table.encode ++ bytecode)))
    (hplugins : Records.WithinLimits plugins) :
    ∃ rest, reader.openBlock block count = .ok ⟨plugins, table.front count, rest⟩ ∧
      rest.Holds ((table.behind count).encode ++ bytecode) := by
  rw [← table.encode_front_append count, List.append_assoc, List.append_assoc,
    ← List.append_assoc (Records.encode plugins)] at hdecrypt
  have hopen := openBlock_eq_ok hdecrypt hplugins
  rw [PropertyTable.size_front hcount] at hopen
  exact hopen

end ArtifactReader

namespace BuildPlan

/-- Where the section of a built artifact stands at the offset of the report, it is
found there, and it can be read just if its resources are within the limits. -/
theorem readSection_of_build {plan : BuildPlan} {system built : FileSystem}
    {program : ProgramSource} {script : Path} {report : BuildReport} {image : Bytes}
    {reader : ArtifactReader} (hbuild : plan.build system program script = (.ok report, built))
    (hread : built.read report.output = .ok image)
    (hplace : report.sectionOffset + report.appended = image.length)
    (hoffset : report.sectionOffset < UInt64.size) (hplatform : reader.platform = plan.platform) :
    ∃ block,
      plan.properties.size = EngineProperty.slotCount ∧
        plan.sealed (program.bytecode (!plan.config.debug)) = .ok block ∧
        ∀ offset content, reader.readSection image = .ok (offset, content) ↔
          Records.WithinLimits plan.resources ∧ offset = report.sectionOffset ∧
            content = { resources := plan.resources, block } := by
  obtain ⟨stub, encoded, assembled, hencode, hassemble, hfile, rfl, -⟩ :=
    read_of_build_eq_ok hbuild
  obtain ⟨hsize, -, -, block, data, hsealed, hdata, rfl⟩ := encode_eq_ok_iff.mp hencode
  obtain rfl := Except.ok.inj (hfile.symm.trans hread)
  obtain ⟨hbounds, hbetween⟩ := Artifact.bounds_assemble hassemble hplace hoffset
    (DataSection.ne_nil_of_encode_eq_ok hdata)
  rw [← hplatform] at hbounds
  exact ⟨block, hsize, hsealed, fun offset content =>
    ArtifactReader.readSection_eq_ok_iff hbounds hbetween hdata⟩

/-- A load of a built artifact never ends with a mismatch because its table and the
engine differ in size.  It ends with one just where the engine has a read-only slot
and everything in front of the bytecode can be read, and then the engine keeps its
program.  An engine with fewer slots, none of them read-only, takes the first
properties and loads the others and the bytecode as one program. -/
theorem load_otherSlotCount (plan : BuildPlan) (program : ProgramSource)
    (system built : FileSystem) (diagnostics rest : Diagnostics) (script : Path)
    (report : BuildReport) (bytecode image : Bytes) (reader : ArtifactReader) (engine : Engine)
    (hprogram : program.bytecode (!plan.config.debug) = bytecode)
    (hwrite : plan.write system diagnostics program script = ((.ok report, rest), built))
    (hread : built.read report.output = .ok image) (hplatform : reader.platform = plan.platform)
    (hcipher : ∀ data block, plan.cipher.encrypt data = .ok block →
      reader.cipher.decrypt block = .ok data)
    (hoffset : report.sectionOffset < UInt64.size) :
    (∀ error loaded, reader.load image engine = (.error (.protocolMismatch error), loaded) →
      loaded.program = engine.program ∧
        ∃ index value, error = .readOnlyProperty index value ∧
          engine.properties.readOnly = some index ∧ index < engine.properties.size) ∧
    (report.sectionOffset + report.appended = image.length →
      ((∃ error loaded, reader.load image engine = (.error (.protocolMismatch error), loaded)) ↔
        Records.WithinLimits plan.resources ∧ Records.WithinLimits plan.plugins ∧
          (∃ index, engine.properties.readOnly = some index ∧ index < engine.properties.size) ∧
          ∃ values after,
            (Decoder.times Varint.decode
              (engine.properties.size - EngineProperty.slotCount)).read bytecode =
                (.ok values, after)) ∧
      (Records.WithinLimits plan.resources → Records.WithinLimits plan.plugins →
        engine.properties.Writable → engine.properties.size < EngineProperty.slotCount →
        ∀ outcome loaded,
          ((engine.withValues (plan.properties.front engine.properties.size)).loadFrom
            ((plan.properties.behind engine.properties.size).encode ++ bytecode)).1 =
              (outcome, loaded) →
          reader.load image engine =
            ((outcome.mapError fun rejection =>
                .bytecodeRejected rejection.offset rejection.offset rejection.reason).map
              fun debug => ⟨report.sectionOffset, plan.resources, plan.plugins, debug⟩,
              loaded))) := by
  subst hprogram
  refine ⟨?_, fun hplace => ?_⟩
  · intro error loaded hload
    obtain ⟨offset, content, opened, properties, -, hopen, happly, rfl⟩ :=
      ArtifactReader.load_eq_protocolMismatch_iff.mp hload
    have hsize := (ArtifactReader.size_of_openBlock_eq_ok hopen).symm
    obtain ⟨index, hreadOnly, hindex, rfl⟩ :=
      (PropertyStore.apply_eq_error_iff hsize).mp (congrArg Prod.fst happly)
    exact ⟨rfl, index, _, rfl, hreadOnly, hindex⟩
  obtain ⟨block, hslots, hsealed, hfound⟩ :=
    readSection_of_build (build_of_write_eq hwrite) hread hplace hoffset hplatform
  have hdecrypt := hcipher _ block hsealed
  have hopens := ArtifactReader.exists_openBlock_iff engine.properties.size hdecrypt
  rw [hslots] at hopens
  refine ⟨⟨?_, ?_⟩, ?_⟩
  · rintro ⟨error, loaded, hload⟩
    obtain ⟨offset, content, opened, properties, hread, hopen, happly, -⟩ :=
      ArtifactReader.load_eq_protocolMismatch_iff.mp hload
    obtain ⟨hresources, rfl, rfl⟩ := (hfound _ _).mp hread
    obtain ⟨hplugins, hintegers⟩ := hopens.mp ⟨opened, hopen⟩
    have hsize := (ArtifactReader.size_of_openBlock_eq_ok hopen).symm
    obtain ⟨index, hreadOnly, hindex, -⟩ :=
      (PropertyStore.apply_eq_error_iff hsize).mp (congrArg Prod.fst happly)
    exact ⟨hresources, hplugins, ⟨index, hreadOnly, hindex⟩, hintegers⟩
  · rintro ⟨hresources, hplugins, ⟨index, hreadOnly, hindex⟩, hintegers⟩
    obtain ⟨opened, hopen⟩ := hopens.mpr ⟨hplugins, hintegers⟩
    have hsize := (ArtifactReader.size_of_openBlock_eq_ok hopen).symm
    have happly := PropertyStore.apply_refused hreadOnly hindex hsize
    exact ⟨_, _, ArtifactReader.load_eq_protocolMismatch_iff.mpr
      ⟨_, _, opened, _, (hfound _ _).mpr ⟨hresources, rfl, rfl⟩, hopen, happly, rfl⟩⟩
  · intro hresources hplugins hwritable hfewer outcome loaded hdirect
    rw [← hslots] at hfewer
    obtain ⟨rest, hopen, hholds⟩ :=
      ArtifactReader.openBlock_front (Nat.le_of_lt hfewer) hdecrypt hplugins
    rw [ArtifactReader.load_eq ((hfound _ _).mpr ⟨hresources, rfl, rfl⟩) hopen hwritable
      (PropertyTable.size_front (Nat.le_of_lt hfewer)).symm,
      ArtifactReader.loadBytecode_eq, hholds.1, hdirect]

/-- Bytecode without functions, thirty bytes long without its length. -/
def emptyDocument : Bytes :=
  "\x7b\"debug\":false,\"functions\":\x7b\x7d\x7d".toUTF8.toList

/-- A plan whose last property is the length of that document. -/
def shiftedPlan : BuildPlan :=
  (ofConfig trailerLikeConfig .transparent ⟨"bundled"⟩).withContent
    ⟨List.replicate 40 0 ++ [30]⟩ [] []

/-- An engine that lacks a slot for the last property. -/
def shortEngine : Engine where
  program := .ofFunctions true [("int main()", [.yield])]
  properties := .fresh 40

/-- An engine with a slot less takes the last property for the length of the program
and has its own program replaced. -/
theorem load_otherSlotCount_short :
    ∃ report built image loaded,
      shiftedPlan.write trailerLikeStub {} (.compiled emptyDocument) ⟨"game.nvgt"⟩ =
          ((.ok report, {}), built) ∧
        built.read report.output = .ok image ∧
        (ArtifactReader.mk report.output .linux .transparent).load image shortEngine =
          (.ok ⟨8, [], ["audio".toUTF8.toList], false⟩, loaded) ∧
        shortEngine.program.declarations = ["int main()"] ∧ loaded.program.declarations = [] ∧
        loaded.properties.values = List.replicate 40 0 := by
  have hbuildable : shiftedPlan.Buildable trailerLikeStub ⟨"game.nvgt"⟩ (List.replicate 8 0) :=
    ⟨["work", "stub", "launchpack_linux.bin"], true, trailerLikeStub, ["work", "game"], rfl, rfl,
      rfl, by decide⟩
  have hsealed : shiftedPlan.sealed emptyDocument =
      .ok (Compression.compress 0 (shiftedPlan.content emptyDocument)) := rfl
  have hsection := DataSection.encode_eq_ok
    { resources := [], block := Compression.compress 0 (shiftedPlan.content emptyDocument) }
    (by decide +kernel)
  obtain ⟨built, hwrite, hread⟩ := write_trailer (by decide) (by decide) (by decide)
    (rfl : (ProgramSource.compiled emptyDocument).bytecode _ = emptyDocument) (by decide +kernel)
    hsealed hsection hbuildable {}
  obtain ⟨-, hplaced⟩ := load_otherSlotCount shiftedPlan (.compiled emptyDocument) trailerLikeStub
    built {} {} ⟨"game.nvgt"⟩ _ emptyDocument _
    ⟨shiftedPlan.outputPath ⟨"game.nvgt"⟩, .linux, .transparent⟩ shortEngine rfl hwrite hread rfl
    (fun data block hencrypt => congrArg Except.ok (Except.ok.inj hencrypt).symm) (by decide)
  obtain ⟨-, hload⟩ := hplaced (by decide +kernel)
  have hsize : shortEngine.properties.size = 40 := PropertyStore.size_fresh 40
  rw [hsize] at hload
  have hdirect : ((shortEngine.withValues (shiftedPlan.properties.front 40)).loadFrom
      ((shiftedPlan.properties.behind 40).encode ++ emptyDocument)).1.1 = .ok false := by
    decide +kernel
  exact ⟨_, built, _, _, hwrite, hread,
    hload (by decide) (by decide +kernel) (PropertyStore.writable_of_readOnly_eq_none rfl)
      (by decide) _ _ (Prod.ext hdirect rfl),
    by decide +kernel, by decide +kernel, by decide +kernel⟩

end BuildPlan

end ScriptBundle
