import ScriptBundle.Proofs.Artifact.Block
import ScriptBundle.Proofs.Artifact.Build

/-!
# Artifacts with a trailer read back

On the platforms without a section table an artifact is the stub, the data
section and the length of the stub.  Its reader knows none of the lengths in
between.  The stub is any bytes at all, an artifact included, since only the last
trailer is looked at.
-/

namespace ScriptBundle

namespace Artifact

theorem usesSectionTable_eq_false {platform : Platform} (hplatform : platform ≠ .windows) :
    platform.usesSectionTable = false := by
  simpa [Platform.usesSectionTable] using hplatform

theorem assemble_trailer {platform : Platform} (hplatform : platform ≠ .windows)
    (console : Bool) (stub data : Bytes) :
    assemble platform console stub data = .ok (stub ++ data ++ trailer stub) := by
  rw [assemble, usesSectionTable_eq_false hplatform, if_neg Bool.false_ne_true]

@[simp]
theorem trailer_length (stub : Bytes) : (trailer stub).length = DataSection.trailerLength :=
  littleEndian_length _ _

theorem lastBytes_trailer (front stub : Bytes) :
    lastBytes DataSection.trailerLength (front ++ trailer stub) = trailer stub := by
  rw [lastBytes, List.length_append, trailer_length, Nat.add_sub_cancel, List.drop_left]

/-- The trailer tells where the section starts, and the section ends in front of
it. -/
theorem bounds_trailer {platform : Platform} (hplatform : platform ≠ .windows)
    {stub data : Bytes} (hstub : stub.length < UInt64.size) (hdata : data ≠ []) :
    bounds platform (stub ++ data ++ trailer stub) =
      .ok (stub.length, stub.length + data.length) := by
  have hlength : (stub ++ data ++ trailer stub).length =
      stub.length + data.length + DataSection.trailerLength := by
    rw [List.length_append, List.length_append, trailer_length]
  have hlong : ¬(stub ++ data ++ trailer stub).length < DataSection.trailerLength := by
    rw [hlength]
    exact Nat.not_lt.mpr (Nat.le_add_left _ _)
  have hstart : littleEndianValue
      (lastBytes DataSection.trailerLength (stub ++ data ++ trailer stub)) = stub.length := by
    rw [lastBytes_trailer, trailer, littleEndianValue_littleEndian]
    exact Nat.mod_eq_of_lt hstub
  have hlimit : (stub ++ data ++ trailer stub).length - DataSection.trailerLength =
      stub.length + data.length := by
    rw [hlength, Nat.add_sub_cancel]
  have hroom : stub.length < stub.length + data.length :=
    Nat.lt_add_of_pos_right (List.length_pos_of_ne_nil hdata)
  unfold bounds
  simp only [usesSectionTable_eq_false hplatform, Bool.false_eq_true, if_false, if_neg hlong,
    hstart, hlimit, ok_bind]
  rw [if_pos hroom]
  rfl

end Artifact

namespace ArtifactReader

theorem image_eq_ok {reader : ArtifactReader} {system : FileSystem} {image : Bytes}
    (hread : system.read reader.path = .ok image) : reader.image system = .ok image := by
  unfold FileSystem.read at hread
  obtain ⟨⟨location, node⟩, hfind, hnode⟩ := bind_eq_ok_iff.mp hread
  cases node with
  | directory => simp at hnode
  | file content executable =>
      have hcontent : content = image := pure_eq_ok_iff.mp hnode
      rw [ArtifactReader.image, hfind, ← hcontent]

/-- A section with a trailer behind it is found and read. -/
theorem readSection_trailer {reader : ArtifactReader} (hplatform : reader.platform ≠ .windows)
    {stub data : Bytes} {content : DataSection} (hstub : stub.length < UInt64.size)
    (hencode : content.encode = .ok data) (hresources : Records.WithinLimits content.resources) :
    reader.readSection (stub ++ data ++ Artifact.trailer stub) = .ok (stub.length, content) := by
  have hdata := DataSection.ne_nil_of_encode_eq_ok hencode
  refine readSection_eq_ok (Artifact.bounds_trailer hplatform hstub hdata) ?_ hencode hresources
  rw [Nat.add_sub_cancel_left, List.append_assoc, List.drop_left, List.take_left]

end ArtifactReader

namespace BuildPlan

/-- A block that fits into a section is written behind the stub. -/
theorem write_trailer {plan : BuildPlan} {program : ProgramSource} {system : FileSystem}
    {script : Path} {stub bytecode block data : Bytes} (hplatform : plan.platform ≠ .windows)
    (htable : plan.properties.size = EngineProperty.slotCount)
    (hlevel : plan.config.compressionLevel.toNat ≤ maxLevel)
    (hprogram : program.bytecode (!plan.config.debug) = bytecode) (hbytecode : bytecode ≠ [])
    (hsealed : plan.sealed bytecode = .ok block) (hdata : plan.section? block = .ok data)
    (hbuildable : plan.Buildable system script stub) (diagnostics : Diagnostics) :
    ∃ built,
      plan.write system diagnostics program script =
          ((.ok (plan.reportOf script stub
            ⟨data, block.length, (plan.content bytecode).length⟩), diagnostics), built) ∧
        built.read (plan.outputPath script) = .ok (stub ++ data ++ Artifact.trailer stub) := by
  obtain ⟨built, hbuild, hread⟩ := build_eq_ok hbuildable
    (encode_eq_ok htable hlevel hprogram hbytecode hsealed hdata _)
    (Artifact.assemble_trailer hplatform plan.config.console stub data)
  exact ⟨built, write_of_build_eq_ok hbuild diagnostics, hread⟩

/-- The plan with another table and further records. -/
def withContent (plan : BuildPlan) (properties : PropertyTable) (added resources : List Bytes) :
    BuildPlan :=
  { plan with properties, plugins := plan.plugins ++ added, resources }

/-- A program that is packed for a platform without a section table is found again
in the artifact, with all that was packed beside it.  A file is no longer than a
64-bit length can say, and the output leads to another place than the stub. -/
theorem write_then_decode (config : BuildConfig) (cipher : Cipher) (bundledStubs script : Path)
    (table : PropertyTable) (added resources : List Bytes) (bytecode stub : Bytes)
    (system : FileSystem) (diagnostics : Diagnostics) (plan : BuildPlan)
    (hplan : plan = (ofConfig config cipher bundledStubs).withContent table added resources)
    (hplatform : config.targetPlatform ≠ .windows)
    (hlevel : config.compressionLevel.toNat ≤ maxLevel)
    (hcipher : cipher.Lossless) (hbytecode : bytecode ≠ [])
    (htable : table.size = EngineProperty.slotCount)
    (hplugins : Records.WithinLimits
      (config.plugins.map (fun name => name.toUTF8.toList) ++ added))
    (hresources : Records.WithinLimits resources) (hstub : stub.length < UInt64.size)
    (hblock : ∀ block, plan.sealed bytecode = .ok block → block.length < UInt32.size)
    (hbuildable : plan.Buildable system script stub) :
    ∃ block data image report built,
      plan.sealed bytecode = .ok block ∧
        DataSection.encode { resources, block } = .ok data ∧
        image = stub ++ data ++ littleEndian 8 stub.length ∧
        plan.write system diagnostics (.compiled bytecode) script =
          ((.ok report, diagnostics), built) ∧
        report.output = config.targetPlatform.outputPath config.compiledBasename script ∧
        built.read report.output = .ok image ∧
        report.sectionOffset = stub.length ∧
        report.sectionOffset + report.appended = image.length ∧
        (ArtifactReader.mk report.output config.targetPlatform cipher).image built = .ok image ∧
        (ArtifactReader.mk report.output config.targetPlatform cipher).decode image
            EngineProperty.slotCount =
          .ok
            { sectionOffset := stub.length
              blockLength := block.length
              resources
              plugins := config.plugins.map (fun name => name.toUTF8.toList) ++ added
              properties := table
              bytecode } := by
  have hcipherPlan : plan.cipher = cipher := by rw [hplan]; rfl
  have hconfig : plan.config = config := by rw [hplan]; rfl
  have hcontent : plan.content bytecode = Records.encode
      (config.plugins.map (fun name => name.toUTF8.toList) ++ added) ++ table.encode ++
        bytecode := by
    rw [hplan]
    rfl
  have hplatformPlan : plan.platform ≠ .windows := by
    rw [platform, hconfig]
    exact hplatform
  have htablePlan : plan.properties.size = EngineProperty.slotCount := by
    rw [hplan]
    exact htable
  have hlevelPlan : plan.config.compressionLevel.toNat ≤ maxLevel := by
    rw [hconfig]
    exact hlevel
  obtain ⟨block, hencrypt, hdecrypt⟩ := hcipher
    (Compression.compress plan.config.compressionLevel.toNat (plan.content bytecode))
  have hsealed : plan.sealed bytecode = .ok block := by
    rw [sealed, hcipherPlan]
    exact hencrypt
  have hdata := DataSection.encode_eq_ok { resources, block } (hblock block hsealed)
  generalize Records.encode _ ++ _ ++ _ = data at hdata
  have hsection : plan.section? block = .ok data := by
    rw [hplan]
    exact hdata
  obtain ⟨built, hwrite, hread⟩ := write_trailer hplatformPlan htablePlan hlevelPlan
    (show (ProgramSource.compiled bytecode).bytecode _ = bytecode from rfl) hbytecode hsealed
    hsection hbuildable diagnostics
  have hfound : (ArtifactReader.mk (plan.outputPath script) config.targetPlatform
      cipher).readSection (stub ++ data ++ Artifact.trailer stub) =
        .ok (stub.length, { resources, block }) :=
    ArtifactReader.readSection_trailer hplatform hstub hdata hresources
  rw [hcontent] at hdecrypt
  refine ⟨block, data, stub ++ data ++ Artifact.trailer stub, _, built, hsealed, hdata, rfl,
    hwrite, ?_, hread, rfl, ?_, ArtifactReader.image_eq_ok hread, ?_⟩
  · rw [← hconfig]
    rfl
  · rw [List.length_append, List.length_append, Artifact.trailer_length, Nat.add_assoc]
    simp [reportOf, appendedLength, Artifact.usesSectionTable_eq_false hplatformPlan]
  · rw [← htable]
    exact ArtifactReader.decode_eq_ok hfound hdecrypt hplugins

/-- A directory with a stub whose bytes look like a trailer. -/
def trailerLikeStub : FileSystem :=
  ((FileSystem.empty ["work"]).put ["work", "stub"] .directory).put
    ["work", "stub", "launchpack_linux.bin"] (.file (List.replicate 8 0) true)

/-- Settings with one plugin for that stub. -/
def trailerLikeConfig : BuildConfig where
  platform := some .linux
  compressionLevel := 0
  plugins := ["audio"]
  stubDir := some ⟨"stub"⟩

/-- A stub that looks like a trailer is told apart from the trailer. -/
theorem write_then_decode_trailerLike :
    ∃ report built image,
      ((ofConfig trailerLikeConfig .transparent ⟨"bundled"⟩).withContent .baseline [[1, 2]]
          [[3]]).write trailerLikeStub {} (.compiled [9]) ⟨"game.nvgt"⟩ =
          ((.ok report, {}), built) ∧
        built.read report.output = .ok image ∧ report.sectionOffset = 8 ∧
        ∃ blockLength,
          (ArtifactReader.mk report.output .linux .transparent).decode image 41 =
            .ok
              { sectionOffset := 8
                blockLength
                resources := [[3]]
                plugins := ["audio".toUTF8.toList, [1, 2]]
                properties := .baseline
                bytecode := [9] } := by
  obtain ⟨block, data, image, report, built, -, -, -, hwrite, -, hread, hoffset, -, -, hdecode⟩ :=
    write_then_decode trailerLikeConfig .transparent ⟨"bundled"⟩ ⟨"game.nvgt"⟩ .baseline [[1, 2]]
      [[3]] [9] (List.replicate 8 0) trailerLikeStub {}
      ((ofConfig trailerLikeConfig .transparent ⟨"bundled"⟩).withContent .baseline [[1, 2]] [[3]])
      rfl (by decide) (by decide) Cipher.transparent_lossless (by decide) (by decide)
      (by decide +kernel) (by decide +kernel) (by decide)
      (by
        intro block hsealed
        cases hsealed
        decide +kernel)
      ⟨["work", "stub", "launchpack_linux.bin"], true, trailerLikeStub, ["work", "game"],
        rfl, rfl, rfl, by decide⟩
  exact ⟨report, built, image, hwrite, hread, hoffset, block.length, hdecode⟩

end BuildPlan

end ScriptBundle
