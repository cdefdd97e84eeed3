import ScriptBundle.Proofs.Artifact.Block
import ScriptBundle.Proofs.Artifact.Build
import ScriptBundle.Proofs.Artifact.Header
import ScriptBundle.Proofs.Artifact.RoundTrip

/-!
# Artifacts behind a section table read back

A Windows artifact is a stub and the data section, with nothing that tells where
the one ends.  Writer and reader both ask the section table of the stub, the
writer before the section is there and the reader after.
-/

namespace ScriptBundle

open PortableExecutable

namespace Artifact

theorem usesSectionTable_eq_true {platform : Platform} (hplatform : platform = .windows) :
    platform.usesSectionTable = true := by
  rw [hplatform]
  rfl

/-- The parts of an artifact that could be assembled. -/
theorem assemble_sectionTable_eq_ok_iff {platform : Platform} (hplatform : platform = .windows)
    {console : Bool} {stub data image : Bytes} :
    assemble platform console stub data = .ok image ↔
      ∃ front, prepareStub console stub = .ok front ∧ image = front ++ data := by
  rw [assemble, if_pos (usesSectionTable_eq_true hplatform)]
  cases prepareStub console stub with
  | error error => simp
  | ok front => simp [eq_comm]

/-- The check on the end of a stub that is patched already. -/
theorem endMatch_eq_ok_iff {patched front : Bytes} {length : Nat} :
    (do
      let ended ← endOfSections patched
      if ended = length then return patched
      else throw (ImageError.endMismatch ended length)) = .ok front ↔
      endOfSections patched = .ok length ∧ front = patched := by
  constructor
  · intro houtcome
    obtain ⟨ended, hended, houtcome⟩ := bind_eq_ok_iff.mp houtcome
    split at houtcome
    · rename_i hmatch
      exact ⟨hmatch ▸ hended, (pure_eq_ok_iff.mp houtcome).symm⟩
    · exact absurd houtcome (throw_ne_ok _ _)
  · rintro ⟨hended, rfl⟩
    rw [hended, ok_bind, if_pos rfl]
    rfl

/-- Without the console patch, the stub with its signature has to end where its
section table says. -/
theorem prepareStub_eq_ok_iff {stub front : Bytes} :
    prepareStub false stub = .ok front ↔
      endOfSections (restoreSignature stub) = .ok stub.length ∧ front = restoreSignature stub :=
  endMatch_eq_ok_iff

/-- With it, the patched stub has to end where the stub ended before. -/
theorem prepareStub_console_eq_ok_iff {stub front : Bytes} :
    prepareStub true stub = .ok front ↔
      ∃ field, setConsoleSubsystem (restoreSignature stub) = .ok (field, front) ∧
        endOfSections front = .ok stub.length := by
  simp only [prepareStub, if_true]
  cases setConsoleSubsystem (restoreSignature stub) with
  | error error => simp
  | ok result =>
      refine endMatch_eq_ok_iff.trans ⟨?_, ?_⟩
      · rintro ⟨hended, rfl⟩
        exact ⟨result.1, rfl, hended⟩
      · rintro ⟨field, hresult, hended⟩
        obtain rfl := Except.ok.inj hresult
        exact ⟨hended, rfl⟩

/-- The section table of a stub that passed says the length of the stub. -/
theorem endOfSections_of_prepareStub_eq_ok {console : Bool} {stub front : Bytes}
    (hprepare : prepareStub console stub = .ok front) :
    endOfSections front = .ok stub.length := by
  cases console with
  | false =>
      obtain ⟨hended, rfl⟩ := prepareStub_eq_ok_iff.mp hprepare
      exact hended
  | true =>
      obtain ⟨field, -, hended⟩ := prepareStub_console_eq_ok_iff.mp hprepare
      exact hended

/-- A stub that passed has a header once its signature is back. -/
theorem exists_headerOffset_of_prepareStub_eq_ok {console : Bool} {stub front : Bytes}
    (hprepare : prepareStub console stub = .ok front) :
    ∃ offset, headerOffset (restoreSignature stub) = .ok offset := by
  cases console with
  | false =>
      obtain ⟨hended, -⟩ := prepareStub_eq_ok_iff.mp hprepare
      exact exists_headerOffset_of_endOfSections_eq_ok hended
  | true =>
      obtain ⟨field, hpatch, -⟩ := prepareStub_console_eq_ok_iff.mp hprepare
      obtain ⟨offset, hoffset, -⟩ := exists_of_setConsoleSubsystem_eq_ok hpatch
      exact ⟨offset, hoffset⟩

/-- Its header lies behind its signature, so restoring the signature does not make
it longer. -/
theorem two_le_length_of_prepareStub_eq_ok {console : Bool} {stub front : Bytes}
    (hprepare : prepareStub console stub = .ok front) : 2 ≤ stub.length := by
  obtain ⟨offset, hoffset⟩ := exists_headerOffset_of_prepareStub_eq_ok hprepare
  obtain ⟨hlong, -⟩ := length_of_headerOffset_eq_ok hoffset
  rw [length_restoreSignature, headerPointerOffset] at hlong
  omega

/-- The reader starts where the section table in front of the data says. -/
theorem bounds_of_endOfSections {platform : Platform} (hplatform : platform = .windows)
    {front data : Bytes} {ended : Nat} (hended : endOfSections front = .ok ended)
    (hroom : ended < front.length + data.length) :
    bounds platform (front ++ data) = .ok (ended, front.length + data.length) := by
  unfold bounds
  simp only [usesSectionTable_eq_true hplatform, if_true,
    settled_endOfSections.eq_ok hended data, List.length_append, ok_bind]
  rw [if_pos hroom]
  rfl

/-- The section starts where the section table in front of it ends. -/
theorem bounds_sectionTable {platform : Platform} (hplatform : platform = .windows)
    {front data : Bytes} (hended : endOfSections front = .ok front.length) (hdata : data ≠ []) :
    bounds platform (front ++ data) = .ok (front.length, front.length + data.length) :=
  bounds_of_endOfSections hplatform hended
    (Nat.lt_add_of_pos_right (List.length_pos_of_ne_nil hdata))

/-- The restored stub is as long as the stub, so the section starts at its length. -/
theorem bounds_restoreSignature {platform : Platform} (hplatform : platform = .windows)
    {stub data : Bytes} (hlong : 2 ≤ stub.length)
    (hended : endOfSections (restoreSignature stub) = .ok stub.length) (hdata : data ≠ []) :
    bounds platform (restoreSignature stub ++ data) =
      .ok (stub.length, stub.length + data.length) := by
  have hlength : (restoreSignature stub).length = stub.length := by
    rw [length_restoreSignature, Nat.max_eq_left hlong]
  rw [← hlength] at hended ⊢
  exact bounds_sectionTable hplatform hended hdata

/-- Behind the section table there is the whole section. -/
theorem take_drop_append (front data : Bytes) :
    ((front ++ data).drop front.length).take (front.length + data.length - front.length) =
      data := by
  rw [List.drop_left, Nat.add_sub_cancel_left, List.take_length]

/-- An assembled image that is as long as its parts has its section behind the stub. -/
theorem bounds_assemble {platform : Platform} {console : Bool} {stub data image : Bytes}
    (hassemble : assemble platform console stub data = .ok image)
    (hlength : stub.length + (data.length +
      (if platform.usesSectionTable then 0 else DataSection.trailerLength)) = image.length)
    (hstub : stub.length < UInt64.size) (hdata : data ≠ []) :
    bounds platform image = .ok (stub.length, stub.length + data.length) ∧
      (image.drop stub.length).take (stub.length + data.length - stub.length) = data := by
  by_cases hplatform : platform = .windows
  · obtain ⟨front, hprepare, rfl⟩ := (assemble_sectionTable_eq_ok_iff hplatform).mp hassemble
    rw [usesSectionTable_eq_true hplatform, if_pos rfl, List.length_append] at hlength
    have hfront : front.length = stub.length := by omega
    have hended := endOfSections_of_prepareStub_eq_ok hprepare
    rw [← hfront] at hended ⊢
    exact ⟨bounds_sectionTable hplatform hended hdata, take_drop_append front data⟩
  · rw [assemble_trailer hplatform, Except.ok.injEq] at hassemble
    rw [← hassemble]
    refine ⟨bounds_trailer hplatform hstub hdata, ?_⟩
    rw [List.append_assoc, List.drop_left, Nat.add_sub_cancel_left, List.take_left]

end Artifact

namespace BuildPlan

/-- A Windows build that succeeded put the section behind its stub, as it was
prepared. -/
theorem exists_of_build_sectionTable {plan : BuildPlan} {system built : FileSystem}
    {program : ProgramSource} {script : Path} {report : BuildReport}
    (hplatform : plan.platform = .windows)
    (hbuild : plan.build system program script = (.ok report, built)) :
    ∃ stub encoded front,
      plan.Buildable system script stub ∧
        plan.encode program (plan.outputPath script) = .ok encoded ∧
        Artifact.prepareStub plan.config.console stub = .ok front ∧
        built.read (plan.outputPath script) = .ok (front ++ encoded.data) ∧
        report = plan.reportOf script stub encoded := by
  obtain ⟨stub, encoded, image, hencode, hassemble, hread, hreport, hnamed⟩ :=
    read_of_build_eq_ok hbuild
  obtain ⟨front, hprepare, rfl⟩ := (Artifact.assemble_sectionTable_eq_ok_iff hplatform).mp hassemble
  have hstub : stub ≠ [] := by
    rintro rfl
    have hlong := Artifact.two_le_length_of_prepareStub_eq_ok hprepare
    simp at hlong
  exact ⟨stub, encoded, front, hnamed hstub, hencode, hprepare, hread, hreport⟩

/-- Without the console patch, it is the stub with its signature. -/
theorem read_of_build_restored {plan : BuildPlan} {system built : FileSystem}
    {program : ProgramSource} {script : Path} {report : BuildReport} {stub : Bytes}
    {encoded : Encoded} (hplatform : plan.platform = .windows)
    (hconsole : plan.config.console = false) (hbuildable : plan.Buildable system script stub)
    (hencode : plan.encode program (plan.outputPath script) = .ok encoded)
    (hbuild : plan.build system program script = (.ok report, built)) :
    2 ≤ stub.length ∧ endOfSections (restoreSignature stub) = .ok stub.length ∧
      built.read (plan.outputPath script) = .ok (restoreSignature stub ++ encoded.data) ∧
      report = plan.reportOf script stub encoded := by
  obtain ⟨other, encoded', front, hother, hencoded, hprepare, hread, hreport⟩ :=
    exists_of_build_sectionTable hplatform hbuild
  obtain rfl := hbuildable.stub_eq hother
  obtain rfl := Except.ok.inj (hencode.symm.trans hencoded)
  rw [hconsole] at hprepare
  obtain ⟨hended, rfl⟩ := Artifact.prepareStub_eq_ok_iff.mp hprepare
  exact ⟨Artifact.two_le_length_of_prepareStub_eq_ok hprepare, hended, hread, hreport⟩

/-- A stub that can be prepared is built from, and the section stands right behind it. -/
theorem write_of_prepareStub {plan : BuildPlan} {system : FileSystem} {program : ProgramSource}
    {script : Path} {stub front : Bytes} {encoded : Encoded} (hplatform : plan.platform = .windows)
    (hbuildable : plan.Buildable system script stub)
    (hencode : plan.encode program (plan.outputPath script) = .ok encoded)
    (hprepare : Artifact.prepareStub plan.config.console stub = .ok front)
    (diagnostics : Diagnostics) :
    ∃ built,
      plan.write system diagnostics program script =
          ((.ok (plan.reportOf script stub encoded), diagnostics), built) ∧
        built.read (plan.outputPath script) = .ok (front ++ encoded.data) := by
  obtain ⟨built, hbuild, hread⟩ := build_eq_ok hbuildable hencode
    ((Artifact.assemble_sectionTable_eq_ok_iff hplatform).mpr ⟨_, hprepare, rfl⟩)
  exact ⟨built, write_of_build_eq_ok hbuild diagnostics, hread⟩

/-- A program that is packed for Windows without a console is found again.  The
build succeeds just for the stubs whose section table, read behind the restored
signature, ends where the stub does, and then the artifact is that stub and the
section.  The output leads to another place than the stub. -/
theorem write_then_decode_sectionTable (plan : BuildPlan) (program : ProgramSource)
    (system : FileSystem) (diagnostics : Diagnostics) (script : Path) (stub bytecode : Bytes)
    (hplatform : plan.platform = .windows) (hconsole : plan.config.console = false)
    (hlevel : plan.config.compressionLevel.toNat ≤ maxLevel) (hcipher : plan.cipher.Lossless)
    (htable : plan.properties.size = EngineProperty.slotCount)
    (hprogram : program.bytecode (!plan.config.debug) = bytecode) (hbytecode : bytecode ≠ [])
    (hplugins : Records.WithinLimits plan.plugins)
    (hresources : Records.WithinLimits plan.resources)
    (hblock : ∀ block, plan.sealed bytecode = .ok block → block.length < UInt32.size)
    (hbuildable : plan.Buildable system script stub) :
    ((∃ report built,
        plan.write system diagnostics program script = ((.ok report, diagnostics), built)) ↔
      2 ≤ stub.length ∧ endOfSections (fileSignature ++ stub.drop 2) = .ok stub.length) ∧
    ∀ report rest built,
      plan.write system diagnostics program script = ((.ok report, rest), built) →
      ∃ block data image,
        plan.sealed bytecode = .ok block ∧
          DataSection.encode { resources := plan.resources, block } = .ok data ∧
          image = fileSignature ++ stub.drop 2 ++ data ∧
          report.output = plan.outputPath script ∧
          built.read report.output = .ok image ∧
          report.sectionOffset = stub.length ∧
          report.sectionOffset + report.appended = image.length ∧
          (ArtifactReader.mk report.output .windows plan.cipher).image built = .ok image ∧
          stub.length < image.length ∧
          (ArtifactReader.mk report.output .windows plan.cipher).locate image =
            .ok stub.length ∧
          (ArtifactReader.mk report.output .windows plan.cipher).decode image
              EngineProperty.slotCount =
            .ok
              { sectionOffset := stub.length
                blockLength := block.length
                resources := plan.resources
                plugins := plan.plugins
                properties := plan.properties
                bytecode } := by
  obtain ⟨block, hsealed, hdecrypt⟩ := hcipher
    (Compression.compress plan.config.compressionLevel.toNat (plan.content bytecode))
  obtain ⟨data, hdata⟩ : ∃ data, plan.section? block = .ok data :=
    ⟨_, DataSection.encode_eq_ok { resources := plan.resources, block } (hblock block hsealed)⟩
  have hencode := encode_eq_ok htable hlevel hprogram hbytecode hsealed hdata
    (plan.outputPath script)
  have hnonempty := DataSection.ne_nil_of_encode_eq_ok hdata
  rw [← restoreSignature_eq]
  refine ⟨⟨?_, ?_⟩, ?_⟩
  · rintro ⟨report, built, hwrite⟩
    obtain ⟨hlong, hended, -⟩ := read_of_build_restored hplatform hconsole hbuildable hencode
      (build_of_write_eq hwrite)
    exact ⟨hlong, hended⟩
  · rintro ⟨-, hended⟩
    have hprepare : Artifact.prepareStub plan.config.console stub =
        .ok (restoreSignature stub) := by
      rw [hconsole]
      exact Artifact.prepareStub_eq_ok_iff.mpr ⟨hended, rfl⟩
    obtain ⟨built, hbuild, -⟩ := build_eq_ok hbuildable hencode
      ((Artifact.assemble_sectionTable_eq_ok_iff hplatform).mpr ⟨_, hprepare, rfl⟩)
    exact ⟨_, built, write_of_build_eq_ok hbuild diagnostics⟩
  · intro report rest built hwrite
    obtain ⟨hlong, hended, hread, rfl⟩ := read_of_build_restored hplatform hconsole hbuildable
      hencode (build_of_write_eq hwrite)
    have hlength : (restoreSignature stub ++ data).length = stub.length + data.length := by
      rw [List.length_append, length_restoreSignature, Nat.max_eq_left hlong]
    have hbounds := Artifact.bounds_restoreSignature (rfl : Platform.windows = .windows) hlong
      hended hnonempty
    have hfound : (ArtifactReader.mk (plan.outputPath script) .windows plan.cipher).readSection
        (restoreSignature stub ++ data) =
          .ok (stub.length, { resources := plan.resources, block }) := by
      refine ArtifactReader.readSection_eq_ok hbounds ?_ hdata hresources
      rw [← Nat.max_eq_left hlong, ← length_restoreSignature]
      exact Artifact.take_drop_append _ data
    have hdecode := ArtifactReader.decode_eq_ok hfound hdecrypt hplugins
    rw [htable] at hdecode
    refine ⟨block, data, restoreSignature stub ++ data, hsealed, hdata, rfl, rfl, hread, rfl, ?_,
      ArtifactReader.image_eq_ok hread, ?_, ?_, hdecode⟩
    · simp [reportOf, appendedLength, Artifact.usesSectionTable_eq_true hplatform, hlength]
    · rw [hlength]
      exact Nat.lt_add_of_pos_right (List.length_pos_of_ne_nil hnonempty)
    · rw [ArtifactReader.locate, ArtifactReader.bounds, hbounds]
      rfl

/-- A stub of one section that starts with the file and ends with the section
table.  It has no optional header, and its signature is cleared. -/
def bareStub : Bytes :=
  List.replicate 60 0 ++ littleEndian 4 64 ++ littleEndian 4 headerSignature ++
    (List.replicate 2 0 ++ littleEndian 2 1 ++ List.replicate 16 0) ++
    (List.replicate 16 0 ++ littleEndian 4 128 ++ List.replicate 20 0)

/-- A directory with that stub. -/
def bareFiles : FileSystem :=
  ((FileSystem.empty ["work"]).put ["work", "stub"] .directory).put
    ["work", "stub", "launchpack_windows.bin"] (.file bareStub false)

/-- A Windows plan for that stub. -/
def barePlan : BuildPlan where
  config :=
    { platform := some .windows
      compressionLevel := 0
      stubDir := some ⟨"stub"⟩ }
  cipher := .transparent
  bundledStubs := ⟨"bundled"⟩
  plugins := ["audio".toUTF8.toList]
  resources := [[3]]

theorem barePlan_buildable : barePlan.Buildable bareFiles ⟨"game.nvgt"⟩ bareStub :=
  ⟨["work", "stub", "launchpack_windows.bin"], false, bareFiles, ["work", "game.exe"], rfl, rfl,
    rfl, by decide⟩

/-- The stub is built from, and what was packed is read back. -/
theorem write_then_decode_sectionTable_bare :
    ∃ report built image blockLength,
      barePlan.write bareFiles {} (.compiled [9]) ⟨"game.nvgt"⟩ =
          ((.ok report, {}), built) ∧
        built.read report.output = .ok image ∧ image.take 2 = fileSignature ∧
        (ArtifactReader.mk report.output .windows .transparent).locate image = .ok 128 ∧
        (ArtifactReader.mk report.output .windows .transparent).decode image 41 =
          .ok
            { sectionOffset := 128
              blockLength
              resources := [[3]]
              plugins := ["audio".toUTF8.toList]
              properties := .baseline
              bytecode := [9] } := by
  obtain ⟨hwritten, hread⟩ := write_then_decode_sectionTable barePlan (.compiled [9])
    bareFiles {} ⟨"game.nvgt"⟩ bareStub [9] rfl rfl (by decide) Cipher.transparent_lossless
    (by decide) rfl (by decide) (by decide +kernel) (by decide)
    (by
      intro block hsealed
      cases hsealed
      decide +kernel)
    barePlan_buildable
  obtain ⟨report, built, hwrite⟩ := hwritten.mpr (by decide +kernel)
  obtain ⟨block, data, image, -, -, himage, -, hfile, -, -, -, -, hlocate, hdecode⟩ :=
    hread report {} built hwrite
  refine ⟨report, built, image, block.length, hwrite, hfile, ?_, hlocate, hdecode⟩
  rw [himage, List.append_assoc]
  rfl

end BuildPlan

end ScriptBundle
