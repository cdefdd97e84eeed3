import ScriptBundle.Proofs.Artifact.Ending
import ScriptBundle.Proofs.Layout.RoundTrip

/-!
# What a build leaves at its output

A build succeeds as soon as its content can be encoded, its stub can be read and
its output can be written in another place.  Whenever one succeeds, its output is
the assembled image of some stub and the encoded content.
-/

namespace ScriptBundle.BuildPlan

/-- The block before its length is known to fit. -/
def sealed (plan : BuildPlan) (bytecode : Bytes) : Except CipherError Bytes :=
  plan.cipher.encrypt
    (Compression.compress plan.config.compressionLevel.toNat (plan.content bytecode))

/-- The data section around a block. -/
def section? (plan : BuildPlan) (block : Bytes) : Except Nat Bytes :=
  DataSection.encode { resources := plan.resources, block }

theorem create_eq_ok_iff {level : Nat} {cipher : Cipher} {writer : BlockWriter} :
    BlockWriter.create level cipher = .ok writer ↔
      ∃ hlevel : level < maxLevel + 1, writer = ⟨⟨level, hlevel⟩, cipher, []⟩ := by
  unfold BlockWriter.create
  split
  · rename_i hlevel
    rw [Except.ok.injEq]
    exact ⟨fun hwriter => ⟨hlevel, hwriter.symm⟩, fun ⟨_, hwriter⟩ => hwriter.symm⟩
  · rename_i hlevel
    simp [hlevel]

/-- The conditions under which the content of a plan can be encoded, and what it
comes to. -/
theorem encode_eq_ok_iff {plan : BuildPlan} {program : ProgramSource} {output : Path}
    {encoded : Encoded} :
    plan.encode program output = .ok encoded ↔
      plan.properties.size = EngineProperty.slotCount ∧
        plan.config.compressionLevel.toNat ≤ maxLevel ∧
        program.bytecode (!plan.config.debug) ≠ [] ∧
        ∃ block data, plan.sealed (program.bytecode (!plan.config.debug)) = .ok block ∧
          plan.section? block = .ok data ∧
          encoded = ⟨data, block.length,
            (plan.content (program.bytecode (!plan.config.debug))).length⟩ := by
  unfold encode
  constructor
  · intro hencode
    split at hencode
    · simp at hencode
    · rename_i hsize
      obtain ⟨writer, hwriter, hencode⟩ := bind_eq_ok_iff.mp hencode
      obtain ⟨hlevel, rfl⟩ := create_eq_ok_iff.mp (mapError_eq_ok_iff.mp hwriter)
      simp only at hencode
      split at hencode
      · simp at hencode
      · rename_i hbytecode
        obtain ⟨block, hblock, hencode⟩ := bind_eq_ok_iff.mp hencode
        obtain ⟨data, hdata, hencode⟩ := bind_eq_ok_iff.mp hencode
        have hsealed := mapError_eq_ok_iff.mp (mapError_eq_ok_iff.mp hblock)
        exact ⟨not_ne_iff.mp hsize, Nat.le_of_lt_succ hlevel, hbytecode, block, data, hsealed,
          mapError_eq_ok_iff.mp hdata, (pure_eq_ok_iff.mp hencode).symm⟩
  · rintro ⟨hsize, hlevel, hbytecode, block, data, hsealed, hdata, rfl⟩
    have hwriter : BlockWriter.create plan.config.compressionLevel.toNat plan.cipher = .ok _ :=
      create_eq_ok_iff.mpr ⟨Nat.lt_succ_of_le hlevel, rfl⟩
    have hfinish : (BlockWriter.write ⟨⟨plan.config.compressionLevel.toNat,
        Nat.lt_succ_of_le hlevel⟩, plan.cipher, []⟩
          (plan.content (program.bytecode !plan.config.debug))).finish = .ok block :=
      mapError_eq_ok_iff.mpr hsealed
    rw [if_neg (not_ne_iff.mpr hsize), hwriter]
    simp only [mapError_ok, ok_bind]
    rw [if_neg hbytecode, hfinish]
    simp only [mapError_ok, ok_bind]
    rw [section?] at hdata
    rw [hdata]
    rfl

/-- A program with a block that fits into a section can be encoded. -/
theorem encode_eq_ok {plan : BuildPlan} {program : ProgramSource} {bytecode block data : Bytes}
    (htable : plan.properties.size = EngineProperty.slotCount)
    (hlevel : plan.config.compressionLevel.toNat ≤ maxLevel)
    (hprogram : program.bytecode (!plan.config.debug) = bytecode) (hbytecode : bytecode ≠ [])
    (hsealed : plan.sealed bytecode = .ok block) (hdata : plan.section? block = .ok data)
    (output : Path) :
    plan.encode program output = .ok ⟨data, block.length, (plan.content bytecode).length⟩ := by
  rw [← hprogram] at hbytecode hsealed ⊢
  exact encode_eq_ok_iff.mpr ⟨htable, hlevel, hbytecode, block, data, hsealed, hdata, rfl⟩

/-- The stub can be read, and the output can be written in another place. -/
def Buildable (plan : BuildPlan) (system : FileSystem) (script : Path) (stub : Bytes) : Prop :=
  ∃ origin executable prepared destination,
    system.find plan.stubPath = .ok (origin, .file stub executable) ∧
      makeDirectory system (plan.outputPath script) = (.ok (), prepared) ∧
      prepared.locateForWriting (plan.outputPath script) = .ok destination ∧
      destination ≠ origin

/-- A build that can be carried out leaves the assembled image. -/
theorem build_eq_ok {plan : BuildPlan} {system : FileSystem} {program : ProgramSource}
    {script : Path} {stub image : Bytes} {encoded : Encoded}
    (hbuildable : plan.Buildable system script stub)
    (hencode : plan.encode program (plan.outputPath script) = .ok encoded)
    (hassemble : Artifact.assemble plan.platform plan.config.console stub encoded.data =
      .ok image) :
    ∃ built, plan.build system program script = (.ok (plan.reportOf script stub encoded), built) ∧
      built.read (plan.outputPath script) = .ok image := by
  obtain ⟨origin, executable, prepared, destination, hstub, hprepared, hwritable, hdistinct⟩ :=
    hbuildable
  have hcopies : plan.Copies system program script encoded prepared origin stub destination :=
    ⟨hencode, hprepared, ⟨executable, hstub⟩, hwritable⟩
  have hcopied : copiedStub origin destination stub = stub := if_neg hdistinct
  have hbuild := hcopies.build_eq
  simp only [hcopied, hassemble] at hbuild
  exact ⟨_, hbuild, FileSystem.read_eq_ok (FileSystem.find_put hwritable _)⟩

/-- A copy of the stub that is not empty was made in another place. -/
theorem Copies.buildable {plan : BuildPlan} {system prepared : FileSystem}
    {program : ProgramSource} {script : Path} {encoded : Encoded} {origin location : Location}
    {content : Bytes}
    (hcopies : plan.Copies system program script encoded prepared origin content location)
    (hstub : copiedStub origin location content ≠ []) :
    plan.Buildable system script (copiedStub origin location content) := by
  have hdistinct : location ≠ origin := fun hself => hstub (if_pos hself)
  have hcopied : copiedStub origin location content = content := if_neg hdistinct
  obtain ⟨executable, hfind⟩ := hcopies.stub
  rw [hcopied]
  exact ⟨origin, executable, prepared, location, hfind, hcopies.directory, hcopies.output,
    hdistinct⟩

/-- The output of a build that succeeded is an assembled image.  If its stub is not
empty, it is the one that the plan names. -/
theorem read_of_build_eq_ok {plan : BuildPlan} {system built : FileSystem}
    {program : ProgramSource} {script : Path} {report : BuildReport}
    (hbuild : plan.build system program script = (.ok report, built)) :
    ∃ stub encoded image,
      plan.encode program (plan.outputPath script) = .ok encoded ∧
        Artifact.assemble plan.platform plan.config.console stub encoded.data = .ok image ∧
        built.read (plan.outputPath script) = .ok image ∧
        report = plan.reportOf script stub encoded ∧
        (stub ≠ [] → plan.Buildable system script stub) := by
  have hends := plan.build_ends system program script
  rw [hbuild] at hends
  cases hends with
  | done hcopies hassemble =>
      exact ⟨_, _, _, hcopies.encode, hassemble,
        FileSystem.read_eq_ok (FileSystem.find_put hcopies.output _), rfl, hcopies.buildable⟩

/-- Only one stub is built from. -/
theorem Buildable.stub_eq {plan : BuildPlan} {system : FileSystem} {script : Path}
    {stub other : Bytes} (hstub : plan.Buildable system script stub)
    (hother : plan.Buildable system script other) : stub = other := by
  obtain ⟨origin, executable, -, -, hfind, -⟩ := hstub
  obtain ⟨origin', executable', -, -, hfind', -⟩ := hother
  rw [hfind] at hfind'
  cases hfind'
  rfl

theorem write_of_build_eq_ok {plan : BuildPlan} {system built : FileSystem}
    {program : ProgramSource} {script : Path} {report : BuildReport}
    (hbuild : plan.build system program script = (.ok report, built)) (diagnostics : Diagnostics) :
    plan.write system diagnostics program script = ((.ok report, diagnostics), built) := by
  delta write
  rw [hbuild]

/-- Telling a failure to the diagnostics does not change the outcome or the files. -/
theorem build_of_write_eq {plan : BuildPlan} {system after : FileSystem}
    {diagnostics rest : Diagnostics} {program : ProgramSource} {script : Path}
    {outcome : Except BuildError BuildReport}
    (hwrite : plan.write system diagnostics program script = ((outcome, rest), after)) :
    plan.build system program script = (outcome, after) := by
  delta write at hwrite
  generalize plan.build system program script = result at hwrite ⊢
  obtain ⟨built, final⟩ := result
  cases built with
  | error error =>
      cases hwrite
      rfl
  | ok report =>
      cases hwrite
      rfl

end ScriptBundle.BuildPlan
