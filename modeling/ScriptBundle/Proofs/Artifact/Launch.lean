import ScriptBundle.Artifact.Launch
import ScriptBundle.Proofs.Artifact.Load
import ScriptBundle.Proofs.Artifact.RoundTrip
import ScriptBundle.Proofs.Crypto.RoundTrip
import ScriptBundle.Proofs.Schedule.AlikeRuns

/-!
# Packed programs do what the original does

An artifact holds the program of an engine, without its line cues in a release
build.  Launching the artifact and running the engine end together: both are
interrupted in the same way, or both return with the same exit code and journal.
-/

namespace ScriptBundle

namespace Program

theorem alike_packed (program : Program) (strip : Bool) :
    program.Alike (program.packed strip) := by
  cases strip with
  | true => exact program.alike_stripped
  | false => exact Alike.refl program

end Program

/-- The reader of the artifact that a build made. -/
def BuildReport.reader (report : BuildReport) (cipher : Cipher) : ArtifactReader :=
  ⟨report.output, report.platform, cipher⟩

namespace BuildPlan

/-- A build with authenticated encryption that has room for its block succeeds. -/
theorem write_eq_ok (plan : BuildPlan) (program : ProgramSource) {key nonce : Bytes}
    {system : FileSystem} {script : Path} {stub bytecode : Bytes}
    (hcipher : plan.cipher = .authenticated key nonce) (hplatform : plan.platform ≠ .windows)
    (htable : plan.properties.size = EngineProperty.slotCount)
    (hlevel : plan.config.compressionLevel.toNat ≤ maxLevel)
    (hprogram : program.bytecode (!plan.config.debug) = bytecode) (hbytecode : bytecode ≠ [])
    (hroom : Cipher.nonceLength + (Compression.compress plan.config.compressionLevel.toNat
      (plan.content bytecode)).length + Gcm.tagLength < UInt32.size)
    (hbuildable : plan.Buildable system script stub) (diagnostics : Diagnostics) :
    ∃ encoded built,
      encoded.contentLength = (plan.content bytecode).length ∧
        plan.write system diagnostics program script =
          ((.ok (plan.reportOf script stub encoded), diagnostics), built) := by
  obtain ⟨block, hencrypt, -⟩ := Cipher.authenticated_lossless key nonce
    (Compression.compress plan.config.compressionLevel.toNat (plan.content bytecode))
  have hsealed : plan.sealed bytecode = .ok block := by
    rw [sealed, hcipher]
    exact hencrypt
  have hblock : block.length < UInt32.size := by
    rw [Cipher.authenticated_length key nonce hencrypt]
    exact hroom
  obtain ⟨built, hwrite, -⟩ := write_trailer hplatform htable hlevel hprogram hbytecode hsealed
    (DataSection.encode_eq_ok { resources := plan.resources, block } hblock) hbuildable diagnostics
  exact ⟨_, built, rfl, hwrite⟩

/-- The artifact of a build loads into an engine whose properties can all be set.
The reader has the key of the build; the nonce is found in the block. -/
theorem load_built {plan : BuildPlan} {system built : FileSystem} {program : Program}
    {script : Path} {report : BuildReport} {key nonce : Bytes}
    (hbuild : plan.build system (.script program) script = (.ok report, built))
    (hcipher : plan.cipher = .authenticated key nonce) (hplatform : plan.platform ≠ .windows)
    (hplugins : Records.WithinLimits plan.plugins)
    (hresources : Records.WithinLimits plan.resources)
    (hoffset : report.sectionOffset < UInt64.size) (hlength : report.encodedLength < UInt64.size)
    (nonce' : Bytes) (engine : Engine) (hwritable : engine.properties.readOnly = none)
    (hsize : engine.properties.size = EngineProperty.slotCount) :
    ∃ image loaded,
      (report.reader (.authenticated key nonce')).image built = .ok image ∧
        (report.reader (.authenticated key nonce')).load image engine =
          (.ok loaded,
            { engine with
              properties := ⟨plan.properties.values, none⟩
              program := program.packed (!plan.config.debug) }) := by
  obtain ⟨stub, encoded, image, hencode, hassemble, hread, rfl, -⟩ := read_of_build_eq_ok hbuild
  obtain ⟨htable, -, -, block, data, hsealed, hsection, rfl⟩ := encode_eq_ok_iff.mp hencode
  rw [Artifact.assemble_trailer hplatform, Except.ok.injEq] at hassemble
  obtain ⟨block', hencrypt, hdecrypt⟩ := Cipher.authenticated_decrypt key nonce nonce'
    (Compression.compress plan.config.compressionLevel.toNat
      (plan.content (program.packed (!plan.config.debug)).encode))
  have hblock : block' = block := by
    rw [sealed, hcipher] at hsealed
    exact Except.ok.inj (hencrypt.symm.trans hsealed)
  rw [hblock] at hdecrypt
  have hfound : (ArtifactReader.mk (plan.outputPath script) plan.platform
      (.authenticated key nonce')).readSection (stub ++ data ++ Artifact.trailer stub) =
        .ok (stub.length, { resources := plan.resources, block }) :=
    ArtifactReader.readSection_trailer hplatform hoffset hsection hresources
  rw [hassemble] at hfound
  have hdocument : (program.packed (!plan.config.debug)).document.length < UInt64.size := by
    refine Nat.lt_of_le_of_lt ?_ hlength
    calc (program.packed (!plan.config.debug)).document.length
      _ ≤ (program.packed (!plan.config.debug)).encode.length :=
          Program.document_length_le _
      _ ≤ (plan.content (program.packed (!plan.config.debug)).encode).length := by
          rw [content, List.length_append]
          exact Nat.le_add_left _ _
  exact ⟨image, _, ArtifactReader.image_eq_ok hread,
    ArtifactReader.load_eq_ok hfound hdecrypt hplugins hwritable (hsize.trans htable.symm)
      hdocument⟩

end BuildPlan

namespace Launched

theorem exitCodeOf_eq {first second : Except RunError RunOutcome}
    (hsame : first.toOption = second.toOption) : exitCodeOf first = exitCodeOf second := by
  cases first with
  | error error =>
      cases second with
      | error error' => rfl
      | ok outcome => cases hsame
  | ok outcome =>
      cases second with
      | error error => cases hsame
      | ok outcome' => exact congrArg RunOutcome.exitCode (Option.some.inj hsame)

end Launched

/-- The launch ends like the run of an engine that had the journal `earlier`. -/
def EndsLike (earlier : List String)
    (result : (Except RunError RunOutcome × Diagnostics) × Runner) (launched : Launched) : Prop :=
  launched.exitCode = Launched.exitCodeOf result.1.1 ∧
    result.2.session.engine.journal = earlier ++ launched.engine.journal

namespace ArtifactReader

/-- An engine whose program differs in line cues ends like the original one. -/
theorem runLoaded_alike (reader : ArtifactReader) {engine loaded : Engine}
    (hprogram : engine.program.Alike loaded.program) (hglobals : engine.globalsFailure = none)
    (hglobals' : loaded.globalsFailure = none) (hjournal : loaded.journal = []) (clock : Clock)
    (passes : Nat) (lines wantsCopy : Bool) (diagnostics diagnostics' : Diagnostics)
    (source : String) :
    Matches (EndsLike engine.journal)
      (Runner.run { session := .ofEngine engine lines, clock, wantsCopy } passes diagnostics source)
      (reader.runLoaded loaded clock passes diagnostics') := by
  have hsession : Session.Alike engine.journal (.ofEngine engine lines)
      (.ofEngine loaded false) := by
    refine ⟨hprogram, ⟨hglobals, hglobals'⟩, ?_, rfl⟩
    simp only [Session.ofEngine, hjournal, List.append_nil]
  have halike : Runner.Alike engine.journal
      { session := .ofEngine engine lines, clock, wantsCopy }
      { session := .ofEngine loaded false, clock } :=
    ⟨hsession, rfl, rfl, rfl⟩
  unfold runLoaded
  rcases (Runner.run_alike halike passes diagnostics diagnostics' source
    reader.path.text).cases with
    ⟨interruption, hfirst, hsecond⟩ | ⟨first, second, hfirst, hsecond, hends⟩
  · simp only [hfirst, hsecond]
    rfl
  · simp only [hfirst, hsecond]
    obtain ⟨hresult, hlast⟩ := hends
    exact ⟨(Launched.exitCodeOf_eq hresult).symm, hlast.session.journal⟩

end ArtifactReader

namespace BuildPlan

/-- Packing a program for a platform without a section table does not change what
it does: the launch of the artifact in a fresh engine is interrupted where the run
of the original engine is, and otherwise both return with the same exit code and
the same journal.  The artifact is no longer than 64-bit lengths can say, and a
plugin name no longer than a record may be. -/
theorem write_then_launch (config : PackConfig) (nonce nonce' : Bytes)
    (bundledStubs script : Path) (system built : FileSystem) (diagnostics rest : Diagnostics)
    (engine : Engine) (report : BuildReport)
    (hglobals : engine.globalsFailure = none) (hplatform : config.build.targetPlatform ≠ .windows)
    (hcount : config.build.plugins.length ≤ Records.maxCount)
    (hnames : ∀ name ∈ config.build.plugins, name.toUTF8.toList.length ≤ Records.maxLength)
    (hwrite : (ofSettings config (.authenticated Cipher.defaultKey nonce) bundledStubs).write
      system diagnostics (.script engine.program) script = ((.ok report, rest), built))
    (hoffset : report.sectionOffset < UInt64.size) (hlength : report.encodedLength < UInt64.size)
    (clock : Clock) (passes : Nat) (lines wantsCopy : Bool)
    (running launching : Diagnostics) (source : String) :
    Matches (EndsLike engine.journal)
      (Runner.run { session := .ofEngine engine lines, clock, wantsCopy } passes running source)
      ((report.reader (.authenticated Cipher.defaultKey nonce')).launch built {} clock passes
        launching) := by
  have hplugins : Records.WithinLimits
      (config.build.plugins.map fun name => name.toUTF8.toList) := by
    refine ⟨by rwa [List.length_map], ?_⟩
    intro record hrecord
    obtain ⟨name, hname, rfl⟩ := List.mem_map.mp hrecord
    exact hnames name hname
  have hresources : Records.WithinLimits [] := ⟨Nat.zero_le _, fun _ hrecord => by cases hrecord⟩
  obtain ⟨image, loaded, himage, hload⟩ := load_built (build_of_write_eq hwrite) rfl hplatform
    hplugins hresources hoffset hlength nonce' {} rfl
    (PropertyStore.size_fresh _)
  unfold ArtifactReader.launch ArtifactReader.launchImage
  rw [himage]
  simp only [hload]
  exact ArtifactReader.runLoaded_alike _ (engine.program.alike_packed _) hglobals rfl rfl clock
    passes lines wantsCopy running launching source

/-- An engine whose contexts take turns between line cues. -/
def cuedEngine : Engine where
  program := .ofFunctions true
    [("int main()",
        [.line 1, .spawn "void greet()", .line 2, .yield, .log "done", .finish (.int 3)]),
      ("void greet()", [.line 9, .log "hello"])]
  journal := ["compiled"]

/-- Settings for a build without line cues. -/
def releaseConfig : PackConfig where
  build :=
    { platform := some .linux
      compressionLevel := 0
      debug := false
      plugins := ["audio"]
      stubDir := some ⟨"stub"⟩ }

def releasePlan : BuildPlan :=
  ofSettings releaseConfig (.authenticated Cipher.defaultKey []) ⟨"bundled"⟩

theorem releasePlan_buildable :
    releasePlan.Buildable trailerLikeStub ⟨"game.nvgt"⟩ (List.replicate 8 0) :=
  ⟨["work", "stub", "launchpack_linux.bin"], true, trailerLikeStub, ["work", "game"], rfl, rfl,
    rfl, by decide⟩

/-- The release build of that engine exists, and its launch ends like the engine. -/
theorem write_then_launch_release :
    ∃ report built launched,
      releasePlan.write trailerLikeStub {} (.script cuedEngine.program) ⟨"game.nvgt"⟩ =
          ((.ok report, {}), built) ∧
        (report.reader (.authenticated Cipher.defaultKey [])).launch built {} (.ticking 1000) 10
            {} = .ok launched ∧
        launched.exitCode = 3 ∧ launched.engine.journal = ["globals", "hello", "done"] := by
  obtain ⟨encoded, built, hlength, hwrite⟩ := write_eq_ok releasePlan
    (.script cuedEngine.program) rfl (by decide) (by decide +kernel) (by decide) rfl
    (by decide +kernel) (by decide +kernel) releasePlan_buildable {}
  have hfits : encoded.contentLength < UInt64.size := by
    rw [hlength]
    decide +kernel
  have hoffset : (List.replicate 8 (0 : UInt8)).length < UInt64.size := by decide
  have hmatches := write_then_launch releaseConfig [] [] ⟨"bundled"⟩ ⟨"game.nvgt"⟩ trailerLikeStub
    built {} {} cuedEngine _ rfl (by decide) (by decide) (by decide +kernel) hwrite
    hoffset hfits (.ticking 1000) 10 false false {} {} "game.nvgt"
  obtain ⟨result, hrun, hresult⟩ := exists_eq_ok_of_any
    (Runner.run { session := .ofEngine cuedEngine false, clock := .ticking 1000 } 10 {} "game.nvgt")
    (fun result => Launched.exitCodeOf result.1.1 = 3 ∧
      result.2.session.engine.journal = ["compiled", "globals", "hello", "done"])
    (by decide +kernel)
  obtain ⟨hcode, hjournal⟩ := of_decide_eq_true hresult
  rw [hrun] at hmatches
  rcases hmatches.cases with ⟨interruption, hfirst, -⟩ | ⟨first, launched, hfirst, hlaunch, hends⟩
  · cases hfirst
  · obtain rfl := Except.ok.inj hfirst
    refine ⟨_, built, launched, hwrite, hlaunch, hends.1.trans hcode, ?_⟩
    exact List.append_cancel_left (hends.2.symm.trans hjournal)

end BuildPlan

end ScriptBundle
