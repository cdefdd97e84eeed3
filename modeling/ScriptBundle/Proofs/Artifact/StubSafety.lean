import ScriptBundle.Proofs.Artifact.Build
import ScriptBundle.Proofs.Files.Naming

/-!
# What becomes of the stub

A build reads its stub and writes its output.  The stub stays as it is, unless the output
path leads to the stub: then it is emptied by its own copy, and what is left in its place
is the data section without a stub.  On Windows the two have different names.
-/

namespace ScriptBundle

namespace BuildPlan

variable {plan : BuildPlan} {system after : FileSystem} {diagnostics rest : Diagnostics}
  {program : ProgramSource} {script : Path}

/-! ## Names of stubs and outputs -/

theorem text_stubPath (plan : BuildPlan) :
    ∃ front, plan.stubPath.text.toList = front ++ ".bin".toList := by
  obtain ⟨before, hname⟩ : ∃ before,
      plan.platform.stubFileName plan.config.stubVariant = before ++ ".bin" := by
    unfold Platform.stubFileName
    split <;> exact ⟨_, rfl⟩
  obtain ⟨front, hfront⟩ := Path.text_join (plan.config.stubDir.getD plan.bundledStubs)
    ⟨plan.platform.stubFileName plan.config.stubVariant⟩
  refine ⟨front ++ before.toList, hfront.trans ?_⟩
  rw [hname, String.toList_append, List.append_assoc]

/-- A Windows artifact is not in the place of a stub. -/
theorem ne_of_locate_stubPath {location origin : Location} (hplatform : plan.platform = .windows)
    (hwritable : system.locateForWriting (plan.outputPath script) = .ok location)
    (hstub : system.locate plan.stubPath = .ok origin) : location ≠ origin := by
  obtain ⟨hends, hlocate, -⟩ := FileSystem.locateForWriting_eq_ok_iff.mp hwritable
  obtain ⟨chosen, houtput⟩ : ∃ chosen, plan.outputPath script = Path.withExtension chosen "exe" :=
    ⟨_, if_pos hplatform⟩
  rw [houtput] at hends
  obtain ⟨front, hexe⟩ := FileSystem.text_withExtension hends
  rw [← houtput] at hexe
  obtain ⟨before, hbin⟩ := plan.text_stubPath
  obtain ⟨above, last, rfl⟩ :=
    FileSystem.exists_of_locate_of_text (by decide) (by decide) hexe hlocate
  obtain ⟨above', last', rfl⟩ :=
    FileSystem.exists_of_locate_of_text (by decide) (by decide) hbin hstub
  intro hsame
  have hnames := congrArg List.getLast? hsame
  simp only [List.getLast?_append, List.getLast?_singleton, Option.some_or, Option.some.injEq,
    String.ofList_inj] at hnames
  have hlast := congrArg List.getLast? hnames
  simp at hlast

/-! ## The stub after a build -/

/-- A build gets as far as to write its output, and the output path leads to the stub. -/
structure ReplacesStub (plan : BuildPlan) (system : FileSystem) (program : ProgramSource)
    (script : Path) (encoded : Encoded) : Prop where
  encode : plan.encode program (plan.outputPath script) = .ok encoded
  output : ∃ prepared location,
    makeDirectory system (plan.outputPath script) = (.ok (), prepared) ∧
      prepared.locateForWriting (plan.outputPath script) = .ok location ∧
      system.locate plan.stubPath = .ok location

section Built

variable {outcome : Except BuildError BuildReport} {encoded : Encoded} {origin : Location}
  {stub : Bytes} {executable : Bool}
  (hstub : system.find plan.stubPath = .ok (origin, .file stub executable))

include hstub

theorem find_makeDirectory (output : Path) :
    (makeDirectory system output).2.find plan.stubPath =
      .ok (origin, .file stub executable) :=
  (grows_makeDirectory system output).find_eq_ok hstub

/-- The place of the output is not the place of the stub. -/
theorem Copies.ne_of_not_replacesStub {prepared : FileSystem} {found location : Location}
    {content : Bytes}
    (hcopies : plan.Copies system program script encoded prepared found content location)
    (hother : ∀ encoded, ¬ plan.ReplacesStub system program script encoded) :
    location ≠ origin := by
  rintro rfl
  apply hother encoded
  exact
    { encode := hcopies.encode
      output := ⟨prepared, location, hcopies.directory, hcopies.output,
        (FileSystem.find_eq_ok_iff.mp hstub).1⟩ }

/-- Writing to another place leaves the stub and its mode alone, and so does a build that
ends before it writes. -/
theorem find_of_not_replacesStub
    (hbuild : plan.build system program script = (outcome, after))
    (hother : ∀ encoded, ¬ plan.ReplacesStub system program script encoded) :
    after.find plan.stubPath = .ok (origin, .file stub executable) := by
  have hends := plan.build_ends system program script
  have hprepared := find_makeDirectory hstub (plan.outputPath script)
  rw [hbuild] at hends
  cases hends with
  | early => exact hstub
  | directory hmake | copy hmake =>
      rw [hmake] at hprepared
      exact hprepared
  | patch hcopies =>
      have hne := hcopies.ne_of_not_replacesStub hstub hother
      rw [hcopies.directory] at hprepared
      exact FileSystem.find_erase_of_ne hcopies.output hprepared hne
  | done hcopies =>
      have hne := hcopies.ne_of_not_replacesStub hstub hother
      rw [hcopies.directory] at hprepared
      exact FileSystem.find_put_of_ne hcopies.output hprepared hne _

/-- A build onto its own stub copies nothing, and it succeeds. -/
theorem build_of_replacesStub (hreplaces : plan.ReplacesStub system program script encoded) :
    plan.platform ≠ .windows ∧ ∃ after,
      plan.build system program script = (.ok (plan.reportOf script [] encoded), after) ∧
        after.find plan.stubPath =
          .ok (origin, .file (encoded.data ++ Artifact.trailer []) true) := by
  obtain ⟨prepared, location, hmake, hwritable, hlocate⟩ := hreplaces.output
  obtain rfl : location = origin := by
    rw [(FileSystem.find_eq_ok_iff.mp hstub).1] at hlocate
    exact (Except.ok.inj hlocate).symm
  have hfind := find_makeDirectory hstub (plan.outputPath script)
  rw [hmake] at hfind
  have hprepared := (FileSystem.find_eq_ok_iff.mp hfind).1
  have hplatform : plan.platform ≠ .windows := fun hplatform =>
    ne_of_locate_stubPath hplatform hwritable hprepared rfl
  have hcopies : plan.Copies system program script encoded prepared location stub location :=
    ⟨hreplaces.encode, hmake, ⟨executable, hstub⟩, hwritable⟩
  have hassemble : Artifact.assemble plan.platform plan.config.console [] encoded.data =
      .ok (encoded.data ++ Artifact.trailer []) := by
    simp [Artifact.assemble, Platform.usesSectionTable, hplatform]
  have hcopied : copiedStub location location stub = [] := if_pos rfl
  have hbuild := hcopies.build_eq
  simp only [hcopied, hassemble] at hbuild
  exact ⟨hplatform, _, hbuild, FileSystem.find_put_of_locate hwritable hprepared _⟩

/-- The stub consists of the same bytes after a build, whatever its outcome, unless the
output path leads to it.  In that case, which Windows excludes, the build reports success
and leaves the data section and the length of an empty stub in its place. -/
theorem write_then_read_stub
    (hwrite : plan.write system diagnostics program script = ((outcome, rest), after)) :
    (after.read plan.stubPath = .ok stub ↔
      ∀ encoded, plan.ReplacesStub system program script encoded →
        stub = encoded.data ++ Artifact.trailer []) ∧
      ((∀ encoded, ¬ plan.ReplacesStub system program script encoded) →
        after.find plan.stubPath = .ok (origin, .file stub executable)) ∧
      ∀ encoded, plan.ReplacesStub system program script encoded →
        plan.platform ≠ .windows ∧ outcome = .ok (plan.reportOf script [] encoded) ∧
          after.find plan.stubPath =
            .ok (origin, .file (encoded.data ++ Artifact.trailer []) true) := by
  have hbuild := build_of_write_eq hwrite
  have hkept := find_of_not_replacesStub hstub hbuild
  have hreplaced : ∀ encoded, plan.ReplacesStub system program script encoded →
      plan.platform ≠ .windows ∧ outcome = .ok (plan.reportOf script [] encoded) ∧
        after.find plan.stubPath =
          .ok (origin, .file (encoded.data ++ Artifact.trailer []) true) := by
    intro encoded hreplaces
    obtain ⟨hplatform, final, hfinal, hfind⟩ := build_of_replacesStub hstub hreplaces
    obtain ⟨rfl, rfl⟩ := Prod.mk.inj (hbuild.symm.trans hfinal)
    exact ⟨hplatform, rfl, hfind⟩
  refine ⟨⟨?_, ?_⟩, hkept, hreplaced⟩
  · intro hread encoded hreplaces
    have hdata := FileSystem.read_eq_ok (hreplaced encoded hreplaces).2.2
    exact Except.ok.inj (hread.symm.trans hdata)
  · intro hsame
    by_cases hreplaces : ∃ encoded, plan.ReplacesStub system program script encoded
    · obtain ⟨encoded, hreplaces⟩ := hreplaces
      rw [hsame encoded hreplaces]
      exact FileSystem.read_eq_ok (hreplaced encoded hreplaces).2.2
    · exact FileSystem.read_eq_ok (hkept (not_exists.mp hreplaces))

end Built

/-- A plan whose output path leads to its stub. -/
def ontoStubPlan : BuildPlan where
  config :=
    { platform := some .linux
      stubDir := some ⟨"stub"⟩
      compiledBasename := some "stub/launchpack_linux.bin"
      compressionLevel := 0 }
  cipher := .transparent
  bundledStubs := ⟨"bundled"⟩
  plugins := []

/-- A directory with a stub of four bytes. -/
def shortStubFiles : FileSystem :=
  ((FileSystem.empty ["work"]).put ["work", "stub"] .directory).put
    ["work", "stub", "launchpack_linux.bin"] (.file [0x7F, 0x45, 0x4C, 0x46] true)

/-- The build succeeds, and the stub is gone. -/
theorem write_then_read_stub_lost :
    ∃ report rest after, ontoStubPlan.write shortStubFiles {} (.compiled [9]) ⟨"game.nvgt"⟩ =
        ((.ok report, rest), after) ∧
      report.sectionOffset = 0 ∧
      shortStubFiles.read ontoStubPlan.stubPath = .ok [0x7F, 0x45, 0x4C, 0x46] ∧
      after.read ontoStubPlan.stubPath ≠ .ok [0x7F, 0x45, 0x4C, 0x46] := by
  have hfind : shortStubFiles.find ontoStubPlan.stubPath =
      .ok (["work", "stub", "launchpack_linux.bin"], .file [0x7F, 0x45, 0x4C, 0x46] true) := rfl
  obtain ⟨block, hsealed⟩ : ∃ block, ontoStubPlan.sealed [9] = .ok block := ⟨_, rfl⟩
  obtain ⟨data, hdata⟩ : ∃ data, ontoStubPlan.section? block = .ok data := by
    refine ⟨_, DataSection.encode_eq_ok { resources := ontoStubPlan.resources, block } ?_⟩
    cases hsealed
    decide +kernel
  have hencode := encode_eq_ok (by decide) (by decide)
    (rfl : (ProgramSource.compiled [9]).bytecode (!ontoStubPlan.config.debug) = [9]) (by decide)
    hsealed hdata (ontoStubPlan.outputPath ⟨"game.nvgt"⟩)
  have hreplaces : ontoStubPlan.ReplacesStub shortStubFiles (.compiled [9]) ⟨"game.nvgt"⟩
      ⟨data, block.length, (ontoStubPlan.content [9]).length⟩ :=
    ⟨hencode, shortStubFiles, ["work", "stub", "launchpack_linux.bin"], rfl, rfl, rfl⟩
  cases hwrite : ontoStubPlan.write shortStubFiles {} (.compiled [9]) ⟨"game.nvgt"⟩ with
  | mk told after =>
      obtain ⟨outcome, rest⟩ := told
      obtain ⟨hkept, -, hreplaced⟩ := write_then_read_stub hfind hwrite
      obtain ⟨-, rfl, -⟩ := hreplaced _ hreplaces
      refine ⟨_, rest, after, rfl, rfl, FileSystem.read_eq_ok hfind, ?_⟩
      intro hread
      have hlength := congrArg List.length (hkept.mp hread _ hreplaces)
      simp [Artifact.trailer, DataSection.trailerLength] at hlength

end BuildPlan

end ScriptBundle
