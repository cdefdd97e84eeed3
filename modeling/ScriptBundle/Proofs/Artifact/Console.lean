import ScriptBundle.Proofs.Artifact.SectionTable

/-!
# What the console setting changes

The console patch overwrites the subsystem word of a Windows stub, which lies at a
fixed distance from a header that may stand anywhere in the stub.  Where the word
lies inside the stub, nothing else changes.  Where it does not, the stub grows by
the patch, and the data section starts later than the section table says.
-/

namespace ScriptBundle

open PortableExecutable

namespace Artifact

/-- The two ways to prepare a stub agree on all but the subsystem word, which is the
end of the patched stub if it does not lie inside. -/
theorem prepareStub_console {stub plain patched : Bytes}
    (hplain : prepareStub false stub = .ok plain)
    (hpatched : prepareStub true stub = .ok patched) :
    ∃ offset, headerOffset plain = .ok offset ∧ headerOffset patched = .ok offset ∧
      plain.length = stub.length ∧
      patched.length = max stub.length (offset + subsystemOffset + 2) ∧
      ∀ index, index < stub.length → index ≠ offset + subsystemOffset →
        index ≠ offset + subsystemOffset + 1 → plain[index]? = patched[index]? := by
  have hlong := two_le_length_of_prepareStub_eq_ok hplain
  obtain ⟨-, rfl⟩ := prepareStub_eq_ok_iff.mp hplain
  obtain ⟨field, hpatch, -⟩ := prepareStub_console_eq_ok_iff.mp hpatched
  obtain ⟨offset, hoffset, hagain, rfl, rfl⟩ := exists_of_setConsoleSubsystem_eq_ok hpatch
  have hlength : (restoreSignature stub).length = stub.length := by
    rw [length_restoreSignature, Nat.max_eq_left hlong]
  refine ⟨offset, hoffset, hagain, hlength, ?_, ?_⟩
  · rw [length_overwrite, littleEndian_length, hlength]
  · intro index hindex hlow hhigh
    rcases Nat.lt_or_ge index (offset + subsystemOffset) with hbefore | hbehind
    · exact (getElem?_overwrite_of_before hbefore (hlength ▸ hindex)).symm
    · refine (getElem?_overwrite_of_behind ?_).symm
      rw [littleEndian_length]
      omega

end Artifact

namespace ArtifactReader

/-- A section is read without a look at the stub in front of it. -/
theorem decode_sectionTable_eq {reader : ArtifactReader} (hplatform : reader.platform = .windows)
    {front other data : Bytes} (hdata : data ≠ []) (hended : endOfSections front = .ok front.length)
    (hother : endOfSections other = .ok other.length) (hlength : other.length = front.length)
    (count : Nat) :
    reader.decode (other ++ data) count = reader.decode (front ++ data) count := by
  have hfront := readSection_eq (Artifact.bounds_sectionTable hplatform hended hdata)
    (Artifact.take_drop_append front data)
  have hback := readSection_eq (Artifact.bounds_sectionTable hplatform hother hdata)
    (Artifact.take_drop_append other data)
  rw [decode, decode, hfront, hback, hlength]

end ArtifactReader

namespace BuildPlan

/-- The plan with another console setting. -/
def withConsole (plan : BuildPlan) (console : Bool) : BuildPlan :=
  { plan with config := { plan.config with console } }

section WithConsole

variable {plan : BuildPlan} {console : Bool}

@[simp]
theorem withConsole_platform : (plan.withConsole console).platform = plan.platform := rfl

@[simp]
theorem withConsole_console : (plan.withConsole console).config.console = console := rfl

@[simp]
theorem withConsole_encode (program : ProgramSource) (output : Path) :
    (plan.withConsole console).encode program output = plan.encode program output := rfl

@[simp]
theorem withConsole_outputPath (script : Path) :
    (plan.withConsole console).outputPath script = plan.outputPath script := rfl

@[simp]
theorem buildable_withConsole {system : FileSystem} {script : Path} {stub : Bytes} :
    (plan.withConsole console).Buildable system script stub ↔
      plan.Buildable system script stub := Iff.rfl

end WithConsole

/-- Where both builds of a Windows stub succeed, the reports are equal, and the
console build changes just the subsystem word and nothing of what is read back if
and only if the word lies inside the stub.  Otherwise the output is longer, since
the section stands behind the word. -/
theorem write_withConsole (plan : BuildPlan) (program : ProgramSource)
    (system plainBuilt consoleBuilt : FileSystem)
    (diagnostics plainRest consoleRest : Diagnostics) (script : Path)
    (plainReport consoleReport : BuildReport) (hplatform : plan.platform = .windows)
    (hplain : (plan.withConsole false).write system diagnostics program script =
      ((.ok plainReport, plainRest), plainBuilt))
    (hconsole : (plan.withConsole true).write system diagnostics program script =
      ((.ok consoleReport, consoleRest), consoleBuilt)) :
    ∃ stub offset plainImage consoleImage,
      system.read plan.stubPath = .ok stub ∧
        consoleReport = plainReport ∧ plainReport.sectionOffset = stub.length ∧
        plainBuilt.read plainReport.output = .ok plainImage ∧
        consoleBuilt.read consoleReport.output = .ok consoleImage ∧
        headerOffset plainImage = .ok offset ∧ headerOffset consoleImage = .ok offset ∧
        consoleImage.length = plainImage.length + (offset + 94 - stub.length) ∧
        ((plainImage.length = consoleImage.length ∧
            (∀ index, index ≠ offset + 92 → index ≠ offset + 93 →
              plainImage[index]? = consoleImage[index]?) ∧
            ∀ reader : ArtifactReader, reader.platform = .windows → ∀ count,
              reader.decode consoleImage count = reader.decode plainImage count) ↔
          offset + 94 ≤ stub.length) := by
  obtain ⟨stub, encoded, plain, hbuildable, hencode, hprepare, hread, rfl⟩ :=
    exists_of_build_sectionTable (withConsole_platform.trans hplatform)
      (build_of_write_eq hplain)
  obtain ⟨other, encoded', patched, hother, hencode', hprepare', hread', rfl⟩ :=
    exists_of_build_sectionTable (withConsole_platform.trans hplatform)
      (build_of_write_eq hconsole)
  simp only [buildable_withConsole, withConsole_console, withConsole_encode,
    withConsole_outputPath] at hbuildable hother hencode hencode' hprepare hprepare' hread hread'
  obtain rfl := hbuildable.stub_eq hother
  obtain rfl := Except.ok.inj (hencode.symm.trans hencode')
  obtain ⟨offset, hoffset, hoffset', hlength, hlength', hsame⟩ :=
    Artifact.prepareStub_console hprepare hprepare'
  simp only [subsystemOffset] at hlength' hsame
  have hfile : system.read plan.stubPath = .ok stub := by
    obtain ⟨origin, executable, -, -, hfind, -⟩ := hbuildable
    exact FileSystem.read_eq_ok hfind
  have hdata : encoded.data ≠ [] := by
    obtain ⟨-, -, -, block, data, -, hdata, rfl⟩ := encode_eq_ok_iff.mp hencode
    exact DataSection.ne_nil_of_encode_eq_ok hdata
  refine ⟨stub, offset, plain ++ encoded.data, patched ++ encoded.data, hfile, rfl, rfl, hread,
    hread', settled_headerOffset.eq_ok hoffset _, settled_headerOffset.eq_ok hoffset' _, ?_, ?_, ?_⟩
  · simp only [List.length_append, hlength, hlength']
    omega
  · rintro ⟨hlengths, -⟩
    simp only [List.length_append, hlength, hlength'] at hlengths
    omega
  · intro hinside
    have hequal : patched.length = plain.length := by omega
    refine ⟨by rw [List.length_append, List.length_append, hequal], ?_, ?_⟩
    · intro index hlow hhigh
      rcases Nat.lt_or_ge index stub.length with hfront | hback
      · rw [List.getElem?_append_left (hlength ▸ hfront),
          List.getElem?_append_left (by omega)]
        exact hsame index hfront hlow hhigh
      · rw [List.getElem?_append_right (by omega), List.getElem?_append_right (by omega), hequal]
    · intro reader hreader count
      refine ArtifactReader.decode_sectionTable_eq hreader hdata ?_ ?_ hequal count
      · rw [hlength]
        exact Artifact.endOfSections_of_prepareStub_eq_ok hprepare
      · rw [hequal, hlength]
        exact Artifact.endOfSections_of_prepareStub_eq_ok hprepare'

/-- The block that the bare plan makes of a program of one byte. -/
def bareBlock : Bytes :=
  Compression.compress 0 (barePlan.content [9])

/-- The section around it. -/
def bareData : Bytes :=
  Records.encode [[3]] ++ DataSection.encodeLength bareBlock.length ++ bareBlock

/-- The stub as it is prepared. -/
def bareFront (console : Bool) : Bytes :=
  (Artifact.prepareStub console bareStub).toOption.getD []

theorem write_bare (console : Bool) :
    ∃ built,
      (barePlan.withConsole console).write bareFiles {} (.compiled [9]) ⟨"game.nvgt"⟩ =
          ((.ok (barePlan.reportOf ⟨"game.nvgt"⟩ bareStub
            ⟨bareData, bareBlock.length, (barePlan.content [9]).length⟩), {}), built) ∧
        built.read (barePlan.outputPath ⟨"game.nvgt"⟩) = .ok (bareFront console ++ bareData) := by
  have hprepare : Artifact.prepareStub console bareStub = .ok (bareFront console) := by
    cases console <;> decide +kernel
  have hsection : barePlan.section? bareBlock = .ok bareData :=
    DataSection.encode_eq_ok { resources := [[3]], block := bareBlock } (by decide +kernel)
  have hencode := encode_eq_ok (by decide) (by decide)
    (rfl : (ProgramSource.compiled [9]).bytecode (!barePlan.config.debug) = [9]) (by decide)
    (rfl : barePlan.sealed [9] = .ok bareBlock) hsection (barePlan.outputPath ⟨"game.nvgt"⟩)
  have hbuildable : (barePlan.withConsole console).Buildable bareFiles ⟨"game.nvgt"⟩ bareStub :=
    buildable_withConsole.mpr barePlan_buildable
  exact write_of_prepareStub withConsole_platform hbuildable
    ((withConsole_encode _ _).trans hencode) hprepare {}

/-- The subsystem word of a stub without an optional header lies behind the stub.
With the console setting the stub is built from, but the section is not found. -/
theorem write_withConsole_bare :
    ∃ report plainBuilt consoleBuilt plainImage consoleImage,
      (barePlan.withConsole false).write bareFiles {} (.compiled [9]) ⟨"game.nvgt"⟩ =
          ((.ok report, {}), plainBuilt) ∧
        (barePlan.withConsole true).write bareFiles {} (.compiled [9]) ⟨"game.nvgt"⟩ =
          ((.ok report, {}), consoleBuilt) ∧
        report.sectionOffset = 128 ∧
        plainBuilt.read report.output = .ok plainImage ∧
        consoleBuilt.read report.output = .ok consoleImage ∧
        consoleImage.length = plainImage.length + 30 ∧
        (ArtifactReader.mk report.output .windows .transparent).decode consoleImage 41 =
          .error (.truncated .dataSection) := by
  obtain ⟨plainBuilt, hplain, hplainRead⟩ := write_bare false
  obtain ⟨consoleBuilt, hconsole, hconsoleRead⟩ := write_bare true
  obtain ⟨stub, offset, plainImage, consoleImage, hstub, -, hsection, hread, hread', hoffset, -,
    hlength, -⟩ := write_withConsole barePlan (.compiled [9]) bareFiles plainBuilt consoleBuilt {}
      {} {} ⟨"game.nvgt"⟩ _ _ rfl hplain hconsole
  obtain rfl := Except.ok.inj (hplainRead.symm.trans hread)
  obtain rfl := Except.ok.inj (hconsoleRead.symm.trans hread')
  obtain rfl : bareStub = stub := Except.ok.inj hstub
  have hheader : headerOffset (bareFront false ++ bareData) = .ok 64 := by decide +kernel
  obtain rfl := Except.ok.inj (hheader.symm.trans hoffset)
  have hstubLength : bareStub.length = 128 := by decide +kernel
  rw [hstubLength] at hsection hlength
  exact ⟨_, plainBuilt, consoleBuilt, _, _, hplain, hconsole, hsection, hread, hread', hlength,
    by decide +kernel⟩

end BuildPlan

end ScriptBundle
