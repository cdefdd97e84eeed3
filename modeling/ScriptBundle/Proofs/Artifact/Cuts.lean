import ScriptBundle.Proofs.Artifact.Console
import ScriptBundle.Proofs.Layout.Cuts

/-!
# Cut artifacts

Nothing in a Windows artifact says how long its data section is, but the section itself shows
whether it is whole.  The reader starts where the section table says, which is in front of the
section if the console patch made the stub longer.
-/

namespace ScriptBundle

open PortableExecutable

theorem LoadError.ofFault_of_unexpectedEnd {part : ArtifactPart} {fault : Fault}
    (hkind : fault.kind = .unexpectedEnd) : ofFault part fault = .truncated part := by
  rw [ofFault, hkind]

/-- Bytes that are cut between their front and their end have lost something of what stands
behind the front. -/
theorem take_ne_of_lt {front data : Bytes} {cut : Nat} (hbehind : front.length < cut)
    (hcut : cut < (front ++ data).length) : data.take (cut - front.length) ≠ data := by
  intro hwhole
  have hlength := congrArg List.length hwhole
  rw [List.length_take] at hlength
  rw [List.length_append] at hcut
  omega

/-- What a patch has behind the bytes that it is written over. -/
theorem drop_length_overwrite (bytes : Bytes) (offset : Nat) (patch : Bytes) :
    (overwrite bytes offset patch).drop bytes.length =
      (List.replicate (offset - bytes.length) 0 ++ patch).drop (bytes.length - offset) := by
  have hback : (bytes.drop (offset + patch.length)).drop
      (bytes.length - offset - patch.length) = [] := by
    rw [List.drop_drop]
    exact List.drop_eq_nil_of_le (by omega)
  rcases Nat.le_total offset bytes.length with hinside | houtside
  · have hfront : (bytes.take offset).length = offset := List.length_take_of_le hinside
    have hnothing : (bytes.take offset).drop bytes.length = [] :=
      List.drop_eq_nil_of_le (Nat.le_trans (Nat.le_of_eq hfront) hinside)
    rw [overwrite_of_le patch hinside, Nat.sub_eq_zero_of_le hinside, List.append_assoc,
      List.drop_append, hfront, hnothing, List.drop_append, hback, List.append_nil]
    rfl
  · have hnothing : bytes.drop (offset + patch.length) = [] :=
      List.drop_eq_nil_of_le (by omega)
    rw [overwrite, List.take_of_length_le houtside, hnothing, List.append_nil,
      Nat.sub_eq_zero_of_le houtside, List.append_assoc, List.drop_left, List.drop_zero]

namespace Artifact

/-- The console patch as far as it lies behind a stub of `length` bytes, with the zeros in
front of it.  The header of the stub stands at `offset`. -/
def overhang (console : Bool) (offset length : Nat) : Bytes :=
  if console then
    (List.replicate (offset + subsystemOffset - length) 0 ++
        littleEndian 2 consoleSubsystem).drop (length - (offset + subsystemOffset))
  else []

/-- A prepared stub is longer than the stub by the overhang. -/
theorem drop_of_prepareStub_eq_ok {console : Bool} {stub front : Bytes}
    (hprepare : prepareStub console stub = .ok front) :
    ∃ offset, headerOffset front = .ok offset ∧ stub.length ≤ front.length ∧
      front.drop stub.length = overhang console offset stub.length := by
  have hlong := two_le_length_of_prepareStub_eq_ok hprepare
  have hlength : (restoreSignature stub).length = stub.length := by
    rw [length_restoreSignature, Nat.max_eq_left hlong]
  cases console with
  | false =>
      obtain ⟨hended, rfl⟩ := prepareStub_eq_ok_iff.mp hprepare
      obtain ⟨offset, hoffset⟩ := exists_headerOffset_of_endOfSections_eq_ok hended
      refine ⟨offset, hoffset, Nat.le_of_eq hlength.symm, ?_⟩
      rw [List.drop_eq_nil_of_le (Nat.le_of_eq hlength)]
      rfl
  | true =>
      obtain ⟨field, hpatch, -⟩ := prepareStub_console_eq_ok_iff.mp hprepare
      obtain ⟨offset, -, hoffset, rfl, rfl⟩ := exists_of_setConsoleSubsystem_eq_ok hpatch
      refine ⟨offset, hoffset, ?_, ?_⟩
      · rw [length_overwrite, hlength]
        exact Nat.le_max_left _ _
      · rw [← hlength, drop_length_overwrite, hlength]
        rfl

theorem length_overhang (console : Bool) (offset length : Nat) :
    (overhang console offset length).length =
      if console then offset + subsystemOffset + 2 - length else 0 := by
  cases console with
  | false => rfl
  | true =>
      rw [overhang, if_pos rfl, if_pos rfl, List.length_drop, List.length_append,
        List.length_replicate, littleEndian_length]
      omega

end Artifact

namespace ArtifactReader

variable {reader : ArtifactReader}

/-- The reader starts where the section table in front of the data says. -/
theorem readSection_sectionTable (hplatform : reader.platform = .windows) {front data : Bytes}
    {ended : Nat} (hended : endOfSections front = .ok ended)
    (hinside : ended < front.length + data.length) :
    reader.readSection (front ++ data) = (do
      let content ← (DataSection.decode.read ((front ++ data).drop ended)).1.mapError
        (LoadError.ofFault .dataSection)
      return (ended, content)) := by
  refine readSection_eq (Artifact.bounds_of_endOfSections hplatform hended hinside) ?_
  rw [← List.length_append, ← List.length_drop, List.take_length]

end ArtifactReader

namespace BuildPlan

/-- A Windows artifact without its last bytes is read from the length of the stub on, where
the overhang stands in front of what is left of the section. -/
theorem readSection_of_build_cut {plan : BuildPlan} {program : ProgramSource}
    {system built : FileSystem} {script : Path} {report : BuildReport} {reader : ArtifactReader}
    (hplatform : plan.platform = .windows) (hreader : reader.platform = .windows)
    (hbuild : plan.build system program script = (.ok report, built)) :
    ∃ front data block offset,
      built.read report.output = .ok (front ++ data) ∧
        plan.sealed (program.bytecode (!plan.config.debug)) = .ok block ∧
        DataSection.encode { resources := plan.resources, block } = .ok data ∧
        headerOffset front = .ok offset ∧
        front.length = report.sectionOffset +
          (Artifact.overhang plan.config.console offset report.sectionOffset).length ∧
        ∀ cut, front.length < cut → cut < (front ++ data).length →
          reader.readSection ((front ++ data).take cut) = (do
            let content ← (DataSection.decode.read
              (Artifact.overhang plan.config.console offset report.sectionOffset ++
                data.take (cut - front.length))).1.mapError (LoadError.ofFault .dataSection)
            return (report.sectionOffset, content)) := by
  obtain ⟨stub, encoded, front, -, hencode, hprepare, hread, rfl⟩ :=
    exists_of_build_sectionTable hplatform hbuild
  obtain ⟨-, -, -, block, data, hsealed, hdata, rfl⟩ := encode_eq_ok_iff.mp hencode
  obtain ⟨offset, hoffset, hlonger, hoverhang⟩ := Artifact.drop_of_prepareStub_eq_ok hprepare
  have hended := Artifact.endOfSections_of_prepareStub_eq_ok hprepare
  refine ⟨front, data, block, offset, hread, hsealed, hdata, hoffset, ?_, ?_⟩
  · change front.length = stub.length + (Artifact.overhang _ offset stub.length).length
    rw [← hoverhang, List.length_drop]
    omega
  intro cut hbehind hcut
  have htaken : (front ++ data).take cut = front ++ data.take (cut - front.length) := by
    rw [List.take_append, List.take_of_length_le (Nat.le_of_lt hbehind)]
  have hinside : stub.length < front.length + (data.take (cut - front.length)).length := by
    rw [List.length_append] at hcut
    rw [List.length_take_of_le (by omega)]
    omega
  rw [htaken, ArtifactReader.readSection_sectionTable hreader hended hinside,
    List.drop_append_of_le_length hlonger, hoverhang]
  rfl

/-- A section is read off the front of whatever follows it, and each of its beginnings is found
to be cut.  So a Windows artifact with the section is found to be cut within it if the console
patch, where there is one, lies inside the stub.  A patch that hangs over is taken for the
beginning of the section. -/
theorem write_then_cut (content : DataSection)
    (hresources : Records.WithinLimits content.resources)
    (hblock : content.block.length < UInt32.size) :
    ∃ data, content.encode = .ok data ∧
      (∀ rest, DataSection.decode.read (data ++ rest) = (.ok content, rest)) ∧
      (∀ front, front <+: data → front ≠ data →
        DataSection.decode.FailsWith front .unexpectedEnd) ∧
      ∀ (plan : BuildPlan) (program : ProgramSource) (system built : FileSystem)
        (diagnostics rest : Diagnostics) (script : Path) (report : BuildReport)
        (reader : ArtifactReader), plan.platform = .windows → reader.platform = .windows →
        plan.resources = content.resources →
        plan.sealed (program.bytecode (!plan.config.debug)) = .ok content.block →
        plan.write system diagnostics program script = ((.ok report, rest), built) →
        ∃ front offset,
          built.read report.output = .ok (front ++ data) ∧ headerOffset front = .ok offset ∧
            ((plan.config.console = true → offset + 94 ≤ report.sectionOffset) →
              front.length = report.sectionOffset ∧
              ∀ cut, front.length < cut → cut < (front ++ data).length →
                reader.readSection ((front ++ data).take cut) =
                  .error (.truncated .dataSection)) ∧
            (plan.config.console = true → report.sectionOffset < offset + 94 →
              front.length = offset + 94 ∧
              ∀ cut, front.length < cut → cut < (front ++ data).length →
                reader.readSection ((front ++ data).take cut) = (do
                  let content ← (DataSection.decode.read
                    (Artifact.overhang true offset report.sectionOffset ++
                      data.take (cut - front.length))).1.mapError (LoadError.ofFault .dataSection)
                  return (report.sectionOffset, content))) := by
  have hencode := DataSection.encode_eq_ok content hblock
  obtain ⟨hreads, hcuts⟩ := DataSection.decode_reads_and_failsWith_of_cut hencode hresources
  refine ⟨_, hencode, hreads, hcuts, ?_⟩
  intro plan program system built diagnostics rest script report reader hplatform hreader
    hpacked hsealed hwrite
  obtain ⟨front, data, block, offset, hread, hsealed', hencode', hoffset, hlength, hsection⟩ :=
    readSection_of_build_cut hplatform hreader (build_of_write_eq hwrite)
  obtain rfl := Except.ok.inj (hsealed.symm.trans hsealed')
  rw [hpacked] at hencode'
  obtain rfl := Except.ok.inj (hencode.symm.trans hencode')
  refine ⟨front, offset, hread, hoffset, fun hinside => ?_, fun hconsole hoverhang => ?_⟩
  · have hnothing : Artifact.overhang plan.config.console offset report.sectionOffset = [] := by
      rw [← List.length_eq_zero_iff, Artifact.length_overhang, subsystemOffset]
      split
      · rename_i hconsole
        have := hinside hconsole
        omega
      · rfl
    rw [hnothing] at hlength hsection
    refine ⟨hlength, fun cut hbehind hcut => ?_⟩
    obtain ⟨fault, after, hfault, hkind⟩ :=
      hcuts _ (List.take_prefix (cut - front.length) _) (take_ne_of_lt hbehind hcut)
    rw [hsection cut hbehind hcut, List.nil_append, hfault, mapError_error,
      LoadError.ofFault_of_unexpectedEnd hkind]
    rfl
  · rw [hconsole] at hlength hsection
    refine ⟨?_, hsection⟩
    rw [hlength, Artifact.length_overhang, if_pos rfl, subsystemOffset]
    omega

/-- A stub without an optional header that ends where the subsystem word would start. -/
def flushStub : Bytes :=
  List.replicate 60 0 ++ littleEndian 4 64 ++ littleEndian 4 headerSignature ++
    (List.replicate 2 0 ++ littleEndian 2 1 ++ List.replicate 16 0) ++
    (List.replicate 16 0 ++ littleEndian 4 156 ++ List.replicate 20 0) ++ List.replicate 28 0

def flushFiles : FileSystem :=
  ((FileSystem.empty ["work"]).put ["work", "stub"] .directory).put
    ["work", "stub", "launchpack_windows.bin"] (.file flushStub false)

/-- A plan for that stub with a resource that looks like the end of a section. -/
def flushPlan : BuildPlan :=
  { barePlan with resources := [0 :: DataSection.encodeLength 0] }

theorem flushPlan_buildable : flushPlan.Buildable flushFiles ⟨"game.nvgt"⟩ flushStub :=
  ⟨["work", "stub", "launchpack_windows.bin"], false, flushFiles, ["work", "game.exe"], rfl, rfl,
    rfl, by decide⟩

/-- What is packed with it. -/
def flushContent : DataSection where
  resources := flushPlan.resources
  block := Compression.compress 0 (flushPlan.content [9])

def flushData : Bytes :=
  Records.encode flushContent.resources ++
    DataSection.encodeLength flushContent.block.length ++ flushContent.block

/-- The stub as it is prepared. -/
def flushFront (console : Bool) : Bytes :=
  (Artifact.prepareStub console flushStub).toOption.getD []

theorem write_flush (console : Bool) :
    ∃ built,
      (flushPlan.withConsole console).write flushFiles {} (.compiled [9]) ⟨"game.nvgt"⟩ =
          ((.ok (flushPlan.reportOf ⟨"game.nvgt"⟩ flushStub
            ⟨flushData, flushContent.block.length, (flushPlan.content [9]).length⟩), {}), built) ∧
        built.read (flushPlan.outputPath ⟨"game.nvgt"⟩) =
          .ok (flushFront console ++ flushData) := by
  have hprepare : Artifact.prepareStub console flushStub = .ok (flushFront console) := by
    cases console <;> decide +kernel
  have hsection : flushPlan.section? flushContent.block = .ok flushData :=
    DataSection.encode_eq_ok flushContent (by decide +kernel)
  have hencode := encode_eq_ok (by decide) (by decide)
    (rfl : (ProgramSource.compiled [9]).bytecode (!flushPlan.config.debug) = [9]) (by decide)
    (rfl : flushPlan.sealed [9] = .ok flushContent.block) hsection
    (flushPlan.outputPath ⟨"game.nvgt"⟩)
  have hbuildable : (flushPlan.withConsole console).Buildable flushFiles ⟨"game.nvgt"⟩ flushStub :=
    buildable_withConsole.mpr flushPlan_buildable
  exact write_of_prepareStub withConsole_platform hbuildable
    ((withConsole_encode _ _).trans hencode) hprepare {}

/-- Without the console patch, the artifact is found to be cut when its last byte is gone.  With
it, the same artifact is read without an error, though nothing in it is as it was packed. -/
theorem write_then_cut_flush :
    ∃ report plainBuilt consoleBuilt plainImage consoleImage,
      (flushPlan.withConsole false).write flushFiles {} (.compiled [9]) ⟨"game.nvgt"⟩ =
          ((.ok report, {}), plainBuilt) ∧
        (flushPlan.withConsole true).write flushFiles {} (.compiled [9]) ⟨"game.nvgt"⟩ =
          ((.ok report, {}), consoleBuilt) ∧
        plainBuilt.read report.output = .ok plainImage ∧
        consoleBuilt.read report.output = .ok consoleImage ∧
        (ArtifactReader.mk report.output .windows .transparent).readSection
            (plainImage.take (plainImage.length - 1)) = .error (.truncated .dataSection) ∧
        (ArtifactReader.mk report.output .windows .transparent).readSection
            (consoleImage.take (consoleImage.length - 1)) =
          .ok (156, { resources := [[], [6], []], block := [] }) := by
  obtain ⟨plainBuilt, hplain, hplainRead⟩ := write_flush false
  obtain ⟨consoleBuilt, hconsole, hconsoleRead⟩ := write_flush true
  refine ⟨_, plainBuilt, consoleBuilt, _, _, hplain, hconsole, hplainRead, hconsoleRead, ?_,
    by decide +kernel⟩
  obtain ⟨data, -, -, -, hartifact⟩ :=
    write_then_cut flushContent (by decide +kernel) (by decide +kernel)
  obtain ⟨front, offset, hread, -, hcut, -⟩ := hartifact
    (flushPlan.withConsole false) (.compiled [9]) flushFiles plainBuilt {} {} ⟨"game.nvgt"⟩ _
    ⟨flushPlan.outputPath ⟨"game.nvgt"⟩, .windows, .transparent⟩ rfl rfl rfl rfl hplain
  obtain ⟨hlength, hcut⟩ := hcut fun hconsole => nomatch hconsole
  have himage := Except.ok.inj (hplainRead.symm.trans hread)
  have hwhole : 157 < (flushFront false ++ flushData).length := by decide +kernel
  have hfront : front.length = 156 := hlength.trans (by decide +kernel)
  rw [himage] at hwhole ⊢
  exact hcut _ (by omega) (by omega)

end BuildPlan

end ScriptBundle
