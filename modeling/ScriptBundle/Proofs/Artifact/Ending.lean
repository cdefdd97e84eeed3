import ScriptBundle.Artifact.Plan
import ScriptBundle.Proofs.Files.Confinement

/-!
# How a build ends

A build stops in front of the files, at the directory of its output, at the copy of the
stub or at the copied stub, or it finishes.  Each ending says what became of the files.
-/

namespace ScriptBundle

namespace BuildError

/-- Whether a build meets the error before it touches a file. -/
def isEarly : BuildError → Bool
  | .stubMissing _ | .propertyCount .. | .codec _ | .emptyBytecode _ | .blockTooLong _ => true
  | .copy .. | .write .. | .patch .. => false

end BuildError

namespace BuildPlan

variable {plan : BuildPlan} {system : FileSystem} {program : ProgramSource} {script : Path}

theorem isEarly_of_encode_eq_error {output : Path} {error : BuildError}
    (hencode : plan.encode program output = .error error) : error.isEarly = true := by
  unfold encode at hencode
  split at hencode
  · obtain rfl := Except.error.inj hencode
    rfl
  · rcases bind_eq_error_iff.mp hencode with hcreate | ⟨writer, -, hencode⟩
    · obtain ⟨cause, -, rfl⟩ := mapError_eq_error_iff.mp hcreate
      rfl
    · simp only at hencode
      split at hencode
      · obtain rfl := Except.error.inj hencode
        rfl
      · rcases bind_eq_error_iff.mp hencode with hfinish | ⟨block, -, hencode⟩
        · obtain ⟨cause, -, rfl⟩ := mapError_eq_error_iff.mp hfinish
          rfl
        · rcases bind_eq_error_iff.mp hencode with hsection | ⟨data, -, hpure⟩
          · obtain ⟨length, -, rfl⟩ := mapError_eq_error_iff.mp hsection
            rfl
          · cases hpure

theorem exists_of_makeDirectory_eq_error {output : Path} {error : BuildError}
    {prepared : FileSystem} (hmake : makeDirectory system output = (.error error, prepared)) :
    ∃ directory cause, error = .write directory cause := by
  unfold makeDirectory at hmake
  split at hmake
  · cases hmake
  · rename_i directory hparent
    split at hmake
    · cases hmake
    · obtain ⟨cause, -, rfl⟩ := mapError_eq_error_iff.mp (congrArg Prod.fst hmake)
      exact ⟨directory, cause, rfl⟩

theorem grows_makeDirectory (system : FileSystem) (output : Path) :
    FileSystem.Grows system (makeDirectory system output).2 := by
  unfold makeDirectory
  split
  · exact FileSystem.Grows.refl system
  · split
    · exact FileSystem.Grows.refl system
    · exact FileSystem.grows_createDirectories system _

/-- What a build tells of its output. -/
def reportOf (plan : BuildPlan) (script : Path) (stub : Bytes) (encoded : Encoded) :
    BuildReport where
  output := plan.outputPath script
  platform := plan.platform
  stub := plan.stubPath
  sectionOffset := stub.length
  appended := plan.appendedLength encoded.data
  encodedLength := encoded.contentLength
  blockLength := encoded.blockLength
  debug := plan.config.debug

/-- A build gets as far as to copy its stub, which is at `origin`, to `location`. -/
structure Copies (plan : BuildPlan) (system : FileSystem) (program : ProgramSource)
    (script : Path) (encoded : Encoded) (prepared : FileSystem) (origin : Location)
    (content : Bytes) (location : Location) : Prop where
  encode : plan.encode program (plan.outputPath script) = .ok encoded
  directory : makeDirectory system (plan.outputPath script) = (.ok (), prepared)
  stub : ∃ executable, system.find plan.stubPath = .ok (origin, .file content executable)
  output : prepared.locateForWriting (plan.outputPath script) = .ok location

/-- What a copy of the stub at `origin` to `location` consists of. -/
def copiedStub (origin location : Location) (content : Bytes) : Bytes :=
  if location = origin then [] else content

theorem finishImage_put {prepared : FileSystem} {output : Path} {location : Location}
    (hwritable : prepared.locateForWriting output = .ok location) (stub data : Bytes)
    (executable : Bool) :
    plan.finishImage (prepared.put location (.file stub executable)) output data =
      match Artifact.assemble plan.platform plan.config.console stub data with
      | .error error => .error (.patch output error)
      | .ok image => .ok (stub.length, prepared.put location (.file image true)) := by
  have hread : (prepared.put location (.file stub executable)).read output = .ok stub :=
    FileSystem.read_eq_ok (FileSystem.find_put hwritable _)
  cases hassemble : Artifact.assemble plan.platform plan.config.console stub data with
  | error error => simp [finishImage, hread, hassemble]
  | ok image =>
      obtain ⟨mode, hwrite⟩ := FileSystem.write_eq_ok
        (FileSystem.locateForWriting_put hwritable stub executable) image
      have hfound := FileSystem.find_put hwritable (.file image mode)
      simp only [finishImage, hread, hassemble, hwrite, mapError_ok, ok_bind,
        FileSystem.put_put, FileSystem.setExecutable, hfound]
      rfl

/-- The copied stub becomes the artifact, or it is removed. -/
theorem produce_eq {prepared : FileSystem} {origin location : Location} {content : Bytes}
    {executable : Bool} (encoded : Encoded)
    (hstub : prepared.find plan.stubPath = .ok (origin, .file content executable))
    (hwritable : prepared.locateForWriting (plan.outputPath script) = .ok location) :
    plan.produce prepared (plan.outputPath script) encoded =
      match Artifact.assemble plan.platform plan.config.console
        (copiedStub origin location content) encoded.data with
      | .error error =>
          (.error (.patch (plan.outputPath script) error), prepared.erase location)
      | .ok image =>
          (.ok (plan.reportOf script (copiedStub origin location content) encoded),
            prepared.put location (.file image true)) := by
  have hcopy : prepared.copy plan.stubPath (plan.outputPath script) = .ok
      (prepared.put location (.file (copiedStub origin location content) executable)) :=
    FileSystem.copy_eq_ok_iff.mpr
      ⟨origin, content, executable, location, hstub, hwritable, rfl⟩
  have hfound := FileSystem.find_put hwritable
    (.file (copiedStub origin location content) executable)
  unfold produce
  rw [hcopy]
  simp only
  rw [finishImage_put hwritable]
  cases Artifact.assemble plan.platform plan.config.console
      (copiedStub origin location content) encoded.data with
  | error error =>
      simp only [FileSystem.removeFile, hfound, ok_bind, FileSystem.erase_put]
      rfl
  | ok image => rfl

/-- A build that copies its stub ends with what becomes of the copy. -/
theorem Copies.build_eq {encoded : Encoded} {prepared : FileSystem} {origin location : Location}
    {content : Bytes}
    (hcopies : plan.Copies system program script encoded prepared origin content location) :
    plan.build system program script =
      match Artifact.assemble plan.platform plan.config.console
        (copiedStub origin location content) encoded.data with
      | .error error =>
          (.error (.patch (plan.outputPath script) error), prepared.erase location)
      | .ok image =>
          (.ok (plan.reportOf script (copiedStub origin location content) encoded),
            prepared.put location (.file image true)) := by
  obtain ⟨executable, hstub⟩ := hcopies.stub
  have hfile : system.isFile plan.stubPath = true := by rw [FileSystem.isFile, hstub]
  have hgrows := grows_makeDirectory system (plan.outputPath script)
  rw [hcopies.directory] at hgrows
  rw [← produce_eq encoded (hgrows.find_eq_ok hstub) hcopies.output]
  delta build
  simp only [hfile, Bool.not_true, hcopies.encode, hcopies.directory]
  rfl

/-! ## Endings -/

/-- The outcome of a build, and the files it leaves. -/
inductive Ends (plan : BuildPlan) (system : FileSystem) (program : ProgramSource)
    (script : Path) : Except BuildError BuildReport × FileSystem → Prop
  | early {error : BuildError} (hearly : error.isEarly = true) :
      Ends plan system program script (.error error, system)
  | directory {directory : Path} {error : FileError} {prepared : FileSystem}
      (hmake : makeDirectory system (plan.outputPath script) =
        (.error (.write directory error), prepared)) :
      Ends plan system program script (.error (.write directory error), prepared)
  | copy {error : FileError} {prepared : FileSystem}
      (hmake : makeDirectory system (plan.outputPath script) = (.ok (), prepared))
      (hcopy : prepared.copy plan.stubPath (plan.outputPath script) = .error error) :
      Ends plan system program script
        (.error (.copy plan.stubPath (plan.outputPath script) error), prepared)
  | patch {encoded : Encoded} {prepared : FileSystem} {origin location : Location}
      {content : Bytes} {error : PortableExecutable.ImageError}
      (hcopies : plan.Copies system program script encoded prepared origin content location)
      (hassemble : Artifact.assemble plan.platform plan.config.console
        (copiedStub origin location content) encoded.data = .error error) :
      Ends plan system program script
        (.error (.patch (plan.outputPath script) error), prepared.erase location)
  | done {encoded : Encoded} {prepared : FileSystem} {origin location : Location}
      {content image : Bytes}
      (hcopies : plan.Copies system program script encoded prepared origin content location)
      (hassemble : Artifact.assemble plan.platform plan.config.console
        (copiedStub origin location content) encoded.data = .ok image) :
      Ends plan system program script
        (.ok (plan.reportOf script (copiedStub origin location content) encoded),
          prepared.put location (.file image true))

theorem build_ends (plan : BuildPlan) (system : FileSystem) (program : ProgramSource)
    (script : Path) : plan.Ends system program script (plan.build system program script) := by
  unfold build
  simp only
  split
  · exact .early rfl
  · rename_i hmissing
    obtain ⟨origin, content, executable, hstub⟩ :=
      FileSystem.exists_of_isFile (by simpa using hmissing)
    cases hencode : plan.encode program (plan.outputPath script) with
    | error error => exact .early (isEarly_of_encode_eq_error hencode)
    | ok encoded =>
        simp only
        cases hmake : makeDirectory system (plan.outputPath script) with
        | mk outcome prepared =>
            cases outcome with
            | error error =>
                obtain ⟨directory, cause, rfl⟩ := exists_of_makeDirectory_eq_error hmake
                exact .directory hmake
            | ok _ =>
                simp only
                cases hcopy : prepared.copy plan.stubPath (plan.outputPath script) with
                | error error =>
                    rw [produce, hcopy]
                    exact .copy hmake hcopy
                | ok copied =>
                    have hgrows := grows_makeDirectory system (plan.outputPath script)
                    rw [hmake] at hgrows
                    obtain ⟨_, _, _, location, -, hwritable, -⟩ :=
                      FileSystem.copy_eq_ok_iff.mp hcopy
                    have hcopies : plan.Copies system program script encoded prepared origin
                        content location :=
                      ⟨hencode, hmake, ⟨executable, hstub⟩, hwritable⟩
                    rw [produce_eq encoded (hgrows.find_eq_ok hstub) hwritable]
                    cases hassemble : Artifact.assemble plan.platform plan.config.console
                        (copiedStub origin location content) encoded.data with
                    | error error => exact .patch hcopies hassemble
                    | ok image => exact .done hcopies hassemble

end BuildPlan

end ScriptBundle
