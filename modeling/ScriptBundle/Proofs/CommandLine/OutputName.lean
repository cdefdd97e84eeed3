import ScriptBundle.CommandLine.Run
import ScriptBundle.Proofs.Artifact.Build
import ScriptBundle.Proofs.Config.Directives
import ScriptBundle.Proofs.Text.Words

/-!
# The output that is asked for

The option for the output stands for a directive, so that its value is read as the words of an
argument.  It sets the basename, and nothing else, to the words with single spaces between them.
That is the name that was given just if it was evenly spaced.
-/

namespace ScriptBundle

open Text

namespace BuildConfig

/-- The settings with another basename. -/
def named (config : BuildConfig) (basename : Option String) : BuildConfig :=
  { config with compiledBasename := basename }

/-- A directive that is about another setting does not see the basename. -/
theorem apply_named (config : BuildConfig) (basename : Option String) {directive : Directive}
    (hother : directive.basename? = none) :
    (config.named basename).apply directive = (config.apply directive).named basename := by
  cases directive with
  | compiledBasename name => cases hother
  | _ => rfl

end BuildConfig

/-- The plan with another basename. -/
def BuildPlan.named (plan : BuildPlan) (basename : Option String) : BuildPlan :=
  { plan with config := plan.config.named basename }

theorem Directive.Written.basename?_eq_none {name : String} {argument : List String}
    {directive : Directive} (hwritten : Written (name :: argument) directive)
    (hname : name ≠ "compiled_basename") : directive.basename? = none := by
  cases hwritten with
  | basename => exact absurd rfl hname
  | noBasename => exact absurd rfl hname
  | _ => rfl

namespace CommandLine

/-! ## Options that stand for directives -/

theorem isWord_basename : IsWord "compiled_basename".toList := by
  decide

/-- The option sets the basename to its words. -/
theorem applyOption_basename (config : BuildConfig) {value : String} (hwords : words value ≠ []) :
    applyOption config "compiled_basename" (some value) =
      .ok (config.named (Directive.basenameOf (joined (words value)))) := by
  have hparse : Directive.parse ("compiled_basename" ++ " " ++ value) =
      .ok (.compiledBasename (Directive.basenameOf (joined (words value)))) := by
    rw [Directive.parse_eq_ofWords? (words_append isWord_basename value) hwords]
    rfl
  simp only [applyOption, BuildConfig.applyText, hparse]
  rfl

/-- Without a word, the option is refused as a directive that it does not show. -/
theorem applyOption_blank (config : BuildConfig) {value : String} (hwords : words value = []) :
    applyOption config "compiled_basename" (some value) =
      .error { chain := ["Invalid directive 'compiled_basename'"] } := by
  have hline : words ("compiled_basename" ++ " " ++ value) = ["compiled_basename"] := by
    rw [words_append isWord_basename, hwords]
  have hparse : Directive.parse ("compiled_basename" ++ " " ++ value) =
      .error (.invalidDirective "compiled_basename") := by
    simp only [Directive.parse, hline, trim_append isWord_basename hwords]
    rfl
  simp only [applyOption, BuildConfig.applyText, hparse]
  rfl

/-- Another option does not see the basename. -/
theorem applyOption_named (config : BuildConfig) (basename : Option String) {name : String}
    (hword : IsWord name.toList) (hname : name ≠ "compiled_basename") (value : Option String) :
    applyOption (config.named basename) name value =
      (applyOption config name value).map (·.named basename) := by
  cases value with
  | none => rfl
  | some value =>
      simp only [applyOption, BuildConfig.applyText]
      cases hparse : Directive.parse (name ++ " " ++ value) with
      | error error => rfl
      | ok directive =>
          have hwritten := Directive.parse_eq_ok_iff.mp hparse
          rw [words_append hword] at hwritten
          exact congrArg Except.ok
            (config.apply_named basename (hwritten.basename?_eq_none hname))

/-! ## Arguments that name an output -/

/-- The request for a pack of a file with a name for the output. -/
def outputRequest (file name : String) : PackRequest where
  bytecode := ⟨file⟩
  script := none
  directives := []
  output := some name
  platform := none
  level := none
  release := false
  console := false
  stubDir := none
  resources := []
  resourceDir := none
  quiet := false

theorem ofText_output (name : String) :
    Argument.ofText ("--output=" ++ name) = .long "output".toList (some name.toList) := by
  have htext : ("--output=" ++ name).toList = '-' :: '-' :: ("output=".toList ++ name.toList) := by
    rw [String.toList_append]
    rfl
  simp only [Argument.ofText, htext]
  simp [Argument.ofLong]

theorem readLong_output (name : String) :
    readLong packOptions [] "output".toList (some name.toList) = .ok ([(.output, name)], none) := by
  have hspec : packOptions.find? (fun spec => spec.long.toList = "output".toList) =
      some { name := .output, long := "output", short := some 'o', accepts := some isText } := by
    rfl
  simp only [readLong, hspec, record, String.ofList_toList]
  rfl

/-- Every text can be given as the name of the output. -/
theorem readInvocation_output {file : String} (hword : Argument.ofText file = .word file)
    (hfile : file ≠ "") (name : String) :
    readInvocation ["pack", file, "--output=" ++ name] =
      .ok { command := .pack (outputRequest file name), config := none } := by
  have hread : readAll packOptions 1 ([], none) [] [file, "--output=" ++ name] =
      .ok ([(.output, name)], [file]) := by
    simp only [readAll, hword, ofText_output, readLong_output]
    rfl
  have hpath : soleFile [file] = .ok ⟨file⟩ := by
    simp [soleFile, isPath, hfile]
  have hcommand : readCommand "pack" [file, "--output=" ++ name] =
      .ok ([(.output, name)], .pack (outputRequest file name)) := by
    change readPack _ = _
    rw [readPack, hread, ok_bind]
    change soleFile [file] >>= _ = _
    rw [hpath, ok_bind]
    rfl
  change readCommand "pack" [file, "--output=" ++ name] >>= _ = _
  rw [hcommand, ok_bind]
  rfl

/-! ## Requests that differ in their output -/

/-- The request with another output. -/
def PackRequest.withOutput (request : PackRequest) (output : Option String) : PackRequest :=
  { request with output }

/-- The options behind the one for the output. -/
def laterOptions (request : PackRequest) (config : BuildConfig) : Except Failure BuildConfig :=
  applyOption config "platform" request.platform >>= fun config =>
    applyOption config "bytecode_compression" (request.level.map toString) >>= fun config =>
      .ok { config with
        console := config.console || request.console
        debug := config.debug && !request.release
        quiet := config.quiet || request.quiet
        stubDir := request.stubDir.or config.stubDir }

/-- The plan and the program of a request with these settings. -/
def planFor (surroundings : Surroundings) (system : FileSystem) (request : PackRequest)
    (config : PackConfig) (build : BuildConfig) : Except Failure (BuildPlan × ProgramSource) :=
  readFile system "bytecode" request.bytecode >>= fun bytecode =>
    resourceFiles system request >>= fun files =>
      files.mapM (readFile system "resource") >>= fun resources =>
        let stubs := stubDirectory system.pathExists surroundings.home
        let plan := BuildPlan.ofSettings { config with build } surroundings.cipher stubs
        .ok ({ plan with resources }, .compiled bytecode)

variable {surroundings : Surroundings} {system : FileSystem} {settings : Option Path}
variable {request : PackRequest} {name : String}

theorem requestedConfig_of_accepted {config accepted : BuildConfig} {directives : List Directive}
    (hdirectives : config.applyTexts request.directives = (.ok directives, accepted))
    (output : Option String) :
    requestedConfig config (request.withOutput output) =
      applyOption accepted "compiled_basename" output >>= laterOptions request := by
  simp only [requestedConfig, PackRequest.withOutput, hdirectives]
  rfl

theorem requestedConfig_of_refused {config accepted : BuildConfig} {error : ConfigError}
    (hdirectives : config.applyTexts request.directives = (.error error, accepted))
    (output : Option String) :
    requestedConfig config (request.withOutput output) =
      .error (during "Invalid build directive" error.chain) := by
  simp only [requestedConfig, PackRequest.withOutput, hdirectives]
  rfl

theorem planPack_eq (surroundings : Surroundings) (system : FileSystem) (settings : Option Path)
    (request : PackRequest) :
    planPack surroundings system settings request =
      effectiveConfig surroundings system settings >>= fun config =>
        requestedConfig config.build request >>= planFor surroundings system request config := by
  rfl

theorem laterOptions_named (request : PackRequest) (config : BuildConfig)
    (basename : Option String) :
    laterOptions request (config.named basename) =
      (laterOptions request config).map (·.named basename) := by
  have hplatform : IsWord "platform".toList := by decide
  have hlevel : IsWord "bytecode_compression".toList := by decide
  rw [laterOptions, laterOptions, applyOption_named config basename hplatform (by decide),
    map_then_bind]
  refine bind_eq_map_bind fun config => ?_
  rw [applyOption_named config basename hlevel (by decide), map_then_bind]
  exact bind_eq_map_bind fun config => rfl

theorem planFor_named (request : PackRequest) (config : PackConfig) (build : BuildConfig)
    (basename : Option String) :
    planFor surroundings system request config (build.named basename) =
      (planFor surroundings system request config build).map fun planned =>
        (planned.1.named basename, planned.2) := by
  refine bind_eq_map_bind fun bytecode => ?_
  refine bind_eq_map_bind fun files => ?_
  exact bind_eq_map_bind fun resources => rfl

theorem requestedConfig_named (config : BuildConfig) (request : PackRequest)
    (hwords : words name ≠ []) :
    requestedConfig config (request.withOutput (some name)) =
      (requestedConfig config (request.withOutput none)).map
        (·.named (Directive.basenameOf (joined (words name)))) := by
  rcases hdirectives : config.applyTexts request.directives with ⟨_ | directives, accepted⟩
  · rw [requestedConfig_of_refused hdirectives, requestedConfig_of_refused hdirectives]
    rfl
  · rw [requestedConfig_of_accepted hdirectives, requestedConfig_of_accepted hdirectives,
      applyOption_basename accepted hwords, ok_bind]
    exact laterOptions_named request accepted _

/-- A name with a word changes the basename of the plan, and nothing else. -/
theorem planPack_named (surroundings : Surroundings) (system : FileSystem) (settings : Option Path)
    (request : PackRequest) (hwords : words name ≠ []) :
    planPack surroundings system settings (request.withOutput (some name)) =
      (planPack surroundings system settings (request.withOutput none)).map fun planned =>
        (planned.1.named (Directive.basenameOf (joined (words name))), planned.2) := by
  rw [planPack_eq, planPack_eq]
  refine bind_eq_map_bind fun config => ?_
  rw [requestedConfig_named config.build request hwords, map_then_bind]
  exact bind_eq_map_bind fun build => planFor_named request config build _

/-- A name without a word is refused in front of all later options. -/
theorem planPack_blank {config : PackConfig} {accepted : BuildConfig} {directives : List Directive}
    (hconfig : effectiveConfig surroundings system settings = .ok config)
    (hdirectives : config.build.applyTexts request.directives = (.ok directives, accepted))
    (hwords : words name = []) :
    planPack surroundings system settings (request.withOutput (some name)) =
      .error { chain := ["Invalid directive 'compiled_basename'"] } := by
  rw [planPack_eq, hconfig, ok_bind, requestedConfig_of_accepted hdirectives,
    applyOption_blank accepted hwords]
  rfl

theorem withOutput_eq_self (hname : request.output = some name) :
    request.withOutput (some name) = request := by
  rw [← hname]
  rfl

/-- The argument that words make is not empty. -/
theorem joined_words_ne_empty (hwords : words name ≠ []) : joined (words name) ≠ "" := by
  have hspaced : Spaced ((words name).map String.toList) name.toList := words_eq_iff.mp rfl
  obtain ⟨first, rest, hfirst⟩ := List.exists_cons_of_ne_nil hwords
  have hword := hspaced.isWord first.toList (by simp [hfirst])
  rw [joined, ne_eq, ← String.toList_inj, String.toList_intercalate, hfirst]
  cases rest <;> simp [hword.1]

/-- The words of a name make it again just when it is evenly spaced. -/
theorem named_iff (plan : BuildPlan) (hne : name ≠ "") (hstar : name ≠ "*") :
    (words name ≠ [] ∧ plan.named (Directive.basenameOf (joined (words name))) =
      plan.named (some name)) ↔ EvenlySpaced name.toList := by
  rw [← intercalate_words_eq_iff]
  constructor
  · rintro ⟨-, hnamed⟩
    have hbasename : Directive.basenameOf (joined (words name)) = some name :=
      congrArg (fun plan => plan.config.compiledBasename) hnamed
    unfold Directive.basenameOf at hbasename
    split at hbasename
    · cases hbasename
    · exact Option.some.inj hbasename
  · intro hsame
    have hjoined : joined (words name) = name := hsame
    refine ⟨fun hwords => hne ?_, ?_⟩
    · rw [← hjoined, hwords]
      rfl
    · rw [hjoined, Directive.basenameOf, if_neg hstar]

/-- A request for a pack is met just if its plan is carried out. -/
theorem run_pack {arguments : List String} {plan : BuildPlan} {program : ProgramSource}
    (hread : readInvocation arguments = .ok { command := .pack request, config := settings })
    (hplan : planPack surroundings system settings request = .ok (plan, program))
    (hexit : (run surroundings system arguments).1.exitCode = 0) :
    ∃ report rest, plan.write system {} program (request.script.getD request.bytecode) =
      ((.ok report, rest), (run surroundings system arguments).2) := by
  simp only [run, hread, runInvocation, runPack, hplan] at hexit ⊢
  rcases hwrite : plan.write system {} program (request.script.getD request.bytecode) with
    ⟨⟨error | report, rest⟩, after⟩
  · simp only [hwrite] at hexit
    cases hexit
  · exact ⟨report, rest, rfl⟩

theorem run_refused {arguments : List String} {failure : Failure}
    (hread : readInvocation arguments = .ok { command := .pack request, config := settings })
    (hplan : planPack surroundings system settings request = .error failure) :
    run surroundings system arguments = ({ exitCode := 1, errors := failure.text }, system) := by
  simp only [run, hread, runInvocation, runPack, hplan]

/-- An output for Linux is written at the path that its basename is. -/
theorem read_of_write_named {plan : BuildPlan} {program : ProgramSource} {script : Path}
    {basename : String} {report : BuildReport} {rest : Diagnostics} {after : FileSystem}
    (hne : basename ≠ "") (hlinux : plan.platform = .linux)
    (hwrite : (plan.named (some basename)).write system {} program script =
      ((.ok report, rest), after)) :
    ∃ stub encoded image,
      (plan.named (some basename)).encode program ⟨basename⟩ = .ok encoded ∧
        Artifact.assemble .linux plan.config.console stub encoded.data = .ok image ∧
        after.read ⟨basename⟩ = .ok image := by
  have hplatform : (plan.named (some basename)).platform = .linux := hlinux
  have hpath : (plan.named (some basename)).outputPath script = ⟨basename⟩ := by
    have hnonempty : Platform.nonempty? (some basename) = some basename := by
      simp [Platform.nonempty?, hne]
    simp only [BuildPlan.outputPath, hplatform, Platform.outputPath, reduceCtorEq, if_false]
    simp only [BuildPlan.named, BuildConfig.named, hnonempty]
  obtain ⟨stub, encoded, image, hencode, hassemble, hread, -, -⟩ :=
    BuildPlan.read_of_build_eq_ok (BuildPlan.build_of_write_eq hwrite)
  rw [hpath] at hencode hread
  rw [hplatform] at hassemble
  exact ⟨stub, encoded, image, hencode, hassemble, hread⟩

/-- After accepted settings and directives, a name for the output that is blank is refused.  Any
other one sets the basename of the plan to its words with single spaces between them, unless that
is a star, and changes nothing else.  So the plan has exactly the name that was given just when it
is evenly spaced.  For Linux, the artifact is at the path that the words make. -/
theorem run_outputName {arguments : List String} {config : PackConfig} {accepted : BuildConfig}
    {directives : List Directive}
    (hread : readInvocation arguments = .ok { command := .pack request, config := settings })
    (hname : request.output = some name)
    (hconfig : effectiveConfig surroundings system settings = .ok config)
    (hdirectives : config.build.applyTexts request.directives = (.ok directives, accepted)) :
    (words name = [] →
      run surroundings system arguments =
        ({ exitCode := 1
           errors := Failure.text { chain := ["Invalid directive 'compiled_basename'"] } },
          system)) ∧
    (words name ≠ [] →
      planPack surroundings system settings request =
        (planPack surroundings system settings (request.withOutput none)).map fun planned =>
          (planned.1.named (Directive.basenameOf (joined (words name))), planned.2)) ∧
    ∀ plan program,
      planPack surroundings system settings (request.withOutput none) = .ok (plan, program) →
      (name ≠ "" → name ≠ "*" →
        (planPack surroundings system settings request = .ok (plan.named (some name), program) ↔
          EvenlySpaced name.toList)) ∧
      (joined (words name) ≠ "*" → plan.platform = .linux →
        (run surroundings system arguments).1.exitCode = 0 →
        ∃ stub encoded image,
          (plan.named (some (joined (words name)))).encode program ⟨joined (words name)⟩ =
              .ok encoded ∧
            Artifact.assemble .linux plan.config.console stub encoded.data = .ok image ∧
            (run surroundings system arguments).2.read ⟨joined (words name)⟩ = .ok image) := by
  have hblank : words name = [] → planPack surroundings system settings request =
      .error { chain := ["Invalid directive 'compiled_basename'"] } := fun hwords => by
    rw [← withOutput_eq_self hname]
    exact planPack_blank hconfig hdirectives hwords
  have hnamed (hwords : words name ≠ []) :=
    planPack_named surroundings system settings request hwords
  rw [withOutput_eq_self hname] at hnamed
  refine ⟨fun hwords => run_refused hread (hblank hwords), hnamed,
    fun plan program hplan => ⟨?_, ?_⟩⟩
  · intro hne hstar
    rw [← named_iff plan hne hstar]
    by_cases hwords : words name = []
    · simp [hblank hwords, hwords]
    · rw [hnamed hwords, hplan]
      simp [Except.map, hwords]
  · intro hstar hlinux hexit
    by_cases hwords : words name = []
    · rw [run_refused hread (hblank hwords)] at hexit
      cases hexit
    · have hplanned := hnamed hwords
      rw [hplan, Directive.basenameOf, if_neg hstar] at hplanned
      obtain ⟨report, rest, hwrite⟩ := run_pack hread hplanned hexit
      exact read_of_write_named (joined_words_ne_empty hwords) hlinux hwrite

/-- A directory with a program. -/
def programFiles : FileSystem :=
  (FileSystem.empty ["work"]).put ["work", "game.bc"] (.file [9] false)

def bareSurroundings : Surroundings where
  environment := {}
  home := ⟨"/opt"⟩
  nonce := List.replicate Cipher.nonceLength 0

/-- A name with two spaces in a row is not the name that the plan gets. -/
theorem run_outputName_doubledSpace :
    readInvocation ["pack", "game.bc", "--output=" ++ "my  game"] =
        .ok { command := .pack (outputRequest "game.bc" "my  game"), config := none } ∧
      (outputRequest "game.bc" "my  game").output = some "my  game" ∧
      effectiveConfig bareSurroundings programFiles none = .ok {} ∧
      BuildConfig.applyTexts {} (outputRequest "game.bc" "my  game").directives = (.ok [], {}) ∧
      ∃ plan program,
        planPack bareSurroundings programFiles none
            ((outputRequest "game.bc" "my  game").withOutput none) = .ok (plan, program) ∧
          planPack bareSurroundings programFiles none (outputRequest "game.bc" "my  game") ≠
            .ok (plan.named (some "my  game"), program) := by
  have hword : Argument.ofText "game.bc" = .word "game.bc" := by decide
  have hread := readInvocation_output hword (by decide) "my  game"
  have hconfig : effectiveConfig bareSurroundings programFiles none = .ok {} := rfl
  have hdirectives : BuildConfig.applyTexts {} (outputRequest "game.bc" "my  game").directives =
    (.ok [], {}) := rfl
  obtain ⟨⟨plan, program⟩, hplan, -⟩ := exists_eq_ok_of_any
    (planPack bareSurroundings programFiles none
      ((outputRequest "game.bc" "my  game").withOutput none)) (fun _ => true) rfl
  refine ⟨hread, rfl, hconfig, hdirectives, plan, program, hplan, fun hsame => ?_⟩
  obtain ⟨-, -, hnamed⟩ := run_outputName hread rfl hconfig hdirectives
  obtain ⟨hliteral, -⟩ := hnamed plan program hplan
  have hspaced := (hliteral (by decide) (by decide)).mp hsame
  exact absurd hspaced.single (by decide)

end CommandLine

end ScriptBundle
