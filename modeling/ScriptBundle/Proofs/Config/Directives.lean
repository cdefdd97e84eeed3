import ScriptBundle.Config.Directive
import ScriptBundle.Proofs.Outcomes
import Mathlib.Data.List.Forall2

/-!
# What a list of directives comes to

Directives are given a grammar on their words, and their errors one beside it.  Lines are
then applied as far as the first one that the grammar refuses, and what the settings are
after that can be told for each setting on its own: lists grow, and of several values the
last one stands.
-/

namespace ScriptBundle

/-- An error without the line that it quotes. -/
def ConfigError.unquoted : ConfigError → ConfigError
  | .invalidDirective _ => .invalidDirective ""
  | error => error

/-- The argument that words make, with single blanks between them. -/
def joined (argument : List String) : String :=
  " ".intercalate argument

namespace Directive

/-- The words that a directive is written with. -/
inductive Written : List String → Directive → Prop
  | directory {argument : List String} (hargument : argument ≠ []) :
      Written ("include" :: argument) (.include ⟨joined argument⟩)
  | stub {argument : List String} (hargument : argument ≠ []) :
      Written ("stub" :: argument) (.stub (joined argument))
  | plugin {argument : List String} (hargument : argument ≠ []) :
      Written ("plugin" :: argument) (.plugin (joined argument))
  | basename {argument : List String} (hargument : argument ≠ []) (hstar : joined argument ≠ "*") :
      Written ("compiled_basename" :: argument) (.compiledBasename (some (joined argument)))
  | noBasename : Written ["compiled_basename", "*"] (.compiledBasename none)
  | platform {argument : List String} {target : Platform} (hargument : argument ≠ [])
      (hauto : joined argument ≠ "auto") (htarget : Platform.parse (joined argument) = .ok target) :
      Written ("platform" :: argument) (.platform (some target))
  | hostPlatform : Written ["platform", "auto"] (.platform none)
  | level {argument : List String} {level : UInt32} (hargument : argument ≠ [])
      (hlevel : Text.uint32? (joined argument) = some level) (hrange : level.toNat ≤ maxLevel) :
      Written ("bytecode_compression" :: argument) (.bytecodeCompression level)
  | console : Written ["console"] .console

/-- The settings that take an argument. -/
def settings : List String :=
  ["include", "stub", "plugin", "compiled_basename", "platform", "bytecode_compression"]

/-- The words are a setting with an argument, or one that has none. -/
def HasForm (words : List String) : Prop :=
  words = ["console"] ∨ ∃ name ∈ settings, ∃ argument ≠ [], words = name :: argument

/-- Why a line is refused: for its argument, which is quoted, or for its form, in which case
the whole line is. -/
inductive Refused (text : String) : ConfigError → Prop
  | platform {argument : List String} {lowered : String}
      (hwords : Text.words text = "platform" :: argument) (hargument : argument ≠ [])
      (hauto : joined argument ≠ "auto")
      (hunknown : Platform.parse (joined argument) = .error lowered) :
      Refused text (.unknownPlatform (joined argument))
  | level {argument : List String}
      (hwords : Text.words text = "bytecode_compression" :: argument) (hargument : argument ≠ [])
      (hrange : ∀ level, Text.uint32? (joined argument) = some level → maxLevel < level.toNat) :
      Refused text (.invalidCompression (joined argument))
  | form (hform : ¬ HasForm (Text.words text)) : Refused text (.invalidDirective (Text.trim text))

/-- Several words make no argument without a blank. -/
theorem joined_eq_iff {argument : List String} {word : String} (hblank : ' ' ∉ word.toList)
    (hargument : argument ≠ []) : joined argument = word ↔ argument = [word] := by
  cases argument with
  | nil => exact absurd rfl hargument
  | cons first rest =>
      cases rest with
      | nil => simp [joined]
      | cons second rest =>
          constructor
          · rintro rfl
            simp [joined] at hblank
          · intro h
            cases h

theorem ofWords?_of_ne_console {name : String} (hname : name ≠ "console") :
    ofWords? name none = .ok none := by
  unfold ofWords?
  split <;> simp_all

theorem ofWords?_of_not_mem_settings {name : String} (hname : name ∉ settings)
    (argument : String) : ofWords? name (some argument) = .ok none := by
  unfold ofWords?
  split <;> simp_all [settings]

/-- Every line is written with the words of a directive, or is refused for a reason. -/
theorem written_or_refused (text : String) :
    (∃ directive, Written (Text.words text) directive) ∨ ∃ error, Refused text error := by
  by_cases hform : HasForm (Text.words text)
  swap
  · exact .inr ⟨_, .form hform⟩
  rcases hform with hconsole | ⟨name, hname, argument, hargument, hwords⟩
  · rw [hconsole]
    exact .inl ⟨_, .console⟩
  rw [hwords]
  simp only [settings, List.mem_cons, List.not_mem_nil, or_false] at hname
  rcases hname with rfl | rfl | rfl | rfl | rfl | rfl
  · exact .inl ⟨_, .directory hargument⟩
  · exact .inl ⟨_, .stub hargument⟩
  · exact .inl ⟨_, .plugin hargument⟩
  · by_cases hstar : joined argument = "*"
    · rw [joined_eq_iff (by decide) hargument] at hstar
      subst hstar
      exact .inl ⟨_, .noBasename⟩
    · exact .inl ⟨_, .basename hargument hstar⟩
  · by_cases hauto : joined argument = "auto"
    · rw [joined_eq_iff (by decide) hargument] at hauto
      subst hauto
      exact .inl ⟨_, .hostPlatform⟩
    · cases hparse : Platform.parse (joined argument) with
      | ok target => exact .inl ⟨_, .platform hargument hauto hparse⟩
      | error lowered => exact .inr ⟨_, .platform hwords hargument hauto hparse⟩
  · by_cases hlevel : ∃ level, Text.uint32? (joined argument) = some level ∧ level.toNat ≤ maxLevel
    · obtain ⟨level, hlevel, hrange⟩ := hlevel
      exact .inl ⟨_, .level hargument hlevel hrange⟩
    · exact .inr ⟨_, .level hwords hargument fun level hread =>
        Nat.lt_of_not_le fun hrange => hlevel ⟨level, hread, hrange⟩⟩

theorem parse_eq_ofWords? {text name : String} {argument : List String}
    (hwords : Text.words text = name :: argument) (hargument : argument ≠ []) :
    parse text =
      match ofWords? name (some (joined argument)) with
      | .ok (some directive) => .ok directive
      | .ok none => .error (.invalidDirective (Text.trim text))
      | .error error => .error error := by
  obtain ⟨first, rest, rfl⟩ := List.exists_cons_of_ne_nil hargument
  simp only [parse, hwords]
  rfl

theorem parse_of_written {text : String} {directive : Directive}
    (hwritten : Written (Text.words text) directive) : parse text = .ok directive := by
  generalize hwords : Text.words text = words at hwritten
  cases hwritten with
  | directory hargument => simp [parse_eq_ofWords? hwords hargument, ofWords?]
  | stub hargument => simp [parse_eq_ofWords? hwords hargument, ofWords?]
  | plugin hargument => simp [parse_eq_ofWords? hwords hargument, ofWords?]
  | basename hargument hstar =>
      simp [parse_eq_ofWords? hwords hargument, ofWords?, basenameOf, hstar]
  | noBasename => simp [parse_eq_ofWords? hwords, ofWords?, basenameOf, joined]
  | platform hargument hauto htarget =>
      simp [parse_eq_ofWords? hwords hargument, ofWords?, platformOf, hauto, htarget, Except.map]
  | hostPlatform => simp [parse_eq_ofWords? hwords, ofWords?, platformOf, joined, Except.map]
  | level hargument hlevel hrange =>
      simp [parse_eq_ofWords? hwords hargument, ofWords?, levelOf, hlevel, hrange, Except.map]
  | console => simp [parse, hwords, ofWords?]

theorem parse_of_refused {text : String} {error : ConfigError} (hrefused : Refused text error) :
    parse text = .error error := by
  cases hrefused with
  | platform hwords hargument hauto hunknown =>
      simp [parse_eq_ofWords? hwords hargument, ofWords?, platformOf, hauto, hunknown, Except.map]
  | @level argument hwords hargument hrange =>
      have hlevel : levelOf (joined argument) = .error (.invalidCompression (joined argument)) := by
        unfold levelOf
        cases hread : Text.uint32? (joined argument) with
        | none => rfl
        | some level => exact if_neg (Nat.not_le_of_lt (hrange level hread))
      simp [parse_eq_ofWords? hwords hargument, ofWords?, hlevel, Except.map]
  | form hform =>
      cases hwords : Text.words text with
      | nil => simp [parse, hwords, ofWords?_of_ne_console]
      | cons name argument =>
          by_cases hargument : argument = []
          · subst hargument
            have hname : name ≠ "console" := fun h => hform (.inl (by rw [hwords, h]))
            simp [parse, hwords, ofWords?_of_ne_console hname]
          · have hname : name ∉ settings := fun h =>
              hform (.inr ⟨name, h, argument, hargument, hwords⟩)
            simp [parse_eq_ofWords? hwords hargument, ofWords?_of_not_mem_settings hname]

/-- A line is accepted just when its words write the directive. -/
theorem parse_eq_ok_iff {text : String} {directive : Directive} :
    parse text = .ok directive ↔ Written (Text.words text) directive := by
  refine ⟨fun hparse => ?_, parse_of_written⟩
  rcases written_or_refused text with ⟨directive', hwritten⟩ | ⟨error, hrefused⟩
  · cases hparse.symm.trans (parse_of_written hwritten)
    exact hwritten
  · cases hparse.symm.trans (parse_of_refused hrefused)

theorem parse_eq_error_iff {text : String} {error : ConfigError} :
    parse text = .error error ↔ Refused text error := by
  refine ⟨fun hparse => ?_, parse_of_refused⟩
  rcases written_or_refused text with ⟨directive, hwritten⟩ | ⟨error', hrefused⟩
  · cases hparse.symm.trans (parse_of_written hwritten)
  · cases hparse.symm.trans (parse_of_refused hrefused)
    exact hrefused

/-- Of the same words, the same is said, but an error quotes its own line. -/
theorem Refused.of_words_eq {text text' : String} {error : ConfigError}
    (hwords : Text.words text' = Text.words text) (hrefused : Refused text error) :
    ∃ error', Refused text' error' ∧ error'.unquoted = error.unquoted := by
  cases hrefused with
  | platform hplatform hargument hauto hunknown =>
      exact ⟨_, .platform (hwords.trans hplatform) hargument hauto hunknown, rfl⟩
  | level hlevel hargument hrange =>
      exact ⟨_, .level (hwords.trans hlevel) hargument hrange, rfl⟩
  | form hform => exact ⟨_, .form (hwords ▸ hform), rfl⟩

/-- The directory that is added in front. -/
def include? : Directive → Option Path
  | .include directory => some directory
  | _ => none

/-- The plugin that is added at the end. -/
def plugin? : Directive → Option String
  | .plugin name => some name
  | _ => none

def stub? : Directive → Option (Option String)
  | .stub variant => some (some variant)
  | _ => none

def basename? : Directive → Option (Option String)
  | .compiledBasename basename => some basename
  | _ => none

def platform? : Directive → Option (Option Platform)
  | .platform target => some target
  | _ => none

def level? : Directive → Option UInt32
  | .bytecodeCompression level => some level
  | _ => none

end Directive

namespace BuildConfig

/-- The settings that directives leave, each told on its own. -/
def after (config : BuildConfig) (directives : List Directive) : BuildConfig :=
  { config with
    includeDirs := (directives.filterMap Directive.include?).reverse ++ config.includeDirs
    plugins := config.plugins ++ directives.filterMap Directive.plugin?
    stubVariant := (directives.reverse.findSome? Directive.stub?).getD config.stubVariant
    compiledBasename :=
      (directives.reverse.findSome? Directive.basename?).getD config.compiledBasename
    platform := (directives.reverse.findSome? Directive.platform?).getD config.platform
    compressionLevel := (directives.reverse.findSome? Directive.level?).getD config.compressionLevel
    console := config.console || decide (Directive.console ∈ directives) }

@[simp]
theorem after_nil (config : BuildConfig) : config.after [] = config := by
  simp [after]

/-- A directive in front of others is the first one that is applied. -/
theorem after_cons (config : BuildConfig) (directive : Directive) (directives : List Directive) :
    config.after (directive :: directives) = (config.apply directive).after directives := by
  cases directive <;>
    simp [after, apply, List.filterMap_cons, Directive.include?, Directive.plugin?, Directive.stub?,
      Directive.basename?, Directive.platform?, Directive.level?]

@[simp]
theorem after_singleton (config : BuildConfig) (directive : Directive) :
    config.after [directive] = config.apply directive := by
  rw [after_cons, after_nil]

theorem applyText_of_written {text : String} {directive : Directive} (config : BuildConfig)
    (hwritten : Directive.Written (Text.words text) directive) :
    config.applyText text = (.ok directive, config.apply directive) := by
  rw [applyText, Directive.parse_of_written hwritten]

theorem applyText_of_refused {text : String} {error : ConfigError} (config : BuildConfig)
    (hrefused : Directive.Refused text error) :
    config.applyText text = (.error error, config) := by
  rw [applyText, Directive.parse_of_refused hrefused]

/-- A line that is accepted comes before whatever the others come to. -/
theorem applyTexts_cons_of_written {text : String} {directive : Directive} (config : BuildConfig)
    (hwritten : Directive.Written (Text.words text) directive) (texts : List String) :
    config.applyTexts (text :: texts) =
      (((config.apply directive).applyTexts texts).1.map (directive :: ·),
        ((config.apply directive).applyTexts texts).2) := by
  rw [applyTexts, applyText_of_written config hwritten]
  rcases hrest : (config.apply directive).applyTexts texts with ⟨_ | _, _⟩ <;>
    simp only [hrest, Except.map]

theorem applyTexts_cons_of_refused {text : String} {error : ConfigError} (config : BuildConfig)
    (hrefused : Directive.Refused text error) (texts : List String) :
    config.applyTexts (text :: texts) = (.error error, config) := by
  rw [applyTexts, applyText_of_refused config hrefused]

/-- What no line takes away, a list of lines does not. -/
theorem applyTexts_preserves {invariant : BuildConfig → Prop}
    (hstep : ∀ config text, invariant config → invariant (applyText config text).2)
    (texts : List String) {config : BuildConfig} (hconfig : invariant config) :
    invariant (config.applyTexts texts).2 := by
  induction texts generalizing config with
  | nil => exact hconfig
  | cons text texts ih =>
      have hnext := hstep config text hconfig
      rcases Directive.written_or_refused text with ⟨directive, hwritten⟩ | ⟨error, hrefused⟩
      · rw [applyText_of_written config hwritten] at hnext
        rw [applyTexts_cons_of_written config hwritten]
        exact ih hnext
      · rwa [applyTexts_cons_of_refused config hrefused]

theorem applyText_level_le (config : BuildConfig) (text : String)
    (hlevel : config.compressionLevel.toNat ≤ maxLevel) :
    (config.applyText text).2.compressionLevel.toNat ≤ maxLevel := by
  rcases Directive.written_or_refused text with ⟨directive, hwritten⟩ | ⟨error, hrefused⟩
  · rw [applyText_of_written config hwritten]
    generalize Text.words text = words at hwritten
    cases hwritten with
    | level hargument hread hrange => exact hrange
    | _ => exact hlevel
  · rwa [applyText_of_refused config hrefused]

/-- Lines are applied as far as they are directives, and the one that is none is reported. -/
theorem exists_front (config : BuildConfig) (texts : List String) :
    ∃ front back directives,
      texts = front ++ back ∧
      List.Forall₂ (fun text directive => Directive.Written (Text.words text) directive)
        front directives ∧
      (config.applyTexts texts).2 = config.after directives ∧
      (back = [] ∧ (config.applyTexts texts).1 = .ok directives ∨
        ∃ text later error, back = text :: later ∧ Directive.Refused text error ∧
          (config.applyTexts texts).1 = .error error) := by
  -- The settings vary: the lines behind a directive are applied to what it leaves.
  induction texts generalizing config with
  | nil => exact ⟨[], [], [], rfl, .nil, by simp [applyTexts], .inl ⟨rfl, rfl⟩⟩
  | cons text texts ih =>
      rcases Directive.written_or_refused text with ⟨directive, hwritten⟩ | ⟨error, hrefused⟩
      · obtain ⟨front, back, directives, htexts, hfront, hconfig, hend⟩ :=
          ih (config.apply directive)
        rw [applyTexts_cons_of_written config hwritten]
        refine ⟨text :: front, back, directive :: directives, by rw [htexts, List.cons_append],
          .cons hwritten hfront, hconfig.trans (after_cons config directive directives).symm, ?_⟩
        rcases hend with ⟨hback, hoks⟩ | ⟨refused, later, error, hback, hrefused, herror⟩
        · exact .inl ⟨hback, by rw [hoks]; rfl⟩
        · exact .inr ⟨refused, later, error, hback, hrefused, by rw [herror]; rfl⟩
      · rw [applyTexts_cons_of_refused config hrefused]
        exact ⟨[], text :: texts, [], rfl, .nil, (after_nil config).symm,
          .inr ⟨text, texts, error, rfl, hrefused, rfl⟩⟩

/-- Lines with the same words do the same, and an error differs in what it quotes. -/
theorem applyTexts_congr (config : BuildConfig) {texts texts' : List String}
    (hwords : texts'.map Text.words = texts.map Text.words) :
    (config.applyTexts texts').2 = (config.applyTexts texts).2 ∧
      (config.applyTexts texts').1.mapError ConfigError.unquoted =
        (config.applyTexts texts).1.mapError ConfigError.unquoted := by
  induction texts generalizing config texts' with
  | nil =>
      obtain rfl : texts' = [] := List.map_eq_nil_iff.mp hwords
      exact ⟨rfl, rfl⟩
  | cons text texts ih =>
      obtain ⟨text', rest, rfl, htext, hrest⟩ := List.map_eq_cons_iff.mp hwords
      rcases Directive.written_or_refused text with ⟨directive, hwritten⟩ | ⟨error, hrefused⟩
      · obtain ⟨hconfig, houtcome⟩ := ih (config.apply directive) hrest
        rw [applyTexts_cons_of_written config hwritten,
          applyTexts_cons_of_written config (htext ▸ hwritten)]
        exact ⟨hconfig, by simp only [mapError_map, houtcome]⟩
      · obtain ⟨error', hrefused', hsame⟩ := hrefused.of_words_eq htext
        rw [applyTexts_cons_of_refused config hrefused,
          applyTexts_cons_of_refused config hrefused']
        exact ⟨rfl, congrArg Except.error hsame⟩

/-- A line that is refused changes nothing.  Of a list of lines, those in front of the first one
that is refused are applied, and each setting is then what its own directives among them make of
it: directories in front, the last ones first, plugins behind, and otherwise the last value that
was given.  The level stays in its range.  What becomes of the settings, and which line is refused
and why, depends on the words of the lines alone. -/
theorem applyTexts_exact (config : BuildConfig) (texts : List String) :
    (∀ text,
      (∃ directive, Directive.Written (Text.words text) directive ∧
        config.applyText text = (.ok directive, config.after [directive])) ∨
      ∃ error, Directive.Refused text error ∧ config.applyText text = (.error error, config)) ∧
    (∃ front back directives,
      texts = front ++ back ∧
      List.Forall₂ (fun text directive => Directive.Written (Text.words text) directive)
        front directives ∧
      (config.applyTexts texts).2 = config.after directives ∧
      (back = [] ∧ (config.applyTexts texts).1 = .ok directives ∨
        ∃ text later error, back = text :: later ∧ Directive.Refused text error ∧
          (config.applyTexts texts).1 = .error error)) ∧
    (config.compressionLevel.toNat ≤ 9 →
      (config.applyTexts texts).2.compressionLevel.toNat ≤ 9) ∧
    ∀ texts', texts'.map Text.words = texts.map Text.words →
      (config.applyTexts texts').2 = (config.applyTexts texts).2 ∧
      (config.applyTexts texts').1.mapError ConfigError.unquoted =
        (config.applyTexts texts).1.mapError ConfigError.unquoted := by
  refine ⟨fun text => ?_, exists_front config texts,
    applyTexts_preserves applyText_level_le texts, fun texts' => applyTexts_congr config⟩
  rcases Directive.written_or_refused text with ⟨directive, hwritten⟩ | ⟨error, hrefused⟩
  · refine .inl ⟨directive, hwritten, ?_⟩
    rw [after_singleton, applyText_of_written config hwritten]
  · exact .inr ⟨error, hrefused, applyText_of_refused config hrefused⟩

/-- Lines that are spaced in two ways, the last of which has an argument too many. -/
theorem applyTexts_exact_respaced :
    (BuildConfig.compressionLevel {}).toNat ≤ 9 ∧
    [" include\tvendor", "console  please "].map Text.words =
      ["include vendor", "console please"].map Text.words ∧
    (applyTexts {} ["include vendor", "console please"]).2.compressionLevel.toNat ≤ 9 ∧
    (applyTexts {} [" include\tvendor", "console  please "]).2 =
      (applyTexts {} ["include vendor", "console please"]).2 := by
  have hlevel : (BuildConfig.compressionLevel {}).toNat ≤ 9 := by decide
  have hwords : [" include\tvendor", "console  please "].map Text.words =
      ["include vendor", "console please"].map Text.words := by decide +kernel
  have hexact := applyTexts_exact {} ["include vendor", "console please"]
  exact ⟨hlevel, hwords, hexact.2.2.1 hlevel, (hexact.2.2.2 _ hwords).1⟩

example :
    (applyTexts {} ["include libs", "include vendor", "platform mac", "bytecode_compression 3",
      "platform auto", "console please", "stub nc"]).2 =
      { includeDirs := [⟨"vendor"⟩, ⟨"libs"⟩], compressionLevel := 3 } := by
  decide +kernel

end BuildConfig

end ScriptBundle
