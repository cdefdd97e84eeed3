import ScriptBundle.Config.Files
import ScriptBundle.Proofs.Files.Following
import ScriptBundle.Proofs.Lookup
import ScriptBundle.Proofs.Text.Utf8
import ScriptBundle.Proofs.Toml.RoundTrip

/-!
# Settings are saved and loaded

Saved settings name every value but those that are absent, so each setting is read from
the member of its name, and an absent one from nothing.
-/

namespace ScriptBundle

open Toml (Value Writable WritableMembers WritableSections IsBareName)

/-! ## Parts -/

namespace Toml.Value

section Fields

variable {α β : Type} {members : List (String × Value)} {name : String} {read : Value → Option α}

theorem field_of_lookup {part : Value} {value : α} (hlookup : members.lookup name = some part)
    (hread : read part = some value) (position : Nat) (absent : α) :
    (Value.table members).field position name read absent = some value := by
  rw [field, part?, hlookup]
  exact hread

/-- What is written is read, and what is absent stays absent. -/
theorem field_of_lookup_map {entry : Option β} (write : β → Value)
    {read : Value → Option (Option β)} (hlookup : members.lookup name = entry.map write)
    (hread : ∀ value, read (write value) = some (some value)) (position : Nat) :
    (Value.table members).field position name read none = some entry := by
  rw [field, part?, hlookup]
  cases entry with
  | none => rfl
  | some value => exact hread value

end Fields

theorem boolean?_boolean (value : Bool) : (Value.boolean value).boolean? = some value := rfl

theorem uint32?_toNat (value : UInt32) :
    (Value.integer value.toNat).uint32? = some value := by
  have hbound : (0 : Int) ≤ value.toNat ∧ (value.toNat : Int) < UInt32.size :=
    ⟨Int.natCast_nonneg _, Int.ofNat_lt.mpr value.toNat_lt⟩
  rw [uint32?, nat?, if_pos hbound, Option.map_some, Int.toNat_natCast, UInt32.ofNat_toNat]

theorem uint64?_toNat (value : UInt64) :
    (Value.integer value.toNat).uint64? = some value := by
  have hbound : (0 : Int) ≤ value.toNat ∧ (value.toNat : Int) < UInt64.size :=
    ⟨Int.natCast_nonneg _, Int.ofNat_lt.mpr value.toNat_lt⟩
  rw [uint64?, nat?, if_pos hbound, Option.map_some, Int.toNat_natCast, UInt64.ofNat_toNat]

theorem texts?_map {α : Type} (items : List α) (text : α → String) :
    (Value.array (items.map fun item => .string (text item))).texts? = some (items.map text) := by
  induction items with
  | nil => rfl
  | cons item items ih =>
      rw [texts?] at ih ⊢
      rw [List.map_cons, List.mapM_cons, ih]
      rfl

theorem texts?_strings (items : List String) :
    (Value.array (items.map .string)).texts? = some items :=
  (texts?_map items id).trans (congrArg some (List.map_id items))

end Toml.Value

/-! ## Build settings -/

theorem Platform.ofName?_name (platform : Platform) :
    Platform.ofName? platform.name = some platform := by
  cases platform with
  | windows | linux | mac => rfl

namespace BuildConfig

@[simp]
theorem lookup_optional (name key : String) (text : Option String) :
    (optional name text).lookup key = if key = name then text.map Value.string else none := by
  cases text with
  | none => simp [optional]
  | some text =>
      by_cases hkey : key = name
      · subst hkey
        simp [optional]
      · rw [optional, lookup_cons_of_ne hkey, if_neg hkey]
        rfl

/-- Every setting is read from what is written for it. -/
theorem ofValue?_members (config : BuildConfig) :
    ofValue? (.table config.members) = some config := by
  have hplatform : (Value.table config.members).field 0 "platform"
      (fun part => (part.choice?.bind Platform.ofName?).map some) none = some config.platform := by
    apply Value.field_of_lookup_map fun platform => .string platform.name
    · simp [members, List.lookup_append, List.lookup_cons, Function.comp_def]
    · exact fun platform => congrArg (Option.map some) (Platform.ofName?_name platform)
  have hvariant : (Value.table config.members).field 1 "stub_variant"
      (fun part => part.text?.map some) none = some config.stubVariant := by
    apply Value.field_of_lookup_map .string
    · simp [members, List.lookup_append, List.lookup_cons]
    · exact fun _ => rfl
  have hbasename : (Value.table config.members).field 2 "compiled_basename"
      (fun part => part.text?.map some) none = some config.compiledBasename := by
    apply Value.field_of_lookup_map .string
    · simp [members, List.lookup_append, List.lookup_cons]
    · exact fun _ => rfl
  have hlevel : (Value.table config.members).field 3 "compression_level" Value.uint32? 9 =
      some config.compressionLevel := by
    apply Value.field_of_lookup _ (Value.uint32?_toNat _)
    simp [members, List.lookup_append]
  have hconsole : (Value.table config.members).field 4 "console" Value.boolean? false =
      some config.console := by
    apply Value.field_of_lookup _ (Value.boolean?_boolean _)
    simp [members, List.lookup_append, List.lookup_cons]
  have hdebug : (Value.table config.members).field 5 "debug" Value.boolean? true =
      some config.debug := by
    apply Value.field_of_lookup _ (Value.boolean?_boolean _)
    simp [members, List.lookup_append, List.lookup_cons]
  have hdirectories : (Value.table config.members).field 6 "include_dirs"
      (fun part => part.texts?.map (·.map Path.mk)) [] = some config.includeDirs := by
    have hlookup : config.members.lookup "include_dirs" =
        some (.array (config.includeDirs.map fun directory => .string directory.text)) := by
      simp [members, List.lookup_append, List.lookup_cons]
    apply Value.field_of_lookup hlookup
    · rw [Value.texts?_map, Option.map_some, List.map_map]
      exact congrArg some (List.map_id _)
  have hplugins : (Value.table config.members).field 7 "plugins" Value.texts? [] =
      some config.plugins := by
    apply Value.field_of_lookup _ (Value.texts?_strings _)
    simp [members, List.lookup_append, List.lookup_cons]
  have hquiet : (Value.table config.members).field 8 "quiet" Value.boolean? false =
      some config.quiet := by
    apply Value.field_of_lookup _ (Value.boolean?_boolean _)
    simp [members, List.lookup_append, List.lookup_cons]
  have hstubDir : (Value.table config.members).field 9 "stub_dir"
      (fun part => part.text?.map fun text => some ⟨text⟩) none = some config.stubDir := by
    apply Value.field_of_lookup_map fun directory => .string directory.text
    · simp [members, List.lookup_append, List.lookup_cons, Function.comp_def]
    · exact fun _ => rfl
  rw [ofValue?, hplatform, hvariant, hbasename, hlevel, hconsole, hdebug, hdirectories, hplugins,
    hquiet, hstubDir]
  rfl

end BuildConfig

namespace ScriptingOptions

/-- No two options have the same name. -/
theorem distinct_members (options : ScriptingOptions) :
    (options.members.map (·.1)).Nodup := by
  have hnames : options.members.map (·.1) = ({} : ScriptingOptions).members.map (·.1) := rfl
  rw [hnames]
  decide +kernel

/-- Every option is read from what is written for it. -/
theorem ofValue?_members (options : ScriptingOptions) :
    ofValue? (.table options.members) = some options := by
  have hflag : ∀ name value, (name, value) ∈ options.namedFlags → ∀ position,
      (Value.table options.members).field position name Value.boolean? false = some value := by
    intro name value hmem position
    apply Value.field_of_lookup _ (Value.boolean?_boolean value)
    apply (lookup_eq_some_iff_mem options.distinct_members).mpr
    exact List.mem_append_left _ (List.mem_map.mpr ⟨(name, value), hmem, rfl⟩)
  have hnumber : ∀ name value, (name, value) ∈ options.namedNumbers → ∀ position absent,
      (Value.table options.members).field position name Value.uint64? absent = some value := by
    intro name value hmem position absent
    apply Value.field_of_lookup _ (Value.uint64?_toNat value)
    apply (lookup_eq_some_iff_mem options.distinct_members).mpr
    exact List.mem_append_right _ (List.mem_map.mpr ⟨(name, value), hmem, rfl⟩)
  rw [ofValue?]
  simp only [Value.isRecord, Bool.not_true, Bool.false_eq_true, if_false,
    hflag "allow_multiline_strings" options.allowMultilineStrings (by simp [namedFlags]),
    hflag "allow_unicode_identifiers" options.allowUnicodeIdentifiers (by simp [namedFlags]),
    hflag "allow_implicit_handle_types" options.allowImplicitHandleTypes (by simp [namedFlags]),
    hflag "disallow_empty_list_elements" options.disallowEmptyListElements (by simp [namedFlags]),
    hflag "disallow_global_vars" options.disallowGlobalVars (by simp [namedFlags]),
    hflag "disallow_value_assign_for_ref_type" options.disallowValueAssignForRefType
      (by simp [namedFlags]),
    hflag "disable_integer_division" options.disableIntegerDivision (by simp [namedFlags]),
    hflag "use_character_literals" options.useCharacterLiterals (by simp [namedFlags]),
    hflag "ignore_duplicate_shared_interface" options.ignoreDuplicateSharedInterface
      (by simp [namedFlags]),
    hflag "private_prop_as_protected" options.privatePropAsProtected (by simp [namedFlags]),
    hflag "always_impl_default_construct" options.alwaysImplDefaultConstruct (by simp [namedFlags]),
    hflag "expand_default_array_to_template" options.expandDefaultArrayToTemplate
      (by simp [namedFlags]),
    hflag "require_enum_scope" options.requireEnumScope (by simp [namedFlags]),
    hflag "do_not_optimize_bytecode" options.doNotOptimizeBytecode (by simp [namedFlags]),
    hnumber "max_nested_calls" options.maxNestedCalls (by simp [namedNumbers]),
    hnumber "max_stack_size" options.maxStackSize (by simp [namedNumbers]),
    hnumber "max_call_stack_size" options.maxCallStackSize (by simp [namedNumbers]),
    hnumber "init_stack_size" options.initStackSize (by simp [namedNumbers]),
    hnumber "init_call_stack_size" options.initCallStackSize (by simp [namedNumbers]),
    hnumber "property_accessor_mode" options.propertyAccessorMode (by simp [namedNumbers]),
    hnumber "compiler_warnings" options.compilerWarnings (by simp [namedNumbers]),
    hnumber "heredoc_trim_mode" options.heredocTrimMode (by simp [namedNumbers]),
    hnumber "alter_syntax_named_args" options.alterSyntaxNamedArgs (by simp [namedNumbers])]
  rfl

theorem writable_members {options : ScriptingOptions}
    (hnumbers : ∀ number ∈ options.namedNumbers, number.2.toNat ≤ 9223372036854775807) :
    WritableMembers options.members where
  distinct := options.distinct_members
  bare := by
    intro member hmember
    have hname : member.1 ∈ ({} : ScriptingOptions).members.map (·.1) :=
      List.mem_map_of_mem (f := (·.1)) hmember
    have hbare : ∀ name ∈ ({} : ScriptingOptions).members.map (·.1), IsBareName name := by
      decide +kernel
    exact hbare member.1 hname
  values := by
    intro member hmember
    rcases List.mem_append.mp hmember with hflag | hnumber
    · obtain ⟨flag, -, rfl⟩ := List.mem_map.mp hflag
      trivial
    · obtain ⟨number, hmem, rfl⟩ := List.mem_map.mp hnumber
      exact ⟨Int.le_trans (by decide) (Int.natCast_nonneg _),
        Int.ofNat_le.mpr (hnumbers number hmem)⟩

end ScriptingOptions

namespace BuildConfig

theorem eq_of_mem_optional {name : String} {text : Option String} {member : String × Value}
    (hmember : member ∈ optional name text) : ∃ text, member = (name, .string text) := by
  cases text with
  | none => cases hmember
  | some text => exact ⟨text, List.mem_singleton.mp hmember⟩

/-- The members of settings that leave nothing out. -/
def names : List String :=
  ["platform", "stub_variant", "compiled_basename", "compression_level", "console", "debug",
    "include_dirs", "plugins", "quiet", "stub_dir"]

theorem map_fst_optional (name : String) (text : Option String) :
    ((optional name text).map (·.1)).Sublist [name] := by
  cases text with
  | none => exact List.nil_sublist _
  | some text => exact List.Sublist.refl _

theorem map_fst_members (config : BuildConfig) : (config.members.map (·.1)).Sublist names := by
  simp only [members, List.map_append]
  exact ((((map_fst_optional _ _).append (map_fst_optional _ _)).append
    (map_fst_optional _ _)).append (List.Sublist.refl _)).append (map_fst_optional _ _)

theorem writable_texts {α : Type} (items : List α) (text : α → String) :
    Writable (Toml.maxDepth - 1) (.array (items.map fun item => .string (text item))) := by
  intro item hitem
  obtain ⟨other, -, rfl⟩ := List.mem_map.mp hitem
  trivial

theorem writable_members (config : BuildConfig) : WritableMembers config.members where
  distinct := (by decide +kernel : names.Nodup).sublist config.map_fst_members
  bare := by
    intro member hmember
    have hbare : ∀ name ∈ names, IsBareName name := by decide +kernel
    exact hbare member.1 (config.map_fst_members.subset (List.mem_map_of_mem hmember))
  values := by
    have hoptional : ∀ name text, ∀ member ∈ optional name text,
        Writable (Toml.maxDepth - 1) member.2 := by
      intro name text member hmember
      obtain ⟨value, rfl⟩ := eq_of_mem_optional hmember
      trivial
    have hlevel : Writable (Toml.maxDepth - 1) (.integer config.compressionLevel.toNat) := by
      have hbound := config.compressionLevel.toNat_lt
      constructor <;> omega
    have hrequired : ∀ member ∈ [("compression_level", Value.integer config.compressionLevel.toNat),
        ("console", .boolean config.console), ("debug", .boolean config.debug),
        ("include_dirs", .array (config.includeDirs.map fun directory => .string directory.text)),
        ("plugins", .array (config.plugins.map .string)), ("quiet", .boolean config.quiet)],
        Writable (Toml.maxDepth - 1) member.2 := by
      simp only [List.forall_mem_cons]
      exact ⟨hlevel, trivial, trivial, writable_texts _ _, writable_texts _ id, trivial, nofun⟩
    simp only [members, List.forall_mem_append]
    exact ⟨⟨⟨⟨hoptional _ _, hoptional _ _⟩, hoptional _ _⟩, hrequired⟩, hoptional _ _⟩

end BuildConfig

/-! ## Documents and files -/

namespace PackConfig

theorem ofValue?_sections (config : PackConfig) :
    ofValue? (.table [("build", .table config.build.members),
      ("scripting", .table config.scripting.members)]) = some config := by
  have hbuild : (Value.table [("build", .table config.build.members),
      ("scripting", .table config.scripting.members)]).field 0 "build" BuildConfig.ofValue? {} =
        some config.build :=
    Value.field_of_lookup rfl config.build.ofValue?_members 0 {}
  have hscripting : (Value.table [("build", .table config.build.members),
      ("scripting", .table config.scripting.members)]).field 1 "scripting"
        ScriptingOptions.ofValue? {} = some config.scripting :=
    Value.field_of_lookup rfl config.scripting.ofValue?_members 1 {}
  rw [ofValue?, hbuild, hscripting]
  rfl

/-- Settings whose numbers fit have a document, and it holds them. -/
theorem document_then_ofDocument? {config : PackConfig}
    (hnumbers : ∀ number ∈ config.scripting.namedNumbers,
      number.2.toNat ≤ 9223372036854775807) :
    ∃ text, config.document = .ok text ∧ ofDocument? text = some config := by
  have hfits : (config.scripting.namedNumbers.all fun number =>
      number.2.toNat ≤ 9223372036854775807) = true := by
    rw [List.all_eq_true]
    exact fun number hnumber => decide_eq_true (hnumbers number hnumber)
  have hsections : WritableSections
      [("build", config.build.members), ("scripting", config.scripting.members)] :=
    { distinct := (by decide : ["build", "scripting"].Nodup)
      bare := by simp only [List.forall_mem_cons]; exact ⟨by decide, by decide, nofun⟩
      members := by
        simp only [List.forall_mem_cons]
        exact ⟨config.build.writable_members, ScriptingOptions.writable_members hnumbers, nofun⟩ }
  refine ⟨_, if_pos hfits, ?_⟩
  rw [ofDocument?, Toml.parse?_renderSections hsections, Option.bind_some]
  exact config.ofValue?_sections

/-- Settings whose numbers fit are saved if their file can be written, and then the file
holds their document. -/
theorem save_eq_ok {config : PackConfig} {system prepared : FileSystem} {path : Path}
    {location : Location} {text : String} (hdocument : config.document = .ok text)
    (hdirectory : makeDirectory system path = (.ok (), prepared))
    (hwritable : prepared.locateForWriting path = .ok location) :
    ∃ saved executable, config.save system path = (.ok (), saved) ∧
      saved.find path = .ok (location, .file text.toUTF8.toList executable) := by
  obtain ⟨executable, hwrite⟩ := FileSystem.write_eq_ok hwritable text.toUTF8.toList
  refine ⟨_, executable, ?_, FileSystem.find_put hwritable _⟩
  rw [save, hdirectory]
  simp only [hdocument, hwrite]

theorem writable_of_save {config : PackConfig} {system saved : FileSystem} {path : Path}
    (hsave : config.save system path = (.ok (), saved)) :
    ∃ prepared location, makeDirectory system path = (.ok (), prepared) ∧
      prepared.locateForWriting path = .ok location := by
  rcases hdirectory : makeDirectory system path with ⟨error | ⟨⟨⟩⟩, prepared⟩
  · simp [save, hdirectory] at hsave
  · cases hdocument : config.document with
    | error error => simp [save, hdirectory, hdocument] at hsave
    | ok text =>
        cases hwrite : prepared.write path text.toUTF8.toList with
        | error error =>
            simp only [save, hdirectory, hdocument, hwrite] at hsave
            cases hsave
        | ok written =>
            obtain ⟨location, hlocate⟩ := FileSystem.exists_of_write_eq_ok hwrite
            exact ⟨prepared, location, rfl, hlocate⟩

theorem load_document {config : PackConfig} {system : FileSystem} {path : Path} {text : String}
    {location : Location} {executable : Bool} (hvalid : config.build.validate = .ok ())
    (hread : ofDocument? text = some config)
    (hfind : system.find path = .ok (location, .file text.toUTF8.toList executable)) :
    load system path = .ok config := by
  have htext : Text.Utf8.decode? text.toUTF8.toList = some text := by
    rw [Text.Utf8.toUTF8_toList, Text.Utf8.decode?_encode]
  have hexists : system.pathExists path = true := by
    rw [FileSystem.pathExists, hfind]
  rw [load, hexists, FileSystem.read_eq_ok hfind]
  simp only [Bool.not_true, Bool.false_eq_true, if_false, htext, hread, hvalid]
  rfl

/-- Valid settings whose numbers fit are saved whenever there is a place for their file,
and what is loaded after that are the same settings. -/
theorem load_save {config : PackConfig} (hvalid : config.build.validate = .ok ())
    (hnumbers : ∀ number ∈ config.scripting.namedNumbers,
      number.2.toNat ≤ 9223372036854775807) (system : FileSystem) (path : Path) :
    ((∃ saved, config.save system path = (.ok (), saved)) ↔
      ∃ prepared location, makeDirectory system path = (.ok (), prepared) ∧
        prepared.locateForWriting path = .ok location) ∧
    ∀ saved, config.save system path = (.ok (), saved) → load saved path = .ok config := by
  obtain ⟨text, hdocument, hread⟩ := document_then_ofDocument? hnumbers
  refine ⟨⟨fun ⟨_, hsave⟩ => writable_of_save hsave, ?_⟩, ?_⟩
  · rintro ⟨prepared, location, hdirectory, hwritable⟩
    obtain ⟨saved, executable, hsave, -⟩ := save_eq_ok hdocument hdirectory hwritable
    exact ⟨saved, hsave⟩
  · intro saved hsave
    obtain ⟨prepared, location, hdirectory, hwritable⟩ := writable_of_save hsave
    obtain ⟨written, executable, hwritten, hfind⟩ := save_eq_ok hdocument hdirectory hwritable
    obtain rfl : written = saved := (Prod.mk.inj (hwritten.symm.trans hsave)).2
    exact load_document hvalid hread hfind

/-- Settings with a text in every quoted form, and without some of the entries. -/
def quotingSettings : PackConfig where
  build :=
    { platform := some .mac
      stubVariant := some "C:\\stubs \"x\""
      compressionLevel := 0
      includeDirs := [⟨"it's \"here\""⟩]
      plugins :=
        ["plain", "\\ ' \"\"\"", "''' \"\"\"", "one\n\u0007\"\"\"\"two", "\u0000\t\u00e9\\", ""]
      stubDir := some ⟨""⟩ }
  scripting := { maxStackSize := 9223372036854775807, requireEnumScope := true }

/-- The settings are saved to a file whose directory is made for it, and loaded. -/
theorem load_save_quotingSettings :
    quotingSettings.build.validate = .ok () ∧
      (∀ number ∈ quotingSettings.scripting.namedNumbers,
        number.2.toNat ≤ 9223372036854775807) ∧
      ∃ saved,
        quotingSettings.save (FileSystem.empty ["work"]) ⟨"conf/launchpack.toml"⟩ =
            (.ok (), saved) ∧
          load saved ⟨"conf/launchpack.toml"⟩ = .ok quotingSettings := by
  have hvalid : quotingSettings.build.validate = .ok () := rfl
  have hnumbers : ∀ number ∈ quotingSettings.scripting.namedNumbers,
      number.2.toNat ≤ 9223372036854775807 := by
    decide
  obtain ⟨hplace, hload⟩ := load_save hvalid hnumbers (FileSystem.empty ["work"])
    ⟨"conf/launchpack.toml"⟩
  obtain ⟨saved, hsave⟩ := hplace.mpr ⟨_, _, rfl, rfl⟩
  exact ⟨hvalid, hnumbers, saved, hsave, hload saved hsave⟩

end PackConfig

end ScriptBundle
