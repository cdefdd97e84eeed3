import ScriptBundle.Config.Build
import ScriptBundle.Config.Scripting
import ScriptBundle.Toml.Document
import ScriptBundle.Toml.Printer

/-!
# Settings as documents

The settings of a project are a document with a section for the build and one
for the scripting options.  What a document leaves out takes its default, what
it does not know is passed over, and a section may also be a list of its values
in their order.
-/

namespace ScriptBundle

structure PackConfig where
  build : BuildConfig := {}
  scripting : ScriptingOptions := {}
  deriving DecidableEq, Inhabited

namespace Toml.Value

/-- The members of a record: those of a table by name, those of a list by
position. -/
def part? (value : Value) (position : Nat) (name : String) : Option Value :=
  match value with
  | .table members => members.lookup name
  | .array items => items[position]?
  | _ => none

def isRecord : Value → Bool
  | .table _ => true
  | .array _ => true
  | _ => false

/-- Reads a part that may be left out. -/
def field {α : Type} (value : Value) (position : Nat) (name : String) (read : Value → Option α)
    (absent : α) : Option α :=
  match value.part? position name with
  | none => some absent
  | some part => read part

def text? : Value → Option String
  | .string text => some text
  | _ => none

def boolean? : Value → Option Bool
  | .boolean value => some value
  | _ => none

/-- A natural number below a bound. -/
def nat? (bound : Nat) : Value → Option Nat
  | .integer value => if 0 ≤ value ∧ value < bound then some value.toNat else none
  | _ => none

def uint32? (value : Value) : Option UInt32 :=
  (value.nat? UInt32.size).map UInt32.ofNat

def uint64? (value : Value) : Option UInt64 :=
  (value.nat? UInt64.size).map UInt64.ofNat

def texts? : Value → Option (List String)
  | .array items => items.mapM text?
  | _ => none

/-- The name of a choice without content: the name alone, or a table that holds
nothing else. -/
def choice? : Value → Option String
  | .string name => some name
  | .table [(name, .table [])] => some name
  | .table [(name, .array [])] => some name
  | _ => none

end Toml.Value

open Toml (Value)

/-- The platform of exactly this name. -/
def Platform.ofName? (name : String) : Option Platform :=
  [Platform.windows, .linux, .mac].find? fun platform => platform.name = name

namespace BuildConfig

def ofValue? (value : Value) : Option BuildConfig := do
  if !value.isRecord then none
  else
    return {
      platform := ← value.field 0 "platform" (fun part =>
        (part.choice?.bind Platform.ofName?).map some) none
      stubVariant := ← value.field 1 "stub_variant" (fun part => part.text?.map some) none
      compiledBasename := ← value.field 2 "compiled_basename" (fun part => part.text?.map some) none
      compressionLevel := ← value.field 3 "compression_level" Value.uint32? 9
      console := ← value.field 4 "console" Value.boolean? false
      debug := ← value.field 5 "debug" Value.boolean? true
      includeDirs := ← value.field 6 "include_dirs" (fun part => part.texts?.map (·.map Path.mk)) []
      plugins := ← value.field 7 "plugins" Value.texts? []
      quiet := ← value.field 8 "quiet" Value.boolean? false
      stubDir :=
        ← value.field 9 "stub_dir" (fun part => part.text?.map fun text => some ⟨text⟩) none }

/-- A member that is left out if it is absent. -/
def optional (name : String) (text : Option String) : List (String × Value) :=
  match text with
  | some text => [(name, .string text)]
  | none => []

def members (config : BuildConfig) : List (String × Value) :=
  optional "platform" (config.platform.map Platform.name) ++
  optional "stub_variant" config.stubVariant ++
  optional "compiled_basename" config.compiledBasename ++
  [("compression_level", .integer config.compressionLevel.toNat),
   ("console", .boolean config.console),
   ("debug", .boolean config.debug),
   ("include_dirs", .array (config.includeDirs.map fun directory => .string directory.text)),
   ("plugins", .array (config.plugins.map .string)),
   ("quiet", .boolean config.quiet)] ++
  optional "stub_dir" (config.stubDir.map Path.text)

end BuildConfig

namespace ScriptingOptions

def ofValue? (value : Value) : Option ScriptingOptions := do
  if !value.isRecord then none
  else
    let flag (position : Nat) (name : String) := value.field position name Value.boolean? false
    let number (position : Nat) (name : String) (absent : UInt64) :=
      value.field position name Value.uint64? absent
    return {
      allowMultilineStrings := ← flag 0 "allow_multiline_strings"
      allowUnicodeIdentifiers := ← flag 1 "allow_unicode_identifiers"
      allowImplicitHandleTypes := ← flag 2 "allow_implicit_handle_types"
      disallowEmptyListElements := ← flag 3 "disallow_empty_list_elements"
      disallowGlobalVars := ← flag 4 "disallow_global_vars"
      disallowValueAssignForRefType := ← flag 5 "disallow_value_assign_for_ref_type"
      disableIntegerDivision := ← flag 6 "disable_integer_division"
      useCharacterLiterals := ← flag 7 "use_character_literals"
      ignoreDuplicateSharedInterface := ← flag 8 "ignore_duplicate_shared_interface"
      privatePropAsProtected := ← flag 9 "private_prop_as_protected"
      alwaysImplDefaultConstruct := ← flag 10 "always_impl_default_construct"
      expandDefaultArrayToTemplate := ← flag 11 "expand_default_array_to_template"
      requireEnumScope := ← flag 12 "require_enum_scope"
      doNotOptimizeBytecode := ← flag 13 "do_not_optimize_bytecode"
      maxNestedCalls := ← number 14 "max_nested_calls" 10000
      maxStackSize := ← number 15 "max_stack_size" 0
      maxCallStackSize := ← number 16 "max_call_stack_size" 0
      initStackSize := ← number 17 "init_stack_size" 4096
      initCallStackSize := ← number 18 "init_call_stack_size" 10
      propertyAccessorMode := ← number 19 "property_accessor_mode" 3
      compilerWarnings := ← number 20 "compiler_warnings" 0
      heredocTrimMode := ← number 21 "heredoc_trim_mode" 1
      alterSyntaxNamedArgs := ← number 22 "alter_syntax_named_args" 2 }

/-- The flags with their names. -/
def namedFlags (options : ScriptingOptions) : List (String × Bool) :=
  [("allow_multiline_strings", options.allowMultilineStrings),
   ("allow_unicode_identifiers", options.allowUnicodeIdentifiers),
   ("allow_implicit_handle_types", options.allowImplicitHandleTypes),
   ("disallow_empty_list_elements", options.disallowEmptyListElements),
   ("disallow_global_vars", options.disallowGlobalVars),
   ("disallow_value_assign_for_ref_type", options.disallowValueAssignForRefType),
   ("disable_integer_division", options.disableIntegerDivision),
   ("use_character_literals", options.useCharacterLiterals),
   ("ignore_duplicate_shared_interface", options.ignoreDuplicateSharedInterface),
   ("private_prop_as_protected", options.privatePropAsProtected),
   ("always_impl_default_construct", options.alwaysImplDefaultConstruct),
   ("expand_default_array_to_template", options.expandDefaultArrayToTemplate),
   ("require_enum_scope", options.requireEnumScope),
   ("do_not_optimize_bytecode", options.doNotOptimizeBytecode)]

/-- The numbers with their names. -/
def namedNumbers (options : ScriptingOptions) : List (String × UInt64) :=
  [("max_nested_calls", options.maxNestedCalls),
   ("max_stack_size", options.maxStackSize),
   ("max_call_stack_size", options.maxCallStackSize),
   ("init_stack_size", options.initStackSize),
   ("init_call_stack_size", options.initCallStackSize),
   ("property_accessor_mode", options.propertyAccessorMode),
   ("compiler_warnings", options.compilerWarnings),
   ("heredoc_trim_mode", options.heredocTrimMode),
   ("alter_syntax_named_args", options.alterSyntaxNamedArgs)]

def members (options : ScriptingOptions) : List (String × Value) :=
  options.namedFlags.map (fun flag => (flag.1, .boolean flag.2)) ++
  options.namedNumbers.map fun number => (number.1, .integer number.2.toNat)

end ScriptingOptions

namespace PackConfig

def ofValue? (value : Value) : Option PackConfig := do
  return {
    build := ← value.field 0 "build" BuildConfig.ofValue? {}
    scripting := ← value.field 1 "scripting" ScriptingOptions.ofValue? {} }

/-- The settings in a document.  They are not checked for their range. -/
def ofDocument? (text : String) : Option PackConfig :=
  (Toml.parse? text).bind ofValue?

/-- The document of settings.  Numbers have to fit in signed 64 bits. -/
def document (config : PackConfig) : Except ConfigError String :=
  if config.scripting.namedNumbers.all fun number => number.2.toNat ≤ 9223372036854775807 then
    .ok (String.ofList (Toml.renderSections
      [("build", config.build.members), ("scripting", config.scripting.members)]))
  else .error .serialize

end PackConfig

end ScriptBundle
