import ScriptBundle.Engine.PropertyTable

/-!
# Scripting options

The options of a project that end up in the property table of its artifact.  A
flag only ever changes its property when it is set, to the value it stands for; a
number always replaces the value of its property.
-/

namespace ScriptBundle

structure ScriptingOptions where
  allowMultilineStrings : Bool := false
  allowUnicodeIdentifiers : Bool := false
  allowImplicitHandleTypes : Bool := false
  disallowEmptyListElements : Bool := false
  disallowGlobalVars : Bool := false
  disallowValueAssignForRefType : Bool := false
  disableIntegerDivision : Bool := false
  useCharacterLiterals : Bool := false
  ignoreDuplicateSharedInterface : Bool := false
  privatePropAsProtected : Bool := false
  alwaysImplDefaultConstruct : Bool := false
  expandDefaultArrayToTemplate : Bool := false
  requireEnumScope : Bool := false
  doNotOptimizeBytecode : Bool := false
  maxNestedCalls : UInt64 := 10000
  maxStackSize : UInt64 := 0
  maxCallStackSize : UInt64 := 0
  initStackSize : UInt64 := 4096
  initCallStackSize : UInt64 := 10
  propertyAccessorMode : UInt64 := 3
  /-- Zero for no warnings, one for warnings, two for warnings beside errors. -/
  compilerWarnings : UInt64 := 0
  heredocTrimMode : UInt64 := 1
  alterSyntaxNamedArgs : UInt64 := 2
  deriving DecidableEq, Repr, Inhabited

namespace ScriptingOptions

/-- The flags, the property each of them changes, and the value it stands for. -/
def flags (options : ScriptingOptions) : List (Bool × EngineProperty × UInt64) :=
  [(options.allowMultilineStrings, .allowMultilineStrings, 1),
   (options.allowUnicodeIdentifiers, .allowUnicodeIdentifiers, 1),
   (options.allowImplicitHandleTypes, .allowImplicitHandleTypes, 1),
   (options.disallowEmptyListElements, .disallowEmptyListElements, 1),
   (options.disallowGlobalVars, .disallowGlobalVars, 1),
   (options.disallowValueAssignForRefType, .disallowValueAssignForRefType, 1),
   (options.disableIntegerDivision, .disableIntegerDivision, 1),
   (options.useCharacterLiterals, .useCharacterLiterals, 1),
   (options.ignoreDuplicateSharedInterface, .ignoreDuplicateSharedInterface, 1),
   (options.privatePropAsProtected, .privatePropAsProtected, 1),
   (options.alwaysImplDefaultConstruct, .alwaysImplDefaultConstruct, 1),
   (options.expandDefaultArrayToTemplate, .expandDefaultArrayToTemplate, 1),
   (options.requireEnumScope, .requireEnumScope, 1),
   (options.doNotOptimizeBytecode, .optimizeBytecode, 0)]

/-- The numbers and the property each of them sets. -/
def numbers (options : ScriptingOptions) : List (EngineProperty × UInt64) :=
  [(.maxNestedCalls, options.maxNestedCalls),
   (.maxStackSize, options.maxStackSize),
   (.maxCallStackSize, options.maxCallStackSize),
   (.initStackSize, options.initStackSize),
   (.initCallStackSize, options.initCallStackSize),
   (.propertyAccessorMode, options.propertyAccessorMode),
   (.compilerWarnings, options.compilerWarnings),
   (.heredocTrimMode, options.heredocTrimMode),
   (.alterSyntaxNamedArgs, options.alterSyntaxNamedArgs)]

/-- Writes the options into a table. -/
def applyTo (options : ScriptingOptions) (table : PropertyTable) : PropertyTable :=
  let flagged := options.flags.foldl
    (fun table flag => if flag.1 then table.set flag.2.1 flag.2.2 else table) table
  options.numbers.foldl (fun table number => table.set number.1 number.2) flagged

end ScriptingOptions

/-- The table of an artifact: that of a fresh engine as the packer sets it up,
with the options on top. -/
def PropertyTable.ofOptions (options : ScriptingOptions) (debug : Bool) : PropertyTable :=
  options.applyTo
    (((baseline.set .allowUnsafeReferences 1).set .initGlobalVarsAfterBuild 0).set
      .buildWithoutLineCues (if debug then 0 else 1))

end ScriptBundle
