/-!
# Engine properties

The engine numbers its properties from 1; slot 0 of a table belongs to none of
them.  Each property has a name, its slot and the value of a fresh engine.
-/

namespace ScriptBundle

inductive EngineProperty where
  | allowUnsafeReferences
  | optimizeBytecode
  | copyScriptSections
  | maxStackSize
  | useCharacterLiterals
  | allowMultilineStrings
  | allowImplicitHandleTypes
  | buildWithoutLineCues
  | initGlobalVarsAfterBuild
  | requireEnumScope
  | scriptScanner
  | includeJitInstructions
  | stringEncoding
  | propertyAccessorMode
  | expandDefaultArrayToTemplate
  | autoGarbageCollect
  | disallowGlobalVars
  | alwaysImplDefaultConstruct
  | compilerWarnings
  | disallowValueAssignForRefType
  | alterSyntaxNamedArgs
  | disableIntegerDivision
  | disallowEmptyListElements
  | privatePropAsProtected
  | allowUnicodeIdentifiers
  | heredocTrimMode
  | maxNestedCalls
  | genericCallMode
  | initStackSize
  | initCallStackSize
  | maxCallStackSize
  | ignoreDuplicateSharedInterface
  | noDebugOutput
  | disableScriptClassGc
  | jitInterfaceVersion
  | alwaysImplDefaultCopy
  | alwaysImplDefaultCopyConstruct
  | memberInitMode
  | boolConversionMode
  | foreachSupport
  deriving DecidableEq, Repr

namespace EngineProperty

/-- Number of slots in a full property table. -/
def slotCount : Nat := 41

/-- The slot of a property. -/
def index (property : EngineProperty) : Nat :=
  property.ctorIdx + 1

/-- Every property in the order of its slots. -/
def all : List EngineProperty :=
  [.allowUnsafeReferences, .optimizeBytecode, .copyScriptSections, .maxStackSize,
   .useCharacterLiterals, .allowMultilineStrings, .allowImplicitHandleTypes,
   .buildWithoutLineCues, .initGlobalVarsAfterBuild, .requireEnumScope, .scriptScanner,
   .includeJitInstructions, .stringEncoding, .propertyAccessorMode,
   .expandDefaultArrayToTemplate, .autoGarbageCollect, .disallowGlobalVars,
   .alwaysImplDefaultConstruct, .compilerWarnings, .disallowValueAssignForRefType,
   .alterSyntaxNamedArgs, .disableIntegerDivision, .disallowEmptyListElements,
   .privatePropAsProtected, .allowUnicodeIdentifiers, .heredocTrimMode, .maxNestedCalls,
   .genericCallMode, .initStackSize, .initCallStackSize, .maxCallStackSize,
   .ignoreDuplicateSharedInterface, .noDebugOutput, .disableScriptClassGc,
   .jitInterfaceVersion, .alwaysImplDefaultCopy, .alwaysImplDefaultCopyConstruct,
   .memberInitMode, .boolConversionMode, .foreachSupport]

def name : EngineProperty → String
  | .allowUnsafeReferences => "AllowUnsafeReferences"
  | .optimizeBytecode => "OptimizeBytecode"
  | .copyScriptSections => "CopyScriptSections"
  | .maxStackSize => "MaxStackSize"
  | .useCharacterLiterals => "UseCharacterLiterals"
  | .allowMultilineStrings => "AllowMultilineStrings"
  | .allowImplicitHandleTypes => "AllowImplicitHandleTypes"
  | .buildWithoutLineCues => "BuildWithoutLineCues"
  | .initGlobalVarsAfterBuild => "InitGlobalVarsAfterBuild"
  | .requireEnumScope => "RequireEnumScope"
  | .scriptScanner => "ScriptScanner"
  | .includeJitInstructions => "IncludeJitInstructions"
  | .stringEncoding => "StringEncoding"
  | .propertyAccessorMode => "PropertyAccessorMode"
  | .expandDefaultArrayToTemplate => "ExpandDefaultArrayToTemplate"
  | .autoGarbageCollect => "AutoGarbageCollect"
  | .disallowGlobalVars => "DisallowGlobalVars"
  | .alwaysImplDefaultConstruct => "AlwaysImplDefaultConstruct"
  | .compilerWarnings => "CompilerWarnings"
  | .disallowValueAssignForRefType => "DisallowValueAssignForRefType"
  | .alterSyntaxNamedArgs => "AlterSyntaxNamedArgs"
  | .disableIntegerDivision => "DisableIntegerDivision"
  | .disallowEmptyListElements => "DisallowEmptyListElements"
  | .privatePropAsProtected => "PrivatePropAsProtected"
  | .allowUnicodeIdentifiers => "AllowUnicodeIdentifiers"
  | .heredocTrimMode => "HeredocTrimMode"
  | .maxNestedCalls => "MaxNestedCalls"
  | .genericCallMode => "GenericCallMode"
  | .initStackSize => "InitStackSize"
  | .initCallStackSize => "InitCallStackSize"
  | .maxCallStackSize => "MaxCallStackSize"
  | .ignoreDuplicateSharedInterface => "IgnoreDuplicateSharedInterface"
  | .noDebugOutput => "NoDebugOutput"
  | .disableScriptClassGc => "DisableScriptClassGc"
  | .jitInterfaceVersion => "JitInterfaceVersion"
  | .alwaysImplDefaultCopy => "AlwaysImplDefaultCopy"
  | .alwaysImplDefaultCopyConstruct => "AlwaysImplDefaultCopyConstruct"
  | .memberInitMode => "MemberInitMode"
  | .boolConversionMode => "BoolConversionMode"
  | .foreachSupport => "ForeachSupport"

/-- The value that a fresh engine reports. -/
def default : EngineProperty → UInt64
  | .optimizeBytecode | .copyScriptSections | .initGlobalVarsAfterBuild | .scriptScanner
  | .autoGarbageCollect | .compilerWarnings | .genericCallMode | .heredocTrimMode
  | .jitInterfaceVersion | .memberInitMode | .foreachSupport => 1
  | .propertyAccessorMode => 3
  | .maxNestedCalls => 100
  | .initStackSize => 4096
  | .initCallStackSize => 10
  | _ => 0

end EngineProperty

end ScriptBundle
