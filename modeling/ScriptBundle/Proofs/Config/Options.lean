import ScriptBundle.Config.Scripting
import Mathlib.Data.List.Nodup

/-!
# Slots of the scripting options

Each option is wired to a property of its own.  The table of an artifact therefore
tells the options and the debug setting it was made from, and a slot that no option
is wired to holds what the packer sets up.
-/

namespace ScriptBundle

namespace EngineProperty

theorem index_lt (property : EngineProperty) : property.index < slotCount := by
  cases property <;> decide

theorem all_getElem?_index (property : EngineProperty) :
    all[property.index - 1]? = some property := by
  cases property <;> rfl

theorem index_injective : Function.Injective index := by
  intro left right heq
  have hleft := all_getElem?_index left
  rw [heq, all_getElem?_index right] at hleft
  exact (Option.some.inj hleft).symm

end EngineProperty

namespace PropertyTable

variable {table : PropertyTable} {property : EngineProperty} {value : UInt64} {slot : Nat}
  {writes : List (EngineProperty × UInt64)}

/-- A full table is not filled up. -/
theorem set_values (hsize : table.size = EngineProperty.slotCount) :
    (table.set property value).values = table.values.set property.index value := by
  have hindex := property.index_lt
  have hfill : property.index + 1 - table.size = 0 := by omega
  simp only [set, hfill, List.replicate_zero, List.append_nil]

theorem size_set (hsize : table.size = EngineProperty.slotCount) :
    (table.set property value).size = EngineProperty.slotCount := by
  rw [size, set_values hsize, List.length_set]
  exact hsize

theorem set_values_self (hsize : table.size = EngineProperty.slotCount) :
    (table.set property value).values[property.index]? = some value := by
  have hindex : property.index < table.values.length :=
    Nat.lt_of_lt_of_eq property.index_lt hsize.symm
  rw [set_values hsize]
  exact List.getElem?_set_self hindex

theorem set_values_ne (hsize : table.size = EngineProperty.slotCount)
    (hslot : property.index ≠ slot) :
    (table.set property value).values[slot]? = table.values[slot]? := by
  rw [set_values hsize]
  exact List.getElem?_set_ne hslot

/-- One write after the other. -/
def setAll (table : PropertyTable) (writes : List (EngineProperty × UInt64)) : PropertyTable :=
  writes.foldl (fun table write => table.set write.1 write.2) table

theorem size_setAll (hsize : table.size = EngineProperty.slotCount) :
    (table.setAll writes).size = EngineProperty.slotCount := by
  induction writes generalizing table with
  | nil => exact hsize
  | cons write rest ih => exact ih (size_set hsize)

/-- A slot that is not written to keeps its value. -/
theorem setAll_values_frame (hsize : table.size = EngineProperty.slotCount)
    (hslot : ∀ write ∈ writes, write.1.index ≠ slot) :
    (table.setAll writes).values[slot]? = table.values[slot]? := by
  induction writes generalizing table with
  | nil => rfl
  | cons write rest ih =>
      rw [List.forall_mem_cons] at hslot
      calc (table.setAll (write :: rest)).values[slot]?
          = (table.set write.1 write.2).values[slot]? := ih (size_set hsize) hslot.2
        _ = table.values[slot]? := set_values_ne hsize hslot.1

/-- A slot that all writes to it agree about holds what they write. -/
theorem setAll_values_of_mem (hsize : table.size = EngineProperty.slotCount)
    (hmem : (property, value) ∈ writes)
    (hagree : ∀ write ∈ writes, write.1 = property → write.2 = value) :
    (table.setAll writes).values[property.index]? = some value := by
  induction writes generalizing table with
  | nil => cases hmem
  | cons write rest ih =>
      rw [List.forall_mem_cons] at hagree
      by_cases hrest : (property, value) ∈ rest
      · exact ih (size_set hsize) hrest hagree.2
      · obtain rfl : (property, value) = write :=
          (List.mem_cons.mp hmem).resolve_right hrest
        -- A later write to this slot would write the same value, and so be this one.
        have hframe : ∀ later ∈ rest, later.1.index ≠ property.index := by
          intro later hlater heq
          have hproperty := EngineProperty.index_injective heq
          have hvalue := hagree.2 later hlater hproperty
          exact hrest (by rwa [← hproperty, ← hvalue])
        calc (table.setAll ((property, value) :: rest)).values[property.index]?
            = (table.set property value).values[property.index]? :=
              setAll_values_frame (size_set hsize) hframe
          _ = some value := set_values_self hsize

end PropertyTable

inductive ScriptingFlag where
  | allowMultilineStrings
  | allowUnicodeIdentifiers
  | allowImplicitHandleTypes
  | disallowEmptyListElements
  | disallowGlobalVars
  | disallowValueAssignForRefType
  | disableIntegerDivision
  | useCharacterLiterals
  | ignoreDuplicateSharedInterface
  | privatePropAsProtected
  | alwaysImplDefaultConstruct
  | expandDefaultArrayToTemplate
  | requireEnumScope
  | doNotOptimizeBytecode
  deriving DecidableEq, Repr

namespace ScriptingFlag

/-- The flags in the order in which they are applied. -/
def all : List ScriptingFlag :=
  [.allowMultilineStrings, .allowUnicodeIdentifiers, .allowImplicitHandleTypes,
   .disallowEmptyListElements, .disallowGlobalVars, .disallowValueAssignForRefType,
   .disableIntegerDivision, .useCharacterLiterals, .ignoreDuplicateSharedInterface,
   .privatePropAsProtected, .alwaysImplDefaultConstruct, .expandDefaultArrayToTemplate,
   .requireEnumScope, .doNotOptimizeBytecode]

theorem mem_all (flag : ScriptingFlag) : flag ∈ all := by
  cases flag <;> decide

def isSet (options : ScriptingOptions) : ScriptingFlag → Bool
  | .allowMultilineStrings => options.allowMultilineStrings
  | .allowUnicodeIdentifiers => options.allowUnicodeIdentifiers
  | .allowImplicitHandleTypes => options.allowImplicitHandleTypes
  | .disallowEmptyListElements => options.disallowEmptyListElements
  | .disallowGlobalVars => options.disallowGlobalVars
  | .disallowValueAssignForRefType => options.disallowValueAssignForRefType
  | .disableIntegerDivision => options.disableIntegerDivision
  | .useCharacterLiterals => options.useCharacterLiterals
  | .ignoreDuplicateSharedInterface => options.ignoreDuplicateSharedInterface
  | .privatePropAsProtected => options.privatePropAsProtected
  | .alwaysImplDefaultConstruct => options.alwaysImplDefaultConstruct
  | .expandDefaultArrayToTemplate => options.expandDefaultArrayToTemplate
  | .requireEnumScope => options.requireEnumScope
  | .doNotOptimizeBytecode => options.doNotOptimizeBytecode

/-- The property that a flag changes. -/
def property : ScriptingFlag → EngineProperty
  | .allowMultilineStrings => .allowMultilineStrings
  | .allowUnicodeIdentifiers => .allowUnicodeIdentifiers
  | .allowImplicitHandleTypes => .allowImplicitHandleTypes
  | .disallowEmptyListElements => .disallowEmptyListElements
  | .disallowGlobalVars => .disallowGlobalVars
  | .disallowValueAssignForRefType => .disallowValueAssignForRefType
  | .disableIntegerDivision => .disableIntegerDivision
  | .useCharacterLiterals => .useCharacterLiterals
  | .ignoreDuplicateSharedInterface => .ignoreDuplicateSharedInterface
  | .privatePropAsProtected => .privatePropAsProtected
  | .alwaysImplDefaultConstruct => .alwaysImplDefaultConstruct
  | .expandDefaultArrayToTemplate => .expandDefaultArrayToTemplate
  | .requireEnumScope => .requireEnumScope
  | .doNotOptimizeBytecode => .optimizeBytecode

/-- The value that a flag stands for; one of them switches its property off. -/
def switched (flag : ScriptingFlag) : UInt64 :=
  if flag = .doNotOptimizeBytecode then 0 else 1

end ScriptingFlag

inductive ScriptingNumber where
  | maxNestedCalls
  | maxStackSize
  | maxCallStackSize
  | initStackSize
  | initCallStackSize
  | propertyAccessorMode
  | compilerWarnings
  | heredocTrimMode
  | alterSyntaxNamedArgs
  deriving DecidableEq, Repr

namespace ScriptingNumber

/-- The numbers in the order in which they are written. -/
def all : List ScriptingNumber :=
  [.maxNestedCalls, .maxStackSize, .maxCallStackSize, .initStackSize, .initCallStackSize,
   .propertyAccessorMode, .compilerWarnings, .heredocTrimMode, .alterSyntaxNamedArgs]

theorem mem_all (number : ScriptingNumber) : number ∈ all := by
  cases number <;> decide

def value (options : ScriptingOptions) : ScriptingNumber → UInt64
  | .maxNestedCalls => options.maxNestedCalls
  | .maxStackSize => options.maxStackSize
  | .maxCallStackSize => options.maxCallStackSize
  | .initStackSize => options.initStackSize
  | .initCallStackSize => options.initCallStackSize
  | .propertyAccessorMode => options.propertyAccessorMode
  | .compilerWarnings => options.compilerWarnings
  | .heredocTrimMode => options.heredocTrimMode
  | .alterSyntaxNamedArgs => options.alterSyntaxNamedArgs

/-- The property that a number sets. -/
def property : ScriptingNumber → EngineProperty
  | .maxNestedCalls => .maxNestedCalls
  | .maxStackSize => .maxStackSize
  | .maxCallStackSize => .maxCallStackSize
  | .initStackSize => .initStackSize
  | .initCallStackSize => .initCallStackSize
  | .propertyAccessorMode => .propertyAccessorMode
  | .compilerWarnings => .compilerWarnings
  | .heredocTrimMode => .heredocTrimMode
  | .alterSyntaxNamedArgs => .alterSyntaxNamedArgs

end ScriptingNumber

inductive ScriptingOption where
  | ofFlag (flag : ScriptingFlag)
  | ofNumber (number : ScriptingNumber)
  deriving DecidableEq, Repr

namespace ScriptingOption

def all : List ScriptingOption :=
  ScriptingFlag.all.map .ofFlag ++ ScriptingNumber.all.map .ofNumber

theorem mem_all (option : ScriptingOption) : option ∈ all := by
  cases option with
  | ofFlag flag => simp [all, ScriptingFlag.mem_all]
  | ofNumber number => simp [all, ScriptingNumber.mem_all]

def property : ScriptingOption → EngineProperty
  | .ofFlag flag => flag.property
  | .ofNumber number => number.property

/-- No two options are wired to one property. -/
theorem property_injective : Function.Injective property := by
  intro left right heq
  have hnodup : (all.map property).Nodup := by decide
  exact List.inj_on_of_nodup_map hnodup left.mem_all right.mem_all heq

/-- No two options share a slot. -/
theorem index_injective :
    Function.Injective fun option : ScriptingOption => option.property.index :=
  EngineProperty.index_injective.comp property_injective

/-- What an option writes to its slot.  A flag that is not set writes nothing. -/
def written? (options : ScriptingOptions) : ScriptingOption → Option UInt64
  | .ofFlag flag => if flag.isSet options then some flag.switched else none
  | .ofNumber number => some (number.value options)

theorem index_ne {slot : Nat} (hslot : slot ∉ all.map fun option => option.property.index)
    (option : ScriptingOption) : option.property.index ≠ slot := by
  rintro rfl
  exact hslot (List.mem_map_of_mem option.mem_all)

end ScriptingOption

namespace ScriptingOptions

variable {options : ScriptingOptions}

/-- The options are no more than their flags and numbers. -/
theorem eq_of_flags_of_numbers {left right : ScriptingOptions}
    (hflags : ∀ flag : ScriptingFlag, flag.isSet left = flag.isSet right)
    (hnumbers : ∀ number : ScriptingNumber, number.value left = number.value right) :
    left = right := by
  cases left
  cases right
  rw [ScriptingOptions.mk.injEq]
  exact ⟨hflags .allowMultilineStrings, hflags .allowUnicodeIdentifiers,
    hflags .allowImplicitHandleTypes, hflags .disallowEmptyListElements,
    hflags .disallowGlobalVars, hflags .disallowValueAssignForRefType,
    hflags .disableIntegerDivision, hflags .useCharacterLiterals,
    hflags .ignoreDuplicateSharedInterface, hflags .privatePropAsProtected,
    hflags .alwaysImplDefaultConstruct, hflags .expandDefaultArrayToTemplate,
    hflags .requireEnumScope, hflags .doNotOptimizeBytecode,
    hnumbers .maxNestedCalls, hnumbers .maxStackSize, hnumbers .maxCallStackSize,
    hnumbers .initStackSize, hnumbers .initCallStackSize, hnumbers .propertyAccessorMode,
    hnumbers .compilerWarnings, hnumbers .heredocTrimMode, hnumbers .alterSyntaxNamedArgs⟩

/-- What the options write into a table: the flags that are set, and the numbers. -/
def writes (options : ScriptingOptions) : List (EngineProperty × UInt64) :=
  (options.flags.filter Prod.fst).map Prod.snd ++ options.numbers

theorem applyTo_eq (table : PropertyTable) :
    options.applyTo table = table.setAll options.writes := by
  simp only [applyTo, PropertyTable.setAll, writes, List.foldl_append, List.foldl_map,
    List.foldl_filter]

theorem flags_eq (options : ScriptingOptions) :
    options.flags = ScriptingFlag.all.map fun flag =>
      (flag.isSet options, flag.property, flag.switched) := rfl

theorem numbers_eq (options : ScriptingOptions) :
    options.numbers = ScriptingNumber.all.map fun number =>
      (number.property, number.value options) := rfl

theorem mem_writes_iff {write : EngineProperty × UInt64} :
    write ∈ options.writes ↔
      ∃ option : ScriptingOption,
        option.property = write.1 ∧ option.written? options = some write.2 := by
  rw [writes, List.mem_append, flags_eq, numbers_eq, List.filter_map, List.map_map,
    List.mem_map, List.mem_map]
  constructor
  · rintro (⟨flag, hflag, rfl⟩ | ⟨number, -, rfl⟩)
    · exact ⟨.ofFlag flag, rfl, if_pos (List.mem_filter.mp hflag).2⟩
    · exact ⟨.ofNumber number, rfl, rfl⟩
  · rintro ⟨flag | number, hproperty, hwritten⟩
    · obtain ⟨hset, hvalue⟩ := Option.ite_none_right_eq_some.mp hwritten
      exact .inl ⟨flag, List.mem_filter.mpr ⟨flag.mem_all, hset⟩,
        Prod.ext hproperty (Option.some.inj hvalue)⟩
    · exact .inr ⟨number, number.mem_all, Prod.ext hproperty (Option.some.inj hwritten)⟩

end ScriptingOptions

namespace PropertyTable

variable {options : ScriptingOptions} {debug : Bool}

/-- The table of an engine as the packer sets it up, before the options. -/
def packed (debug : Bool) : PropertyTable :=
  ((baseline.set .allowUnsafeReferences 1).set .initGlobalVarsAfterBuild 0).set
    .buildWithoutLineCues (if debug then 0 else 1)

theorem size_packed (debug : Bool) : (packed debug).size = EngineProperty.slotCount := by
  cases debug <;> rfl

/-- The packer sets up no property that a flag changes. -/
theorem get_packed_flag (debug : Bool) (flag : ScriptingFlag) :
    (packed debug).get flag.property = baseline.get flag.property := by
  cases debug <;> cases flag <;> decide +kernel

/-- A flag that is set does change its property. -/
theorem switched_ne_baseline (flag : ScriptingFlag) :
    flag.switched ≠ baseline.get flag.property := by
  cases flag <;> decide

theorem ofOptions_eq : ofOptions options debug = (packed debug).setAll options.writes :=
  ScriptingOptions.applyTo_eq (packed debug)

theorem size_ofOptions : (ofOptions options debug).size = EngineProperty.slotCount := by
  rw [ofOptions_eq]
  exact size_setAll (size_packed debug)

/-- The slot of an option holds what the option writes, or else what the packer sets up. -/
theorem ofOptions_wired (option : ScriptingOption) :
    (ofOptions options debug).values[option.property.index]? =
      (option.written? options).or (packed debug).values[option.property.index]? := by
  rw [ofOptions_eq]
  cases hwritten : option.written? options with
  | some value =>
      have hmem : (option.property, value) ∈ options.writes :=
        ScriptingOptions.mem_writes_iff.mpr ⟨option, rfl, hwritten⟩
      apply setAll_values_of_mem (size_packed debug) hmem
      intro write hwrite hproperty
      obtain ⟨other, hother, hvalue⟩ := ScriptingOptions.mem_writes_iff.mp hwrite
      obtain rfl : other = option :=
        ScriptingOption.property_injective (hother.trans hproperty)
      exact Option.some.inj (hvalue.symm.trans hwritten)
  | none =>
      apply setAll_values_frame (size_packed debug)
      intro write hwrite hslot
      obtain ⟨other, hother, hvalue⟩ := ScriptingOptions.mem_writes_iff.mp hwrite
      rw [← hother] at hslot
      obtain rfl : other = option := ScriptingOption.index_injective hslot
      rw [hwritten] at hvalue
      cases hvalue

/-- The slot of a number holds it. -/
theorem ofOptions_number (number : ScriptingNumber) :
    (ofOptions options debug).values[number.property.index]? = some (number.value options) :=
  ofOptions_wired (.ofNumber number)

theorem ofOptions_flag (flag : ScriptingFlag) :
    (ofOptions options debug).get flag.property =
      if flag.isSet options then flag.switched else baseline.get flag.property := by
  have hslot : (ofOptions options debug).values[flag.property.index]? = _ :=
    ofOptions_wired (.ofFlag flag)
  rw [get, List.getD_eq_getElem?_getD, hslot, ScriptingOption.written?]
  split
  · rfl
  · rw [Option.none_or, ← get_packed_flag debug flag, get, List.getD_eq_getElem?_getD]
    rfl

/-- The slot of a flag differs from that of a fresh engine just when the flag is set. -/
theorem ofOptions_flag_ne_iff (flag : ScriptingFlag) :
    (ofOptions options debug).get flag.property ≠ baseline.get flag.property ↔
      flag.isSet options = true := by
  rw [ofOptions_flag]
  split
  · rename_i hset
    exact iff_of_true (switched_ne_baseline flag) hset
  · rename_i hset
    exact iff_of_false (fun hdiffers => hdiffers rfl) hset

/-- A slot that no option is wired to is as the packer sets it up. -/
theorem ofOptions_unwired {slot : Nat}
    (hslot : ∀ option : ScriptingOption, option.property.index ≠ slot) :
    (ofOptions options debug).values[slot]? = (packed debug).values[slot]? := by
  rw [ofOptions_eq]
  apply setAll_values_frame (size_packed debug)
  intro write hwrite
  obtain ⟨option, hoption, -⟩ := ScriptingOptions.mem_writes_iff.mp hwrite
  rw [← hoption]
  exact hslot option

/-- No option is wired to the slot that tells the debug setting. -/
theorem ofOptions_debug :
    (ofOptions options debug).values[EngineProperty.buildWithoutLineCues.index]? =
      some (if debug then 0 else 1) := by
  rw [ofOptions_unwired (ScriptingOption.index_ne (by decide))]
  cases debug <;> rfl

theorem ofOptions_injective :
    Function.Injective fun settings : ScriptingOptions × Bool =>
      ofOptions settings.1 settings.2 := by
  rintro ⟨left, leftDebug⟩ ⟨right, rightDebug⟩ heq
  change ofOptions left leftDebug = ofOptions right rightDebug at heq
  have hflags (flag : ScriptingFlag) : flag.isSet left = flag.isSet right := by
    have hleft : (ofOptions left leftDebug).get flag.property ≠ baseline.get flag.property ↔
        flag.isSet left = true := ofOptions_flag_ne_iff flag
    rw [heq, ofOptions_flag_ne_iff] at hleft
    exact Bool.eq_iff_iff.mpr hleft.symm
  have hnumbers (number : ScriptingNumber) : number.value left = number.value right := by
    have hleft : (ofOptions left leftDebug).values[number.property.index]? =
        some (number.value left) := ofOptions_number number
    rw [heq, ofOptions_number] at hleft
    exact (Option.some.inj hleft).symm
  have hdebug : leftDebug = rightDebug := by
    have hleft : (ofOptions left leftDebug).values[EngineProperty.buildWithoutLineCues.index]? =
        some (if leftDebug then 0 else 1) := ofOptions_debug
    rw [heq, ofOptions_debug] at hleft
    revert hleft
    cases leftDebug <;> cases rightDebug <;> decide
  rw [ScriptingOptions.eq_of_flags_of_numbers hflags hnumbers, hdebug]

/-- Every option has a slot of its own, and a table tells the options and the debug setting
that it was made from.  It is full; the slot of a number holds the number, that of a flag
differs from a fresh engine's just when the flag is set, and one that no option is wired to
depends on the debug setting at most. -/
theorem ofOptions_tellsApart :
    (Function.Injective fun option : ScriptingOption => option.property.index) ∧
    (Function.Injective fun settings : ScriptingOptions × Bool =>
      ofOptions settings.1 settings.2) ∧
    ∀ options debug,
      (ofOptions options debug).size = EngineProperty.slotCount ∧
      (∀ number : ScriptingNumber,
        (ofOptions options debug).values[number.property.index]? =
          some (number.value options)) ∧
      (∀ flag : ScriptingFlag,
        (ofOptions options debug).get flag.property ≠ baseline.get flag.property ↔
          flag.isSet options = true) ∧
      ∀ slot, (∀ option : ScriptingOption, option.property.index ≠ slot) → ∀ other,
        (ofOptions options debug).values[slot]? = (ofOptions other debug).values[slot]? := by
  refine ⟨ScriptingOption.index_injective, ofOptions_injective, fun options debug => ?_⟩
  refine ⟨size_ofOptions, ofOptions_number, ofOptions_flag_ne_iff, fun slot hslot other => ?_⟩
  exact (ofOptions_unwired hslot).trans (ofOptions_unwired hslot).symm

/-- Options with a full-range number and with optimization off. -/
def unoptimized : ScriptingOptions :=
  { maxStackSize := 0xFFFFFFFFFFFFFFFF, doNotOptimizeBytecode := true, compilerWarnings := 1 }

theorem ofOptions_tellsApart_unoptimized :
    (∀ option : ScriptingOption, option.property.index ≠ 8) ∧
      (ofOptions unoptimized true).values[4]? = some 0xFFFFFFFFFFFFFFFF ∧
      (ofOptions unoptimized true).get .optimizeBytecode ≠ baseline.get .optimizeBytecode ∧
      (ofOptions unoptimized true).values[8]? = (ofOptions {} true).values[8]? ∧
      ofOptions unoptimized true ≠ ofOptions unoptimized false := by
  have hslot : ∀ option : ScriptingOption, option.property.index ≠ 8 :=
    ScriptingOption.index_ne (by decide)
  obtain ⟨-, hinjective, htables⟩ := ofOptions_tellsApart
  obtain ⟨-, hnumbers, hflags, hunwired⟩ := htables unoptimized true
  refine ⟨hslot, hnumbers .maxStackSize, (hflags .doNotOptimizeBytecode).mpr rfl,
    hunwired 8 hslot {}, fun heq => ?_⟩
  have hsettings := @hinjective (unoptimized, true) (unoptimized, false) heq
  cases hsettings

end PropertyTable

end ScriptBundle
