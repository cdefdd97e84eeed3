import ScriptBundle.Proofs.Json.RoundTrip
import ScriptBundle.Proofs.Layout.RoundTrip
import ScriptBundle.Script.Encoding

/-!
# Saved programs load again

The document of a program names every part of it, so the program that is read
from the document is the one that was saved.
-/

namespace ScriptBundle

/-! ## Parts of a document -/

namespace Json

theorem uint32?_number (value : UInt32) : (number value.toNat).uint32? = some value := by
  have hbound : ((value.toNat : Int) ≤ 0xFFFFFFFF) := by
    have hlt := value.toNat_lt
    omega
  rw [uint32?, number, integerIn?, if_pos ⟨Int.natCast_nonneg _, hbound⟩, Option.map_some,
    Int.toNat_natCast, UInt32.ofNat_toNat]

theorem uint64?_number (value : UInt64) : (number value.toNat).uint64? = some value := by
  have hbound : ((value.toNat : Int) ≤ 0xFFFFFFFFFFFFFFFF) := by
    have hlt := value.toNat_lt
    omega
  rw [uint64?, number, integerIn?, if_pos ⟨Int.natCast_nonneg _, hbound⟩, Option.map_some,
    Int.toNat_natCast, UInt64.ofNat_toNat]

theorem int32?_integer (value : Int32) : (integer value.toInt).int32? = some value := by
  have hlow := value.le_toInt
  have hhigh := value.toInt_lt
  rw [int32?, integerIn?, if_pos ⟨by omega, by omega⟩, Option.map_some, Int32.ofInt_toInt]

theorem choice?_ofMembers (name : String) (value : Json) :
    (ofMembers [(name, value)]).choice? = some (name, some value) := rfl

/-- Items that are read back one by one are read back together. -/
theorem mapM_map_eq_some {α β : Type} {write : α → β} {read : β → Option α} (items : List α)
    (hread : ∀ item ∈ items, read (write item) = some item) :
    (items.map write).mapM read = some items := by
  induction items with
  | nil => rfl
  | cons item items ih =>
      rw [List.map_cons, List.mapM_cons, hread item List.mem_cons_self,
        ih fun other hother => hread other (List.mem_cons_of_mem _ hother)]
      rfl

theorem textualItems_map {α : Type} {write : α → Json} (items : List α)
    (hwrite : ∀ item, Textual (write item)) : TextualItems (items.map write) := by
  induction items with
  | nil => trivial
  | cons item items ih => exact ⟨hwrite item, ih⟩

theorem textual_ofMembers {members : List (String × Json)}
    (hmembers : ∀ entry ∈ members, Textual entry.2) : Textual (ofMembers members) := by
  rw [ofMembers, Textual]
  induction members with
  | nil => trivial
  | cons entry members ih =>
      exact ⟨rfl, hmembers entry List.mem_cons_self,
        ih fun other hother => hmembers other (List.mem_cons_of_mem _ hother)⟩

theorem textual_choice {name : String} {value : Json} (hvalue : Textual value) :
    Textual (ofMembers [(name, value)]) :=
  ⟨rfl, hvalue, trivial⟩

end Json

open Json

theorem Duration.ofParts?_parts (duration : Duration) :
    ofParts? duration.seconds duration.nanoseconds = some duration := by
  have hnanoseconds : duration.nanoseconds.toNat < 1000000000 :=
    UInt32.lt_iff_toNat_lt.mp duration.nanoseconds_lt
  have hwhole : duration.seconds.toNat + duration.nanoseconds.toNat / 1000000000 =
      duration.seconds.toNat := by
    rw [Nat.div_eq_of_lt hnanoseconds, Nat.add_zero]
  have hrest : duration.nanoseconds % 1000000000 = duration.nanoseconds :=
    UInt32.toNat_inj.mp (by
      rw [UInt32.toNat_mod]
      exact Nat.mod_eq_of_lt hnanoseconds)
  unfold ofParts?
  simp only [hwhole, hrest, UInt64.ofNat_toNat]
  rw [if_pos duration.seconds.toNat_lt]

theorem Duration.ofJson?_toJson (duration : Duration) :
    ofJson? duration.toJson = some duration := by
  have hparts : duration.toJson.twoParts? "secs" "nanos" false =
      some (number duration.seconds.toNat, number duration.nanoseconds.toNat) := by
    simp [toJson, ofMembers, twoParts?, once?]
  rw [ofJson?, hparts]
  simp only [Option.bind_eq_bind, Option.bind_some, uint64?_number, uint32?_number]
  exact duration.ofParts?_parts

theorem ReturnValue.ofJson?_toJson (value : ReturnValue) : ofJson? value.toJson = some value := by
  cases value with
  | void => rfl
  | int value => simp [toJson, ofJson?, choice?_ofMembers, int32?_integer]
  | bool value => simp [toJson, ofJson?, choice?_ofMembers, boolean?]

theorem Step.ofJson?_toJson (step : Step) : ofJson? step.toJson = some step := by
  cases step with
  | yield => rfl
  | sleep duration => simp [toJson, ofJson?, choice?_ofMembers, Duration.ofJson?_toJson]
  | wait event => simp [toJson, ofJson?, choice?_ofMembers, uint64?_number]
  | signal event => simp [toJson, ofJson?, choice?_ofMembers, uint64?_number]
  | spawn declaration => simp [toJson, ofJson?, choice?_ofMembers, text?, text]
  | exit code => simp [toJson, ofJson?, choice?_ofMembers, int32?_integer]
  | raise message => simp [toJson, ofJson?, choice?_ofMembers, text?, text]
  | exitThenRaise code message =>
      simp [toJson, ofJson?, choice?_ofMembers, int32?_integer, text?, text]
  | line number => simp [toJson, ofJson?, choice?_ofMembers, uint32?_number]
  | log message => simp [toJson, ofJson?, choice?_ofMembers, text?, text]
  | finish value => simp [toJson, ofJson?, choice?_ofMembers, ReturnValue.ofJson?_toJson]

theorem Step.textual_toJson (step : Step) : Textual step.toJson := by
  cases step with
  | yield => rfl
  | finish value => cases value <;> exact textual_choice (by trivial)
  | sleep duration => exact textual_choice ⟨rfl, trivial, rfl, trivial, trivial⟩
  | exitThenRaise code message => exact textual_choice ⟨trivial, rfl, trivial⟩
  | wait | signal | exit | line => exact textual_choice trivial
  | spawn | raise | log => exact textual_choice rfl

/-! ## Programs -/

namespace Program

theorem insertEntry_last {declaration : String} {steps : List Step}
    {entries : List (String × List Step)} (hlast : ∀ entry ∈ entries, entry.1 < declaration) :
    insertEntry declaration steps entries = entries ++ [(declaration, steps)] := by
  induction entries with
  | nil => rfl
  | cons entry entries ih =>
      have hentry := hlast entry List.mem_cons_self
      have hne : declaration ≠ entry.1 := by
        rintro rfl
        exact String.lt_irrefl _ hentry
      rw [insertEntry, if_neg (String.lt_asymm hentry), if_neg hne,
        ih fun other hother => hlast other (List.mem_cons_of_mem _ hother)]
      rfl

theorem foldl_insert (program : Program) (entries : List (String × List Step))
    (hordered : (program.functions ++ entries).Pairwise fun left right => left.1 < right.1) :
    let result := entries.foldl (fun program entry => program.insert entry.1 entry.2) program
    result.debug = program.debug ∧ result.functions = program.functions ++ entries := by
  induction entries generalizing program with
  | nil => exact ⟨rfl, (List.append_nil _).symm⟩
  | cons entry entries ih =>
      have hinserted : (program.insert entry.1 entry.2).functions = program.functions ++ [entry] :=
        insertEntry_last fun other hother =>
          (List.pairwise_append.mp hordered).2.2 other hother entry List.mem_cons_self
      have hrest := ih (program.insert entry.1 entry.2) (by
        rw [hinserted, List.append_assoc]
        exact hordered)
      rw [hinserted, List.append_assoc] at hrest
      exact hrest

/-- The functions of a program are in order already. -/
theorem ofFunctions_functions (program : Program) :
    ofFunctions program.debug program.functions = program := by
  obtain ⟨hdebug, hfunctions⟩ :=
    foldl_insert (empty program.debug) program.functions program.ordered
  unfold ofFunctions
  generalize program.functions.foldl _ (empty program.debug) = result at hdebug hfunctions
  cases result
  cases program
  cases hdebug
  cases hfunctions
  rfl

theorem entriesOfJson?_functions (functions : List (String × List Step)) :
    entriesOfJson? (ofMembers (functions.map fun entry =>
      (entry.1, .array (entry.2.map Step.toJson)))) = some functions := by
  rw [ofMembers, List.map_map, entriesOfJson?]
  apply mapM_map_eq_some functions
  intro entry _
  have hsteps : (entry.2.map Step.toJson).mapM Step.ofJson? = some entry.2 :=
    mapM_map_eq_some entry.2 fun step _ => step.ofJson?_toJson
  simp [array?, hsteps]

theorem ofJson?_toJson (program : Program) : ofJson? program.toJson = some program := by
  have hparts : program.toJson.twoParts? "debug" "functions" true =
      some (.boolean program.debug, ofMembers (program.functions.map fun entry =>
        (entry.1, .array (entry.2.map Step.toJson)))) := by
    simp [toJson, ofMembers, twoParts?, once?]
  rw [ofJson?, hparts]
  simp only [Option.bind_eq_bind, Option.bind_some, boolean?, entriesOfJson?_functions]
  exact congrArg some program.ofFunctions_functions

/-! ## Saved programs -/

theorem textual_toJson (program : Program) : Textual program.toJson := by
  have hfunctions : Textual (ofMembers (program.functions.map fun entry =>
      (entry.1, .array (entry.2.map Step.toJson)))) := by
    apply textual_ofMembers
    intro member hmember
    obtain ⟨entry, -, rfl⟩ := List.mem_map.mp hmember
    exact textualItems_map entry.2 Step.textual_toJson
  exact ⟨rfl, trivial, rfl, hfunctions, trivial⟩

/-- The document of a program is the program. -/
theorem parse?_document (program : Program) :
    (Json.parse? program.document).bind ofJson? = some program := by
  have hdocument : program.document = Text.Utf8.encode program.toJson.compact := by
    rw [document, Text.Utf8.toUTF8_toList, String.toList_ofList]
  rw [hdocument, parse?_compact program.textual_toJson, Option.bind_some, ofJson?_toJson]

end Program

end ScriptBundle
