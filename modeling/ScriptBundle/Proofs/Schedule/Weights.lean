import Mathlib.Algebra.Order.Ring.Nat
import Mathlib.Data.Finset.Card
import ScriptBundle.Proofs.Schedule.Lineage

/-!
# Weights

A function can take a turn for each of its steps, and one more to come to its end.  The
functions that it starts take turns of their own.  The weight of a function is the number of
all these turns.  It satisfies its equation where no function leads back to itself.
-/

namespace ScriptBundle.Program

variable {program : Program} {function next : ScriptFunction}

/-- No function to which a function leads starts itself, not even by way of others. -/
def Acyclic (program : Program) (function : ScriptFunction) : Prop :=
  ∀ other, program.Leads function other → ¬Relation.TransGen program.Spawns other other

theorem Acyclic.leads (hacyclic : program.Acyclic function)
    (hleads : program.Leads function next) : program.Acyclic next :=
  fun other hother => hacyclic other (hleads.trans hother)

/-- No function leads back to itself if functions only start those of a lower rank. -/
theorem acyclic_of_rank {rank : ScriptFunction → Nat}
    (hrank : ∀ first second, program.Leads function first → program.Spawns first second →
      rank second < rank first) : program.Acyclic function := by
  have hlower : ∀ first second, program.Leads function first →
      Relation.TransGen program.Spawns first second → rank second < rank first := by
    intro first second hleads hchain
    induction hchain with
    | single hspawns => exact hrank _ _ hleads hspawns
    | tail hchain hspawns ih =>
        exact Nat.lt_trans (hrank _ _ (hleads.trans hchain.to_reflTransGen) hspawns) ih
  exact fun other hleads hcycle => Nat.lt_irrefl _ (hlower other other hleads hcycle)

/-- The turns that a function and those that it starts can take, down to some depth. -/
def weightWithin (program : Program) : (depth : Nat) → ScriptFunction → Nat
  | 0, _ => 0
  | depth + 1, function =>
      function.steps.length + 1 +
        ((program.spawnedBy function.steps).map (program.weightWithin depth)).sum

/-- The turns that a function and those that it starts can take.  No chain of functions
without a cycle is longer than the program. -/
def weight (program : Program) (function : ScriptFunction) : Nat :=
  program.weightWithin (program.functions.length + 1) function

/-! ## The depth below a function -/

open Classical in
/-- The functions of the program that a function starts, by itself or by way of others. -/
noncomputable def below (program : Program) (function : ScriptFunction) :
    Finset (String × List Step) :=
  program.functions.toFinset.filter fun entry =>
    Relation.TransGen program.Spawns function ⟨entry.1, entry.2⟩

theorem mem_below_iff {entry : String × List Step} :
    entry ∈ program.below function ↔ entry ∈ program.functions ∧
      Relation.TransGen program.Spawns function ⟨entry.1, entry.2⟩ := by
  classical
  rw [below, Finset.mem_filter, List.mem_toFinset]

theorem card_below_le (program : Program) (function : ScriptFunction) :
    (program.below function).card ≤ program.functions.length := by
  classical
  exact (Finset.card_filter_le _ _).trans (List.toFinset_card_le _)

theorem mem_functions_of_spawns (hspawns : program.Spawns function next) :
    (next.declaration, next.steps) ∈ program.functions := by
  obtain ⟨target, -, hfound⟩ := mem_spawnedBy_iff.mp hspawns
  exact mem_functions_of_find? hfound

/-- A function has fewer functions below it than one that starts it. -/
theorem card_below_lt (hspawns : program.Spawns function next)
    (hacyclic : program.Acyclic next) :
    (program.below next).card < (program.below function).card := by
  have hsubset : program.below next ⊆ program.below function := by
    intro entry hentry
    obtain ⟨hentry, hbelow⟩ := mem_below_iff.mp hentry
    exact mem_below_iff.mpr ⟨hentry, .head hspawns hbelow⟩
  apply Finset.card_lt_card
  apply (Finset.ssubset_iff_of_subset hsubset).mpr
  refine ⟨(next.declaration, next.steps), ?_, fun hnext => ?_⟩
  · exact mem_below_iff.mpr ⟨mem_functions_of_spawns hspawns, .single hspawns⟩
  · exact hacyclic next .refl (mem_below_iff.mp hnext).2

/-- What lies deeper than all functions below a function has no weight. -/
theorem weightWithin_succ {depth : Nat} (hacyclic : program.Acyclic function)
    (hdepth : (program.below function).card < depth) :
    program.weightWithin (depth + 1) function = program.weightWithin depth function := by
  induction depth generalizing function with
  | zero => exact (Nat.not_lt_zero _ hdepth).elim
  | succ depth ih =>
      have hsame : (program.spawnedBy function.steps).map (program.weightWithin (depth + 1)) =
          (program.spawnedBy function.steps).map (program.weightWithin depth) := by
        refine List.map_congr_left fun next hspawns => ?_
        have hnext := hacyclic.leads (.single hspawns)
        exact ih hnext (Nat.lt_of_lt_of_le (card_below_lt hspawns hnext) (Nat.le_of_lt_succ hdepth))
      rw [weightWithin, hsame, weightWithin]

/-- The weight of a function is the number of its steps and one more, and the weights of the
functions that it starts. -/
theorem weight_eq (hacyclic : program.Acyclic function) :
    program.weight function = function.steps.length + 1 +
      ((program.spawnedBy function.steps).map program.weight).sum := by
  have hsame : (program.spawnedBy function.steps).map program.weight =
      (program.spawnedBy function.steps).map
        (program.weightWithin program.functions.length) := by
    refine List.map_congr_left fun next hspawns => ?_
    have hnext := hacyclic.leads (.single hspawns)
    exact weightWithin_succ hnext
      (Nat.lt_of_lt_of_le (card_below_lt hspawns hnext) (program.card_below_le function))
  rw [hsame, weight, weightWithin]

end ScriptBundle.Program
