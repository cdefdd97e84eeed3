import ScriptBundle.Proofs.Lookup
import ScriptBundle.Proofs.Script.Loading

/-!
# Saving and loading again

A program is determined by what its declarations stand for, not by the order in which
its functions were added.  What is saved of it loads as the same program, whatever
follows it, and is saved again as the same bytes.
-/

namespace ScriptBundle

namespace Program

/-! ## Programs as maps -/

theorem lookup_eq_none_of_lt {declaration : String} {entries : List (String × List Step)}
    (hbelow : ∀ entry ∈ entries, declaration < entry.1) : entries.lookup declaration = none := by
  rw [List.lookup_eq_none_iff]
  intro entry hentry
  have hne : declaration ≠ entry.1 := String.ne_of_lt (hbelow entry hentry)
  simpa using hne

theorem lookup_insertEntry (declaration other : String) (steps : List Step)
    (entries : List (String × List Step)) :
    (insertEntry declaration steps entries).lookup other =
      if other = declaration then some steps else entries.lookup other := by
  induction entries with
  | nil =>
      by_cases hother : other = declaration
      · subst hother
        rw [if_pos rfl, insertEntry, List.lookup_cons_self]
      · rw [if_neg hother, insertEntry, lookup_cons_of_ne hother]
  | cons entry entries ih =>
      by_cases hother : other = declaration
      · subst hother
        rw [if_pos rfl, insertEntry]
        split
        · rw [List.lookup_cons_self]
        · split
          · rw [List.lookup_cons_self]
          · rename_i hne
            rw [lookup_cons_of_ne hne, ih, if_pos rfl]
      · rw [if_neg hother] at ih ⊢
        rw [insertEntry]
        split
        · rw [lookup_cons_of_ne hother]
        · split
          · rename_i heq
            rw [lookup_cons_of_ne hother, lookup_cons_of_ne (heq ▸ hother)]
          · rw [List.lookup_cons, List.lookup_cons, ih]

theorem lookup_foldl_insert (program : Program) (functions : List (String × List Step))
    (declaration : String) :
    (functions.foldl (fun program entry => program.insert entry.1 entry.2)
        program).functions.lookup declaration =
      (functions.reverse.lookup declaration).or (program.functions.lookup declaration) := by
  induction functions generalizing program with
  | nil => rfl
  | cons entry functions ih =>
      have hinsert : (program.insert entry.1 entry.2).functions.lookup declaration =
          ([entry].lookup declaration).or (program.functions.lookup declaration) := by
        rw [insert, lookup_insertEntry]
        by_cases hentry : declaration = entry.1
        · rw [if_pos hentry, hentry, List.lookup_cons_self, Option.some_or]
        · rw [if_neg hentry, lookup_cons_of_ne hentry, List.lookup_nil, Option.none_or]
      rw [List.foldl_cons, ih, hinsert, List.reverse_cons, List.lookup_append, Option.or_assoc]

/-- Of two functions with one declaration the later one is in the program. -/
theorem lookup_ofFunctions (debug : Bool) (functions : List (String × List Step))
    (declaration : String) :
    (ofFunctions debug functions).functions.lookup declaration =
      functions.reverse.lookup declaration := by
  rw [ofFunctions, lookup_foldl_insert, empty, List.lookup_nil, Option.or_none]

theorem debug_foldl_insert (program : Program) (functions : List (String × List Step)) :
    (functions.foldl (fun program entry => program.insert entry.1 entry.2) program).debug =
      program.debug := by
  induction functions generalizing program with
  | nil => rfl
  | cons entry functions ih => exact ih (program.insert entry.1 entry.2)

@[simp]
theorem debug_ofFunctions (debug : Bool) (functions : List (String × List Step)) :
    (ofFunctions debug functions).debug = debug :=
  debug_foldl_insert (empty debug) functions

/-- What is found in both lists is not in front of one of them. -/
theorem not_lt_of_lookup_eq {first second : String × List Step}
    {left right : List (String × List Step)}
    (hright : (second :: right).Pairwise fun entry other => entry.1 < other.1)
    (hsame : (first :: left).lookup first.1 = (second :: right).lookup first.1) :
    ¬ first.1 < second.1 := by
  intro hlt
  obtain ⟨hlater, -⟩ := List.pairwise_cons.mp hright
  have hnone : (second :: right).lookup first.1 = none :=
    lookup_eq_none_of_lt (List.forall_mem_cons.mpr
      ⟨hlt, fun other hother => String.lt_trans hlt (hlater other hother)⟩)
  rw [List.lookup_cons_self, hnone] at hsame
  cases hsame

/-- Ordered entries are determined by what is found in them. -/
theorem eq_of_lookup_eq {left right : List (String × List Step)}
    (hleft : left.Pairwise fun entry other => entry.1 < other.1)
    (hright : right.Pairwise fun entry other => entry.1 < other.1)
    (hsame : ∀ declaration, left.lookup declaration = right.lookup declaration) :
    left = right := by
  induction left generalizing right with
  | nil =>
      cases right with
      | nil => rfl
      | cons second right =>
          have hfound := hsame second.1
          rw [List.lookup_cons_self] at hfound
          cases hfound
  | cons first left ih =>
      cases right with
      | nil =>
          have hfound := hsame first.1
          rw [List.lookup_cons_self] at hfound
          cases hfound
      | cons second right =>
          have hkey : first.1 = second.1 :=
            String.le_antisymm
              (String.not_lt.mp (not_lt_of_lookup_eq hleft (hsame second.1).symm))
              (String.not_lt.mp (not_lt_of_lookup_eq hright (hsame first.1)))
          have hsteps : first.2 = second.2 := by
            have hfound := hsame first.1
            rw [List.lookup_cons_self, hkey, List.lookup_cons_self] at hfound
            exact Option.some.inj hfound
          obtain ⟨hfirst, hleft⟩ := List.pairwise_cons.mp hleft
          obtain ⟨hsecond, hright⟩ := List.pairwise_cons.mp hright
          have hrest : left = right := by
            refine ih hleft hright fun declaration => ?_
            by_cases hdeclaration : declaration = first.1
            · subst hdeclaration
              rw [lookup_eq_none_of_lt hfirst, lookup_eq_none_of_lt (hkey ▸ hsecond)]
            · have hfound := hsame declaration
              rwa [lookup_cons_of_ne hdeclaration, lookup_cons_of_ne (hkey ▸ hdeclaration)]
                at hfound
          rw [Prod.ext hkey hsteps, hrest]

/-- Functions may be added in any order in which the last one of each declaration is
the same. -/
theorem ofFunctions_congr {debug : Bool} {functions others : List (String × List Step)}
    (hsame : ∀ declaration,
      functions.reverse.lookup declaration = others.reverse.lookup declaration) :
    ofFunctions debug functions = ofFunctions debug others := by
  have hfunctions : (ofFunctions debug functions).functions =
      (ofFunctions debug others).functions := by
    refine eq_of_lookup_eq (ofFunctions debug functions).ordered
      (ofFunctions debug others).ordered fun declaration => ?_
    rw [lookup_ofFunctions, lookup_ofFunctions, hsame]
  have hdebug := (debug_ofFunctions debug functions).trans (debug_ofFunctions debug others).symm
  generalize ofFunctions debug functions = left at hfunctions hdebug ⊢
  generalize ofFunctions debug others = right at hfunctions hdebug ⊢
  cases left
  cases right
  cases hfunctions
  cases hdebug
  rfl

/-- The order of functions with different declarations is of no account. -/
theorem lookup_reverse_of_perm {functions others : List (String × List Step)}
    (hperm : functions.Perm others) (hdistinct : (functions.map (·.1)).Nodup)
    (declaration : String) :
    functions.reverse.lookup declaration = others.reverse.lookup declaration := by
  have hfunctions : (functions.reverse.map (·.1)).Nodup :=
    ((List.reverse_perm functions).symm.map _).nodup hdistinct
  have hothers : (others.reverse.map (·.1)).Nodup :=
    ((hperm.trans (List.reverse_perm others).symm).map _).nodup hdistinct
  ext steps
  rw [lookup_eq_some_iff_mem hfunctions, lookup_eq_some_iff_mem hothers, List.mem_reverse,
    List.mem_reverse, hperm.mem_iff]

/-! ## Line cues -/

/-- The steps that are saved of a function. -/
def kept (strip : Bool) (steps : List Step) : List Step :=
  if strip then steps.filter fun step => !isCue step else steps

/-- The program as a build packs it. -/
def packed (program : Program) (strip : Bool) : Program :=
  if strip then program.stripped else program

@[simp]
theorem debug_packed (program : Program) (strip : Bool) :
    (program.packed strip).debug = (program.debug && !strip) := by
  cases strip <;> simp [packed, stripped]

theorem find?_packed (program : Program) (strip : Bool) (declaration : String) :
    (program.packed strip).find? declaration =
      (program.functions.lookup declaration).map fun steps =>
        { declaration, steps := kept strip steps } := by
  cases strip with
  | false => rfl
  | true =>
      have hlookup : program.stripped.functions.lookup declaration =
          (program.functions.lookup declaration).map (kept true) :=
        lookup_map_snd (kept true) program.functions declaration
      rw [packed, if_pos rfl, find?, hlookup, Option.map_map]
      rfl

/-- A document is shorter than what is saved of it. -/
theorem document_length_le (program : Program) :
    program.document.length ≤ program.encode.length := by
  rw [encode, List.length_append]
  exact Nat.le_add_left _ _

end Program

/-! ## Saved bytes -/

theorem ProgramSource.saveWithin_of_le {source : ProgramSource} {limit : Nat} {strip : Bool}
    (hroom : (source.bytecode strip).length ≤ limit) :
    source.saveWithin limit strip = .ok (source.bytecode strip) :=
  if_pos hroom

namespace Engine

/-- A saved program is taken off the front of a stream, and the rest is left. -/
theorem loadFrom_encode (engine : Engine) (program : Program)
    (hlength : program.document.length < UInt64.size) (rest : Bytes) :
    engine.loadFrom (program.encode ++ rest) =
      ((.ok program.debug, { engine with program }), rest) := by
  rw [loadFrom, Counted.start, Loader.reads_program program hlength rest 0]

/-- A program that fits on a stream is saved, and what is saved loads again, whatever
follows it: the line cues are gone if they were stripped, and nothing else is.  The
loaded program is saved as the same bytes, and so is the original in whatever order its
functions were added. -/
theorem load_saved (debug : Bool) (functions others : List (String × List Step)) (strip : Bool)
    (limit : UInt64) (engine : Engine) (rest : Bytes)
    (hsame : ∀ declaration,
      functions.reverse.lookup declaration = others.reverse.lookup declaration)
    (hroom : ((ProgramSource.script (.ofFunctions debug functions)).bytecode strip).length ≤
      limit.toNat) :
    ∃ saved loaded,
      (ProgramSource.script (.ofFunctions debug functions)).saveWithin limit.toNat strip =
          .ok saved ∧
        engine.load (saved ++ rest) =
          ((.ok (debug && !strip), { engine with program := loaded }), rest) ∧
        loaded = (Program.ofFunctions debug functions).packed strip ∧
        loaded.debug = (debug && !strip) ∧
        (∀ declaration, loaded.find? declaration =
          (functions.reverse.lookup declaration).map fun steps =>
            { declaration, steps := Program.kept strip steps }) ∧
        (ProgramSource.script loaded).saveWithin limit.toNat false = .ok saved ∧
        (ProgramSource.script (.ofFunctions debug others)).saveWithin limit.toNat strip =
          .ok saved := by
  have hdebug : ((Program.ofFunctions debug functions).packed strip).debug = (debug && !strip) := by
    rw [Program.debug_packed, Program.debug_ofFunctions]
  have hdocument : ((Program.ofFunctions debug functions).packed strip).document.length <
      UInt64.size :=
    Nat.lt_of_le_of_lt (Nat.le_trans (Program.document_length_le _) hroom) limit.toNat_lt
  have hload : engine.load (((Program.ofFunctions debug functions).packed strip).encode ++ rest) =
      ((.ok (debug && !strip),
        { engine with program := (Program.ofFunctions debug functions).packed strip }), rest) := by
    rw [load, engine.loadFrom_encode _ hdocument rest, hdebug]
    rfl
  refine ⟨_, _, ProgramSource.saveWithin_of_le hroom, hload, rfl, hdebug, fun declaration => ?_,
    ProgramSource.saveWithin_of_le hroom, ?_⟩
  · rw [Program.find?_packed, Program.lookup_ofFunctions]
  · rw [← Program.ofFunctions_congr hsame]
    exact ProgramSource.saveWithin_of_le hroom

/-- Two functions whose texts need escapes, with line cues. -/
def quotingFunctions : List (String × List Step) :=
  [("int main()",
      [.line 1, .log "say \"hi\"\n", .sleep ⟨18446744073709551615, 500000000, by decide⟩,
        .exitThenRaise (-1) "\\", .finish (.int (-3))]),
    ("void \u00e9()", [.wait 7, .line 2, .spawn "int main()", .finish (.bool true)])]

/-- A stripped program comes back without its cues in front of other bytes, and it is
the same when its functions are added the other way round. -/
theorem load_saved_quoting :
    ∃ saved loaded,
      (ProgramSource.script (.ofFunctions true quotingFunctions)).saveWithin 1000 true =
          .ok saved ∧
        ({} : Engine).load (saved ++ [0x7B, 0]) =
          ((.ok false, { program := loaded }), [0x7B, 0]) ∧
        loaded.find? "void \u00e9()" =
          some ⟨"void \u00e9()", [.wait 7, .spawn "int main()", .finish (.bool true)]⟩ ∧
        (ProgramSource.script loaded).saveWithin 1000 false = .ok saved ∧
        (ProgramSource.script (.ofFunctions true quotingFunctions.reverse)).saveWithin 1000 true =
          .ok saved := by
  have hsame : ∀ declaration, quotingFunctions.reverse.lookup declaration =
      quotingFunctions.reverse.reverse.lookup declaration :=
    Program.lookup_reverse_of_perm (List.reverse_perm _).symm (by decide)
  obtain ⟨saved, loaded, hsave, hload, -, -, hfind, hagain, hother⟩ :=
    load_saved true quotingFunctions quotingFunctions.reverse true 1000 {} [0x7B, 0] hsame
      (by decide +kernel)
  exact ⟨saved, loaded, hsave, hload, (hfind _).trans (by decide +kernel), hagain, hother⟩

end Engine

end ScriptBundle
