import ScriptBundle.Script.Step

/-!
# Programs

A program is a finite map from declarations to the steps of their functions,
kept in the order of the declarations, so that equal maps are equal programs.
-/

namespace ScriptBundle

/-- A function that can be run. -/
structure ScriptFunction where
  declaration : String
  steps : List Step
  deriving DecidableEq

namespace Program

/-- Adds or replaces an entry of an ordered list. -/
def insertEntry (declaration : String) (steps : List Step) :
    List (String × List Step) → List (String × List Step)
  | [] => [(declaration, steps)]
  | entry :: entries =>
      if declaration < entry.1 then (declaration, steps) :: entry :: entries
      else if declaration = entry.1 then (declaration, steps) :: entries
      else entry :: insertEntry declaration steps entries

theorem mem_insertEntry {declaration : String} {steps : List Step}
    {entries : List (String × List Step)} {entry : String × List Step}
    (hmem : entry ∈ insertEntry declaration steps entries) :
    entry.1 = declaration ∨ entry ∈ entries := by
  induction entries with
  | nil => simp only [insertEntry, List.mem_singleton] at hmem; simp [hmem]
  | cons first rest ih =>
      simp only [insertEntry] at hmem
      split at hmem
      · rcases List.mem_cons.mp hmem with h | h
        · simp [h]
        · exact .inr h
      · split at hmem
        · rcases List.mem_cons.mp hmem with h | h
          · simp [h]
          · exact .inr (List.mem_cons_of_mem _ h)
        · rcases List.mem_cons.mp hmem with h | h
          · exact .inr (h ▸ List.mem_cons_self)
          · rcases ih h with h | h
            · exact .inl h
            · exact .inr (List.mem_cons_of_mem _ h)

/-- The order of declarations is kept. -/
theorem pairwise_insertEntry (declaration : String) (steps : List Step)
    (entries : List (String × List Step))
    (hordered : entries.Pairwise fun left right => left.1 < right.1) :
    (insertEntry declaration steps entries).Pairwise fun left right => left.1 < right.1 := by
  induction entries with
  | nil => simp [insertEntry]
  | cons first rest ih =>
      obtain ⟨hfirst, hrest⟩ := List.pairwise_cons.mp hordered
      simp only [insertEntry]
      split
      · rename_i hlt
        refine List.pairwise_cons.mpr ⟨?_, hordered⟩
        intro entry hentry
        rcases List.mem_cons.mp hentry with h | h
        · simpa [h] using hlt
        · exact String.lt_trans hlt (hfirst entry h)
      · split
        · rename_i heq
          refine List.pairwise_cons.mpr ⟨?_, hrest⟩
          intro entry hentry
          simpa [heq] using hfirst entry hentry
        · rename_i hlt hne
          refine List.pairwise_cons.mpr ⟨?_, ih hrest⟩
          intro entry hentry
          rcases mem_insertEntry hentry with h | h
          · rw [h]
            rcases Decidable.em (first.1 < declaration) with hlt' | hge
            · exact hlt'
            · exact absurd (String.le_antisymm (String.not_lt.mp hge) (String.not_lt.mp hlt)) hne
          · exact hfirst entry h

end Program

structure Program where
  /-- Whether the program carries line cues. -/
  debug : Bool
  functions : List (String × List Step)
  ordered : functions.Pairwise fun left right => left.1 < right.1
  deriving DecidableEq

namespace Program

/-- A program without functions. -/
def empty (debug : Bool) : Program :=
  { debug, functions := [], ordered := List.Pairwise.nil }

instance : Inhabited Program := ⟨empty true⟩

/-- Adds or replaces a function. -/
def insert (program : Program) (declaration : String) (steps : List Step) : Program :=
  { program with
    functions := insertEntry declaration steps program.functions
    ordered := pairwise_insertEntry declaration steps program.functions program.ordered }

/-- The program with the given functions, the last one of each declaration. -/
def ofFunctions (debug : Bool) (functions : List (String × List Step)) : Program :=
  functions.foldl (fun program entry => program.insert entry.1 entry.2) (empty debug)

/-- The function of a declaration. -/
def find? (program : Program) (declaration : String) : Option ScriptFunction :=
  (program.functions.lookup declaration).map fun steps => { declaration, steps }

def declarations (program : Program) : List String :=
  program.functions.map (·.1)

/-- Whether a step is a line cue. -/
def isCue : Step → Bool
  | .line _ => true
  | _ => false

/-- The program without its debug information. -/
def stripped (program : Program) : Program where
  debug := false
  functions := program.functions.map fun entry => (entry.1, entry.2.filter fun step => !isCue step)
  ordered := by
    rw [List.pairwise_map]
    exact program.ordered

end Program

end ScriptBundle
