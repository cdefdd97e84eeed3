import Mathlib.Data.List.Basic

/-!
# Values by name

In a list of names with values, a lookup passes over all other names.  If no name is
used twice, it finds whatever is in the list.
-/

namespace ScriptBundle

variable {α β : Type} {name : String}

theorem lookup_cons_of_ne {entry : String × α} (hne : name ≠ entry.1)
    (entries : List (String × α)) : (entry :: entries).lookup name = entries.lookup name := by
  have hfalse : (name == entry.1) = false := by simpa using hne
  rw [List.lookup_cons, hfalse]

theorem lookup_eq_some_iff_mem {value : α} {entries : List (String × α)}
    (hdistinct : (entries.map (·.1)).Nodup) :
    entries.lookup name = some value ↔ (name, value) ∈ entries := by
  induction entries with
  | nil => simp
  | cons entry entries ih =>
      obtain ⟨hentry, hrest⟩ := List.nodup_cons.mp hdistinct
      by_cases hname : name = entry.1
      · subst hname
        have hnone : (entry.1, value) ∉ entries := fun hmem =>
          hentry (List.mem_map.mpr ⟨_, hmem, rfl⟩)
        rw [List.lookup_cons_self, Option.some.injEq, List.mem_cons]
        constructor
        · rintro rfl
          exact .inl rfl
        · rintro (heq | hmem)
          · exact (congrArg Prod.snd heq).symm
          · exact (hnone hmem).elim
      · rw [lookup_cons_of_ne hname, ih hrest, List.mem_cons]
        constructor
        · exact .inr
        · rintro (heq | hmem)
          · exact (hname (congrArg Prod.fst heq)).elim
          · exact hmem

theorem lookup_map_snd (change : α → β) (entries : List (String × α)) (name : String) :
    (entries.map fun entry => (entry.1, change entry.2)).lookup name =
      (entries.lookup name).map change := by
  induction entries with
  | nil => rfl
  | cons entry entries ih =>
      rw [List.map_cons, List.lookup_cons, List.lookup_cons, ih]
      cases name == entry.1 <;> rfl

end ScriptBundle
