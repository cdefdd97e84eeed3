import ScriptBundle.Proofs.Files.Following

/-!
# Which files an operation touches

Making directories touches no file.  What is written or removed is found, or missing, in
its place only; all other files stay as they are.
-/

namespace ScriptBundle.FileSystem

/-! ## Removed files -/

theorem erase_put (system : FileSystem) (location : Location) (node : Node) :
    (system.put location node).erase location = system.erase location := by
  simp [put, erase]

theorem node?_erase_of_ne (system : FileSystem) {location other : Location}
    (hne : other ≠ location) : (system.erase location).node? other = system.node? other := by
  have hput := system.node?_put_of_ne .directory hne
  have hfalse : (other == location) = false := by simpa using hne
  simp only [node?, put, List.lookup_cons, hfalse] at hput
  simpa only [node?, erase] using hput

/-- A path leads where it led once a file is gone. -/
theorem keepsDirectories_erase {system : FileSystem} {location : Location}
    (hfree : system.node? location ≠ some .directory) :
    KeepsDirectories system (system.erase location) where
  workingDirectory := rfl
  directory other hother := by
    have hne : other ≠ location := by
      rintro rfl
      exact hfree hother
    rw [node?_erase_of_ne system hne]
    exact hother

section Elsewhere

variable {system : FileSystem} {path other : Path} {location origin : Location} {node : Node}

/-- What is in another place than a file that is written is found as before. -/
theorem find_put_of_ne (hwritable : system.locateForWriting path = .ok location)
    (hfind : system.find other = .ok (origin, node)) (hne : location ≠ origin) (written : Node) :
    (system.put location written).find other = .ok (origin, node) := by
  obtain ⟨hlocate, hnode⟩ := find_eq_ok_iff.mp hfind
  have hfree := (locateForWriting_eq_ok_iff.mp hwritable).2.2
  rw [← node?_put_of_ne system written hne.symm] at hnode
  exact find_eq_ok_iff.mpr ⟨locate_eq_ok (keepsDirectories_put written hfree) hlocate, hnode⟩

/-- What is in another place than a file that is removed is found as before. -/
theorem find_erase_of_ne (hwritable : system.locateForWriting path = .ok location)
    (hfind : system.find other = .ok (origin, node)) (hne : location ≠ origin) :
    (system.erase location).find other = .ok (origin, node) := by
  obtain ⟨hlocate, hnode⟩ := find_eq_ok_iff.mp hfind
  have hfree := (locateForWriting_eq_ok_iff.mp hwritable).2.2
  rw [← node?_erase_of_ne system hne.symm] at hnode
  exact find_eq_ok_iff.mpr ⟨locate_eq_ok (keepsDirectories_erase hfree) hlocate, hnode⟩

/-- Another path that leads to a file that is written finds what was written. -/
theorem find_put_of_locate (hwritable : system.locateForWriting path = .ok location)
    (hlocate : system.locate other = .ok location) (written : Node) :
    (system.put location written).find other = .ok (location, written) := by
  have hfree := (locateForWriting_eq_ok_iff.mp hwritable).2.2
  exact find_eq_ok_iff.mpr
    ⟨locate_eq_ok (keepsDirectories_put written hfree) hlocate,
      node?_put_self system written (ne_nil_of_locateForWriting hwritable)⟩

end Elsewhere

/-! ## Files that stay -/

/-- The files are the same as before, but for those at touched locations. -/
def KeepsFiles (touched : Location → Prop) (before after : FileSystem) : Prop :=
  ∀ location, ¬ touched location → ∀ content executable,
    after.node? location = some (.file content executable) ↔
      before.node? location = some (.file content executable)

namespace KeepsFiles

variable {touched : Location → Prop} {first second third : FileSystem}

theorem refl (touched : Location → Prop) (system : FileSystem) :
    KeepsFiles touched system system :=
  fun _ _ _ _ => Iff.rfl

theorem trans (hleft : KeepsFiles touched first second)
    (hright : KeepsFiles touched second third) : KeepsFiles touched first third :=
  fun location hlocation content executable =>
    (hright location hlocation content executable).trans
      (hleft location hlocation content executable)

end KeepsFiles

end ScriptBundle.FileSystem
