import Mathlib.Data.List.Basic
import ScriptBundle.FileSystem
import ScriptBundle.Proofs.Outcomes

/-!
# Paths after files were written

Following a path only depends on which locations are directories.  Writing a file
leaves the directories alone, so a path leads where it led before and the file
that was written is found there.  Making directories takes nothing away.
-/

namespace ScriptBundle.FileSystem

/-! ## Nodes -/

@[simp]
theorem node?_nil (system : FileSystem) : system.node? [] = some .directory := rfl

theorem node?_put_self (system : FileSystem) {location : Location} (node : Node)
    (hroot : location ≠ []) : (system.put location node).node? location = some node := by
  simp [node?, put, hroot]

private theorem lookup_filter_ne {location other : Location} (hne : other ≠ location)
    (nodes : List (Location × Node)) :
    (nodes.filter fun entry => entry.1 ≠ location).lookup other = nodes.lookup other := by
  induction nodes with
  | nil => rfl
  | cons entry nodes ih =>
      rw [List.filter_cons]
      split
      · rw [List.lookup_cons, List.lookup_cons, ih]
      · rename_i hentry
        have heq : entry.1 = location := by simpa using hentry
        have hother : (other == entry.1) = false := by simpa [heq] using hne
        rw [ih, List.lookup_cons, hother]

theorem node?_put_of_ne (system : FileSystem) {location other : Location} (node : Node)
    (hne : other ≠ location) : (system.put location node).node? other = system.node? other := by
  have hfalse : (other == location) = false := by simpa using hne
  simp only [node?, put, List.lookup_cons, hfalse, lookup_filter_ne hne]

theorem put_put (system : FileSystem) (location : Location) (first second : Node) :
    (system.put location first).put location second = system.put location second := by
  simp [put]

/-! ## Directories and paths -/

/-- Directories stay, and paths start from the same place. -/
structure KeepsDirectories (before after : FileSystem) : Prop where
  workingDirectory : after.workingDirectory = before.workingDirectory
  directory : ∀ location, before.node? location = some .directory →
    after.node? location = some .directory

/-- A node in place of anything but a directory leaves the directories alone. -/
theorem keepsDirectories_put {system : FileSystem} {location : Location} (node : Node)
    (hfree : system.node? location ≠ some .directory) :
    KeepsDirectories system (system.put location node) where
  workingDirectory := rfl
  directory other hother := by
    have hne : other ≠ location := by
      rintro rfl
      exact hfree hother
    rw [node?_put_of_ne system node hne]
    exact hother

theorem step_eq_ok {before after : FileSystem} (hkeeps : KeepsDirectories before after)
    {location target : Location} {segment : Path.Segment}
    (hstep : before.step location segment = .ok target) :
    after.step location segment = .ok target := by
  unfold step at hstep ⊢
  cases hnode : before.node? location with
  | none => simp [hnode] at hstep
  | some node =>
      cases node with
      | file content executable => simp [hnode] at hstep
      | directory =>
          rw [hnode] at hstep
          rw [hkeeps.directory location hnode]
          exact hstep

theorem foldlM_step_eq_ok {before after : FileSystem} (hkeeps : KeepsDirectories before after)
    {segments : List Path.Segment} {location target : Location}
    (hsteps : segments.foldlM before.step location = .ok target) :
    segments.foldlM after.step location = .ok target := by
  induction segments generalizing location with
  | nil => exact hsteps
  | cons segment segments ih =>
      rw [List.foldlM_cons] at hsteps ⊢
      cases hfirst : before.step location segment with
      | error error => simp [hfirst] at hsteps
      | ok next =>
          rw [hfirst] at hsteps
          rw [step_eq_ok hkeeps hfirst]
          exact ih hsteps

theorem locate_eq_ok {before after : FileSystem} (hkeeps : KeepsDirectories before after)
    {path : Path} {location : Location} (hlocate : before.locate path = .ok location) :
    after.locate path = .ok location := by
  unfold locate follow at hlocate ⊢
  rw [hkeeps.workingDirectory]
  split at hlocate
  · simp at hlocate
  · split at hlocate
    · simp at hlocate
    · split at hlocate
      · simp at hlocate
      · rename_i htext hnul hlong
        rw [if_neg htext, if_neg hnul, if_neg hlong]
        exact foldlM_step_eq_ok hkeeps hlocate

theorem find_eq_ok_iff {system : FileSystem} {path : Path} {location : Location} {node : Node} :
    system.find path = .ok (location, node) ↔
      system.locate path = .ok location ∧ system.node? location = some node := by
  unfold find
  cases hlocate : system.locate path with
  | error error => simp
  | ok found =>
      cases hnode : system.node? found with
      | none =>
          simp only [ok_bind, hnode, throw_ne_ok, Except.ok.injEq, false_iff, not_and]
          rintro rfl
          simp [hnode]
      | some stored =>
          simp only [ok_bind, hnode, pure_eq_ok_iff, Except.ok.injEq, Prod.mk.injEq]
          constructor
          · rintro ⟨rfl, rfl⟩
            exact ⟨rfl, hnode⟩
          · rintro ⟨rfl, hstored⟩
            exact ⟨rfl, by simpa [hnode] using hstored⟩

theorem read_eq_ok {system : FileSystem} {path : Path} {location : Location} {content : Bytes}
    {executable : Bool} (hfind : system.find path = .ok (location, .file content executable)) :
    system.read path = .ok content := by
  simp [read, hfind]

/-! ## Writing -/

/-- Whether a path ends in a name, with nothing after it. -/
def endsInName (path : Path) : Bool :=
  let trimmed := (path.segments.reverse.dropWhile (· = [])).reverse
  trimmed.length = path.segments.length ∧
    trimmed.getLast? ≠ some ['.'] ∧ trimmed.getLast? ≠ some ['.', '.']

theorem exists_of_isFile {system : FileSystem} {path : Path} (hfile : system.isFile path = true) :
    ∃ location content executable,
      system.find path = .ok (location, .file content executable) := by
  unfold isFile at hfile
  split at hfile
  · rename_i location content executable hfind
    exact ⟨location, content, executable, hfind⟩
  · cases hfile

/-- A file can be written where a path that ends in a name leads, unless that is a
directory. -/
theorem locateForWriting_eq_ok_iff {system : FileSystem} {path : Path} {location : Location} :
    system.locateForWriting path = .ok location ↔
      endsInName path ∧ system.locate path = .ok location ∧
        system.node? location ≠ some .directory := by
  unfold locateForWriting
  by_cases hplain : endsInName path = true
  · have hcondition := hplain
    simp only [endsInName, decide_eq_true_eq] at hcondition
    simp only [if_pos hcondition]
    cases hlocate : system.locate path with
    | error error => simp
    | ok found =>
        by_cases hdirectory : system.node? found = some .directory
        · simp only [ok_bind, hdirectory, if_true, bind_eq_ok_iff, throw_ne_ok, false_and,
            exists_false, Except.ok.injEq, false_iff, not_and]
          rintro - rfl
          simp [hdirectory]
        · simp only [ok_bind, hdirectory, if_false, pure_eq_ok_iff, Except.ok.injEq]
          constructor
          · rintro rfl
            exact ⟨hplain, rfl, hdirectory⟩
          · exact fun hall => hall.2.1
  · have hcondition := hplain
    simp only [endsInName, decide_eq_true_eq] at hcondition
    simp only [if_neg hcondition, hplain]
    cases hfollow : system.follow path _ with
    | error error => simp
    | ok above =>
        cases hnode : system.node? above with
        | none => simp [hnode]
        | some node =>
            cases node <;>
              simp [hnode]

section Written

variable {system : FileSystem} {path : Path} {location : Location}

theorem ne_nil_of_locateForWriting (hwritable : system.locateForWriting path = .ok location) :
    location ≠ [] := by
  rintro rfl
  exact (locateForWriting_eq_ok_iff.mp hwritable).2.2 rfl

/-- What was put where a path leads is found there. -/
theorem find_put (hwritable : system.locateForWriting path = .ok location) (node : Node) :
    (system.put location node).find path = .ok (location, node) := by
  obtain ⟨_, hlocate, hfree⟩ := locateForWriting_eq_ok_iff.mp hwritable
  exact find_eq_ok_iff.mpr
    ⟨locate_eq_ok (keepsDirectories_put node hfree) hlocate,
      node?_put_self system node (ne_nil_of_locateForWriting hwritable)⟩

/-- A file that was written can be written again. -/
theorem locateForWriting_put (hwritable : system.locateForWriting path = .ok location)
    (content : Bytes) (executable : Bool) :
    (system.put location (.file content executable)).locateForWriting path = .ok location := by
  obtain ⟨hplain, hlocate, hfree⟩ := locateForWriting_eq_ok_iff.mp hwritable
  refine locateForWriting_eq_ok_iff.mpr
    ⟨hplain, locate_eq_ok (keepsDirectories_put _ hfree) hlocate, ?_⟩
  rw [node?_put_self system _ (ne_nil_of_locateForWriting hwritable)]
  simp

/-- Writing replaces the node that the path leads to, and nothing else. -/
theorem write_eq_ok (hwritable : system.locateForWriting path = .ok location) (content : Bytes) :
    ∃ executable,
      system.write path content = .ok (system.put location (.file content executable)) := by
  unfold write
  rw [hwritable]
  cases hnode : system.node? location with
  | none => exact ⟨false, by simp [hnode]⟩
  | some node =>
      cases node with
      | directory => exact absurd hnode (locateForWriting_eq_ok_iff.mp hwritable).2.2
      | file old executable =>
          exact ⟨executable, by simp [hnode]⟩

theorem exists_of_write_eq_ok {written : FileSystem} {content : Bytes}
    (hwrite : system.write path content = .ok written) :
    ∃ location, system.locateForWriting path = .ok location := by
  cases hwritable : system.locateForWriting path with
  | error error => simp [write, hwritable] at hwrite
  | ok location => exact ⟨location, rfl⟩

end Written

/-! ## Copies -/

/-- A copy succeeds if its source is a file and its target can be written.  A file that
is copied onto itself is emptied. -/
theorem copy_eq_ok_iff {system copied : FileSystem} {source target : Path} :
    system.copy source target = .ok copied ↔
      ∃ origin content executable location,
        system.find source = .ok (origin, .file content executable) ∧
          system.locateForWriting target = .ok location ∧
          copied = system.put location
            (.file (if location = origin then [] else content) executable) := by
  constructor
  · intro hcopy
    obtain ⟨⟨origin, node⟩, hsource, hcopy⟩ := bind_eq_ok_iff.mp hcopy
    cases node with
    | directory => exact absurd hcopy (throw_ne_ok _ _)
    | file content executable =>
        obtain ⟨location, htarget, hcopy⟩ := bind_eq_ok_iff.mp hcopy
        refine ⟨origin, content, executable, location, hsource, htarget, ?_⟩
        by_cases hself : location = origin
        · subst hself
          simp only [node?_put_self system _ (ne_nil_of_locateForWriting htarget), put_put,
            pure_eq_ok_iff] at hcopy
          rw [if_pos rfl, hcopy]
        · have horigin := (find_eq_ok_iff.mp hsource).2
          simp only [node?_put_of_ne system _ (Ne.symm hself), horigin, put_put,
            pure_eq_ok_iff] at hcopy
          rw [if_neg hself, hcopy]
  · rintro ⟨origin, content, executable, location, hsource, htarget, rfl⟩
    by_cases hself : location = origin
    · subst hself
      simp [copy, hsource, htarget, node?_put_self system _ (ne_nil_of_locateForWriting htarget),
        put_put]
    · have horigin := (find_eq_ok_iff.mp hsource).2
      simp [copy, hsource, htarget, node?_put_of_ne system _ (Ne.symm hself), horigin, put_put,
        hself]

/-! ## Making directories -/

/-- Nodes stay as they are, and paths start from the same place. -/
structure Grows (before after : FileSystem) : Prop where
  workingDirectory : after.workingDirectory = before.workingDirectory
  node : ∀ location node, before.node? location = some node → after.node? location = some node

namespace Grows

theorem refl (system : FileSystem) : Grows system system where
  workingDirectory := rfl
  node _ _ hnode := hnode

theorem trans {first second third : FileSystem} (hleft : Grows first second)
    (hright : Grows second third) : Grows first third where
  workingDirectory := hright.workingDirectory.trans hleft.workingDirectory
  node location node hnode := hright.node location node (hleft.node location node hnode)

theorem keepsDirectories {before after : FileSystem} (hgrows : Grows before after) :
    KeepsDirectories before after where
  workingDirectory := hgrows.workingDirectory
  directory location := hgrows.node location .directory

theorem find_eq_ok {before after : FileSystem} (hgrows : Grows before after) {path : Path}
    {location : Location} {node : Node} (hfind : before.find path = .ok (location, node)) :
    after.find path = .ok (location, node) := by
  obtain ⟨hlocate, hnode⟩ := find_eq_ok_iff.mp hfind
  exact find_eq_ok_iff.mpr
    ⟨locate_eq_ok hgrows.keepsDirectories hlocate, hgrows.node location node hnode⟩

end Grows

theorem grows_put {system : FileSystem} {location : Location} (node : Node)
    (hfree : system.node? location = none) : Grows system (system.put location node) where
  workingDirectory := rfl
  node other stored hstored := by
    have hne : other ≠ location := by
      rintro rfl
      simp [hfree] at hstored
    rw [node?_put_of_ne system node hne]
    exact hstored

theorem grows_createDirectory {system made : FileSystem} {path : Path}
    (hmade : system.createDirectory path = .ok made) : Grows system made := by
  unfold createDirectory at hmade
  cases hfollow : system.follow path (Path.trimIdle path.segments) with
  | error error => simp [hfollow] at hmade
  | ok location =>
      cases hnode : system.node? location with
      | some node =>
          simp [hfollow, hnode] at hmade
      | none =>
          simp only [hfollow, hnode, ok_bind, pure_eq_ok_iff] at hmade
          subst hmade
          exact grows_put .directory hnode

section Directories

variable {related : FileSystem → FileSystem → Prop}
  (hrefl : ∀ system, related system system)
  (htrans : ∀ {first second third}, related first second → related second third →
    related first third)
  (hmake : ∀ {system made : FileSystem} {path : Path},
    system.createDirectory path = .ok made → related system made)

include hrefl hmake in
theorem ensureDirectory_induct (system : FileSystem) (path : Path) :
    related system (system.ensureDirectory path).2 := by
  unfold ensureDirectory
  split
  · rename_i made hmade
    exact hmake hmade
  · exact hrefl system
  · exact hrefl system

include hrefl htrans hmake

theorem ensureFirst_induct (system : FileSystem) (paths : List Path) :
    related system (system.ensureFirst paths).2 := by
  induction paths generalizing system with
  | nil => exact hrefl system
  | cons path above ih =>
      have hfirst := ensureDirectory_induct hrefl hmake system path
      rw [ensureFirst]
      split
      · rename_i partly hpartly
        rw [hpartly] at hfirst
        have habove := htrans hfirst (ih partly)
        split
        · rename_i ready hready
          rw [hready] at habove
          exact htrans habove (ensureDirectory_induct hrefl hmake ready path)
        · exact habove
      · exact hfirst

/-- What holds before and after a directory is made holds before and after all of them
are made. -/
theorem createDirectories_induct (system : FileSystem) (path : Path) :
    related system (system.createDirectories path).2 :=
  ensureFirst_induct hrefl htrans hmake system _

end Directories

theorem grows_createDirectories (system : FileSystem) (path : Path) :
    Grows system (system.createDirectories path).2 :=
  createDirectories_induct Grows.refl Grows.trans grows_createDirectory system path

end ScriptBundle.FileSystem
