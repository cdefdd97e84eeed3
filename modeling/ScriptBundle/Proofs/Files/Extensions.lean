import ScriptBundle.Platform
import ScriptBundle.Proofs.Files.Naming
import Mathlib.Data.List.TakeWhile

/-!
# Extensions, and the names of outputs

An extension is what stands behind the last dot inside a name.  The output of a script is named
without the extension of the script.  For Windows, a second extension gives way to `exe`, so that
outputs which differ only in it fall together.
-/

namespace ScriptBundle

namespace Path

/-! ## Names without their extension -/

/-- A name without its last extension.  A dot in front does not begin one. -/
inductive Unextended : Segment → Segment → Prop
  | plain {name : Segment} (hdot : '.' ∉ name.tail) : Unextended name name
  | extended {kept extension : Segment} (hkept : kept ≠ []) (hdot : '.' ∉ extension) :
      Unextended (kept ++ '.' :: extension) kept

theorem dropWhile_reverse {chars : List Char} (hdot : '.' ∉ chars) :
    chars.reverse.dropWhile (fun char => decide (char ≠ '.')) = [] := by
  rw [List.dropWhile_eq_nil_iff]
  intro char hmem
  exact decide_eq_true fun h => hdot (h ▸ List.mem_reverse.mp hmem)

theorem stem_of_not_mem_tail {name : Segment} (hdot : '.' ∉ name.tail) : stem name = name := by
  cases name with
  | nil => rfl
  | cons first rest =>
      have hrest : '.' ∉ rest := hdot
      rw [stem, List.reverse_cons, List.dropWhile_append, dropWhile_reverse hrest]
      by_cases hfirst : first = '.' <;> simp [hfirst]

theorem stem_append {kept extension : Segment} (hkept : kept ≠ []) (hdot : '.' ∉ extension) :
    stem (kept ++ '.' :: extension) = kept := by
  obtain ⟨last, front, hlast⟩ := List.exists_cons_of_ne_nil (List.reverse_ne_nil_iff.mpr hkept)
  rw [stem, List.reverse_append, List.reverse_cons, List.append_assoc, List.dropWhile_append,
    dropWhile_reverse hdot, hlast]
  simp only [List.isEmpty_nil, if_true, List.singleton_append, List.dropWhile_cons, ne_eq,
    not_true_eq_false, decide_false, Bool.false_eq_true, if_false]
  rw [← hlast, List.reverse_reverse]

theorem unextended_stem (name : Segment) : Unextended name (stem name) := by
  by_cases hdot : '.' ∈ name.tail
  · obtain ⟨first, rest, rfl⟩ := List.exists_cons_of_ne_nil (l := name) (by
      rintro rfl
      cases hdot)
    -- The last dot behind the first character begins the extension.
    rw [List.tail_cons] at hdot
    obtain ⟨extension, middle, hrest, hlast⟩ :=
      List.eq_append_cons_of_mem (List.mem_reverse.mpr hdot)
    have hname : first :: rest = (first :: middle.reverse) ++ '.' :: extension.reverse := by
      rw [← List.reverse_reverse rest, hrest]
      simp
    have hextension : '.' ∉ extension.reverse := fun hmem => hlast (List.mem_reverse.mp hmem)
    rw [hname, stem_append (List.cons_ne_nil _ _) hextension]
    exact .extended (List.cons_ne_nil _ _) hextension
  · rw [stem_of_not_mem_tail hdot]
    exact .plain hdot

theorem unextended_iff {name kept : Segment} : Unextended name kept ↔ stem name = kept := by
  constructor
  · intro hkept
    cases hkept with
    | plain hdot => exact stem_of_not_mem_tail hdot
    | extended hkept hdot => exact stem_append hkept hdot
  · rintro rfl
    exact unextended_stem name

/-- Only a name without an extension is left as it is. -/
theorem stem_eq_self_iff {name : Segment} : stem name = name ↔ '.' ∉ name.tail := by
  refine ⟨fun hstem => ?_, stem_of_not_mem_tail⟩
  generalize hkept : stem name = kept at hstem
  cases unextended_iff.mpr hkept with
  | plain hdot => exact hdot
  | extended hkept hdot => simp at hstem

theorem stem_subset (name : Segment) : stem name ⊆ name := by
  generalize hkept : stem name = kept
  cases unextended_iff.mpr hkept with
  | plain hdot => exact List.Subset.refl name
  | extended hkept hdot => exact List.subset_append_left _ _

theorem stem_ne_nil {name : Segment} (hname : name ≠ []) : stem name ≠ [] := by
  generalize hkept : stem name = kept
  cases unextended_iff.mpr hkept with
  | plain hdot => exact hname
  | extended hne hdot => exact hne

/-! ## Paths of segments -/

theorem splitSlashes_cons_append {segment : Segment} (hslash : '/' ∉ segment)
    (chars : List Char) :
    splitSlashes (segment ++ '/' :: chars) = segment :: splitSlashes chars := by
  induction segment with
  | nil => simp [splitSlashes]
  | cons char segment ih =>
      rw [List.mem_cons, not_or] at hslash
      rw [List.cons_append, splitSlashes, if_neg (Ne.symm hslash.1), ih hslash.2]

theorem splitSlashes_joinSlashes {segments : List Segment} (hne : segments ≠ [])
    (hslash : ∀ segment ∈ segments, '/' ∉ segment) :
    splitSlashes (joinSlashes segments) = segments := by
  induction segments with
  | nil => exact absurd rfl hne
  | cons segment rest ih =>
      rw [List.forall_mem_cons] at hslash
      cases rest with
      | nil => exact splitSlashes_of_not_mem hslash.1
      | cons second rest =>
          rw [joinSlashes, splitSlashes_cons_append hslash.1,
            ih (List.cons_ne_nil _ _) hslash.2]
          exact List.cons_ne_nil _ _

theorem not_mem_of_mem_splitSlashes {chars : List Char} {segment : Segment}
    (hmem : segment ∈ splitSlashes chars) : '/' ∉ segment := by
  induction chars generalizing segment with
  | nil =>
      obtain rfl := List.mem_singleton.mp hmem
      exact List.not_mem_nil
  | cons char chars ih =>
      rw [splitSlashes] at hmem
      split at hmem
      · rcases List.mem_cons.mp hmem with rfl | hmem
        · exact List.not_mem_nil
        · exact ih hmem
      · rename_i hchar
        split at hmem
        · obtain rfl := List.mem_singleton.mp hmem
          simpa using Ne.symm hchar
        · rename_i first rest hsplit
          rw [hsplit] at ih
          rcases List.mem_cons.mp hmem with rfl | hmem
          · simpa using ⟨Ne.symm hchar, ih (List.mem_cons_self ..)⟩
          · exact ih (List.mem_cons_of_mem _ hmem)

theorem not_mem_of_mem_segments (path : Path) {segment : Segment}
    (hmem : segment ∈ path.segments) : '/' ∉ segment :=
  not_mem_of_mem_splitSlashes hmem

theorem segments_ofSegments {segments : List Segment} (hne : segments ≠ [])
    (hslash : ∀ segment ∈ segments, '/' ∉ segment) : (ofSegments segments).segments = segments := by
  rw [Path.segments, ofSegments, String.toList_ofList, splitSlashes_joinSlashes hne hslash]

/-- What is trimmed off are idle segments. -/
theorem exists_idle (segments : List Segment) :
    ∃ idle, segments = trimIdle segments ++ idle ∧ ∀ segment ∈ idle, isIdle segment = true := by
  cases segments with
  | nil => exact ⟨[], rfl, fun _ hmem => by cases hmem⟩
  | cons first rest =>
      refine ⟨(rest.reverse.takeWhile isIdle).reverse, ?_, fun segment hmem => ?_⟩
      · rw [trimIdle, List.cons_append, ← List.reverse_append, List.takeWhile_append_dropWhile,
          List.reverse_reverse]
      · exact List.mem_takeWhile_imp (List.mem_reverse.mp hmem)

/-- A path ends in a name if only idle segments stand behind it. -/
theorem splitName?_eq_some_iff {path : Path} {before : List Segment} {name : Segment} :
    path.splitName? = some (before, name) ↔
      IsName name ∧ trimIdle path.segments = before ++ [name] := by
  unfold splitName? IsName
  rcases List.eq_nil_or_concat (trimIdle path.segments) with hnil | ⟨front, last, htrimmed⟩
  · simp [hnil]
  · rw [List.concat_eq_append] at htrimmed
    rw [htrimmed]
    simp only [List.getLast?_append, List.getLast?_singleton, Option.some_or,
      List.dropLast_concat]
    constructor
    · intro hsome
      split at hsome
      · cases hsome
      · rename_i hidle
        cases hsome
        rw [not_or, Bool.not_eq_true] at hidle
        exact ⟨hidle, rfl⟩
    · rintro ⟨hname, hsplit⟩
      obtain ⟨rfl, hlast⟩ := List.append_inj' hsplit rfl
      cases hlast
      simp [hname.1, hname.2]

/-- A path that ends in a name, and only idle segments behind it. -/
theorem exists_segments_eq {path : Path} {before : List Segment} {name : Segment}
    (hsplit : path.splitName? = some (before, name)) :
    IsName name ∧ ∃ idle, path.segments = before ++ name :: idle ∧
      ∀ segment ∈ idle, isIdle segment = true := by
  obtain ⟨hname, htrimmed⟩ := splitName?_eq_some_iff.mp hsplit
  obtain ⟨idle, hsegments, hidle⟩ := exists_idle path.segments
  rw [htrimmed, List.append_assoc, List.singleton_append] at hsegments
  exact ⟨hname, idle, hsegments, hidle⟩

theorem ne_nil_of_splitName? {path : Path} {before : List Segment} {name : Segment}
    (hsplit : path.splitName? = some (before, name)) : name ≠ [] := by
  rintro rfl
  exact absurd (exists_segments_eq hsplit).1.1 (by decide)

theorem splitName?_ofSegments {before : List Segment} {name : Segment} (hname : IsName name)
    (hslash : ∀ segment ∈ before ++ [name], '/' ∉ segment) :
    (ofSegments (before ++ [name])).splitName? = some (before, name) :=
  splitName?_eq_some (segments_ofSegments (by simp) hslash) hname

/-- The parts of a path in front of its name. -/
def directories : List Segment → List String
  | [] => []
  | first :: rest =>
      (if first = [] then "/" else String.ofList first) ::
        (rest.filter fun segment => !isIdle segment).map String.ofList

theorem isAbsolute_iff {path : Path} {first : Segment} {rest : List Segment}
    (hsegments : path.segments = first :: rest) :
    path.isAbsolute = true ↔ first = [] ∧ rest ≠ [] := by
  have hslash : '/' ∉ first := not_mem_of_mem_segments path (by simp [hsegments])
  have htext : path.text.toList = joinSlashes (first :: rest) := by
    rw [← hsegments, segments, joinSlashes_splitSlashes]
  rw [isAbsolute, htext, decide_eq_true_iff]
  cases rest with
  | nil =>
      have hhead : first.head? ≠ some '/' := fun h => hslash (List.mem_of_head? h)
      simpa [joinSlashes] using hhead
  | cons second rest =>
      cases first with
      | nil => simp [joinSlashes]
      | cons char first => simpa [joinSlashes] using (List.ne_of_not_mem_cons hslash).symm

theorem components_eq {path : Path} {before : List Segment} {name : Segment}
    (hsplit : path.splitName? = some (before, name)) :
    path.components = directories before ++ [String.ofList name] := by
  obtain ⟨hname, idle, hsegments, hidle⟩ := exists_segments_eq hsplit
  have hnone : idle.filter (fun segment => !isIdle segment) = [] := by
    rw [List.filter_eq_nil_iff]
    intro segment hmem
    simp [hidle segment hmem]
  have hne := ne_nil_of_splitName? hsplit
  cases before with
  | nil =>
      have hrelative : ¬ path.isAbsolute = true := fun h =>
        hne ((isAbsolute_iff hsegments).mp h).1
      simp [components, hsegments, hrelative, hne, hnone, directories]
  | cons first rest =>
      by_cases hfirst : first = []
      · have habsolute : path.isAbsolute = true :=
          (isAbsolute_iff hsegments).mpr ⟨hfirst, by simp⟩
        simp [components, hsegments, habsolute, hfirst, hname.1, hnone, directories]
      · have hrelative : ¬ path.isAbsolute = true := fun h =>
          hfirst ((isAbsolute_iff hsegments).mp h).1
        simp [components, hsegments, hrelative, hfirst, hname.1, hnone, directories]

theorem not_mem_of_splitName? {path : Path} {before : List Segment} {name segment : Segment}
    (hsplit : path.splitName? = some (before, name)) (hmem : segment ∈ before ++ [name]) :
    '/' ∉ segment := by
  obtain ⟨-, idle, hsegments, -⟩ := exists_segments_eq hsplit
  refine not_mem_of_mem_segments path ?_
  rw [hsegments, List.append_cons]
  exact List.mem_append_left idle hmem

/-- The segments of a path stay segments when its name is replaced by a part of it with more
behind. -/
theorem not_mem_renamed {path : Path} {before : List Segment} {name kept rest : Segment}
    (hsplit : path.splitName? = some (before, name)) (hsubset : kept ⊆ name)
    (hrest : '/' ∉ rest) : ∀ segment ∈ before ++ [kept ++ rest], '/' ∉ segment := by
  intro segment hmem
  rcases List.mem_append.mp hmem with hmem | hmem
  · exact not_mem_of_splitName? hsplit (List.mem_append_left _ hmem)
  · obtain rfl := List.mem_singleton.mp hmem
    have hname : '/' ∉ name := not_mem_of_splitName? hsplit (by simp)
    rw [List.mem_append]
    exact fun hslash => hslash.elim (fun hkept => hname (hsubset hkept)) hrest

/-- The name with the extension in place of its own or, if `kept` is the name itself, behind it. -/
theorem splitName?_extended {path : Path} {before : List Segment} {name kept : Segment}
    {extension : String} (hsplit : path.splitName? = some (before, name)) (hkept : kept ≠ [])
    (hsubset : kept ⊆ name) (hextension : extension ≠ "") (hslash : '/' ∉ extension.toList) :
    (ofSegments (before ++ [kept ++ '.' :: extension.toList])).splitName? =
      some (before, kept ++ '.' :: extension.toList) := by
  refine splitName?_ofSegments (isName_of_lt_length ?_) (not_mem_renamed hsplit hsubset ?_)
  · have hpositive := List.length_pos_iff.mpr hkept
    have hlength : 0 < extension.toList.length := by
      rw [List.length_pos_iff]
      simpa using hextension
    rw [List.length_append, List.length_cons]
    omega
  · simpa using hslash

section

variable {path : Path} {before : List Segment} {name : Segment} {extension : String}

theorem withExtension_eq (hsplit : path.splitName? = some (before, name)) :
    path.withExtension extension =
      ofSegments (before ++ [stem name ++ '.' :: extension.toList]) := by
  rw [withExtension, hsplit]

/-- An extension that is given to a path takes the place of that of its name. -/
theorem splitName?_withExtension (hsplit : path.splitName? = some (before, name))
    (hextension : extension ≠ "") (hslash : '/' ∉ extension.toList) :
    (path.withExtension extension).splitName? =
      some (before, stem name ++ '.' :: extension.toList) := by
  rw [withExtension_eq hsplit]
  exact splitName?_extended hsplit (stem_ne_nil (ne_nil_of_splitName? hsplit)) (stem_subset name)
    hextension hslash

/-- An extension is added behind a name just when the name has none. -/
theorem withExtension_eq_append_iff (hsplit : path.splitName? = some (before, name))
    (hextension : extension ≠ "") (hslash : '/' ∉ extension.toList) :
    path.withExtension extension = ofSegments (before ++ [name ++ '.' :: extension.toList]) ↔
      '.' ∉ name.tail := by
  constructor
  · intro hbehind
    have hreplaced := splitName?_withExtension hsplit hextension hslash
    rw [hbehind, splitName?_extended hsplit (ne_nil_of_splitName? hsplit)
      (List.Subset.refl name) hextension hslash] at hreplaced
    have hnames : name ++ '.' :: extension.toList = stem name ++ '.' :: extension.toList :=
      (Prod.mk.inj (Option.some.inj hreplaced)).2
    exact stem_eq_self_iff.mp (List.append_cancel_right hnames).symm
  · intro hdot
    rw [withExtension_eq hsplit, stem_of_not_mem_tail hdot]

theorem splitName?_withoutExtension (hsplit : path.splitName? = some (before, name))
    (hstem : IsName (stem name)) : path.withoutExtension.splitName? = some (before, stem name) := by
  have hdot : stem name ≠ ['.'] := fun h => absurd (h ▸ hstem.1) (by decide)
  have hwithout : path.withoutExtension = ofSegments (before ++ [stem name]) := by
    simp only [withoutExtension, hsplit, hdot, false_and, if_false]
  rw [hwithout]
  have hslash : ∀ segment ∈ before ++ [stem name ++ []], '/' ∉ segment :=
    not_mem_renamed hsplit (stem_subset name) List.not_mem_nil
  rw [List.append_nil] at hslash
  exact splitName?_ofSegments hstem hslash

/-- Two paths that differ fall together under an extension just when they lead into one directory,
to names that differ in their extension. -/
theorem collide_iff {other : Path} {before' : List Segment} {name' : Segment}
    (hsplit : path.splitName? = some (before, name))
    (hother : other.splitName? = some (before', name'))
    (hextension : extension ≠ "") (hslash : '/' ∉ extension.toList) :
    path.components ≠ other.components ∧
        (path.withExtension extension).components = (other.withExtension extension).components ↔
      path.components.dropLast = other.components.dropLast ∧ name ≠ name' ∧
        stem name = stem name' := by
  rw [components_eq hsplit, components_eq hother,
    components_eq (splitName?_withExtension hsplit hextension hslash),
    components_eq (splitName?_withExtension hother hextension hslash), List.dropLast_concat,
    List.dropLast_concat]
  simp only [ne_eq, List.append_singleton_inj, String.ofList_inj, List.append_cancel_right_eq]
  constructor
  · rintro ⟨hdiffer, hdirectories, hstem⟩
    exact ⟨hdirectories, fun hname => hdiffer ⟨hdirectories, hname⟩, hstem⟩
  · rintro ⟨hdirectories, hname, hstem⟩
    exact ⟨fun hsame => hname hsame.2, hdirectories, hstem⟩

end

end Path

namespace Platform

variable {basename : Option String} {script : Path}

theorem outputPath_of_unnamed (hbasename : nonempty? basename = none) (platform : Platform) :
    platform.outputPath basename script =
      if platform = .windows then script.withoutExtension.withExtension "exe"
      else script.withoutExtension := by
  simp only [outputPath, hbasename]

/-- Without a basename, the output of a script for Linux and for macOS has the name of the script
without its last extension, which is dots alone if nothing but a dot is left.  The output for
Windows has the name of the other one, if that is a name, with `.exe` in place of a further
extension, so that it is the other one with `.exe` behind it just when there is none.  Two outputs
for Linux that differ fall together for Windows just when they are in one directory and differ in
a further extension. -/
theorem outputPath_exact (hbasename : nonempty? basename = none)
    {before : List Path.Segment} {name : Path.Segment}
    (hname : script.splitName? = some (before, name)) :
    outputPath .mac basename script = outputPath .linux basename script ∧
    (∃ kept, Path.Unextended name kept ∧
      (outputPath .linux basename script = .ofSegments (before ++ [kept]) ∨
        kept = ['.'] ∧ script.segments = before ++ [name] ∧
          outputPath .linux basename script = .ofSegments (before ++ [['.', '.']])) ∧
      (Path.IsName kept → (outputPath .linux basename script).splitName? = some (before, kept))) ∧
    ((outputPath .linux basename script).splitName? = none →
      outputPath .windows basename script = outputPath .linux basename script) ∧
    ∀ directory last,
      (outputPath .linux basename script).splitName? = some (directory, last) →
      (∃ bare, Path.Unextended last bare ∧
        outputPath .windows basename script =
          .ofSegments (directory ++ [bare ++ ".exe".toList])) ∧
      (outputPath .windows basename script = .ofSegments (directory ++ [last ++ ".exe".toList]) ↔
        '.' ∉ last.tail) ∧
      ∀ other directory' last',
        (outputPath .linux basename other).splitName? = some (directory', last') →
        ((outputPath .linux basename script).components ≠
              (outputPath .linux basename other).components ∧
            (outputPath .windows basename script).components =
              (outputPath .windows basename other).components ↔
          (outputPath .linux basename script).components.dropLast =
              (outputPath .linux basename other).components.dropLast ∧
            last ≠ last' ∧ ∃ bare, Path.Unextended last bare ∧ Path.Unextended last' bare) := by
  simp only [outputPath_of_unnamed hbasename, reduceCtorEq, if_false, if_true, true_and]
  refine ⟨⟨Path.stem name, Path.unextended_stem name, ?_, Path.splitName?_withoutExtension hname⟩,
    fun hnone => ?_, fun directory last hlast => ⟨⟨Path.stem last, Path.unextended_stem last, ?_⟩,
      ?_, fun other directory' last' hlast' => ?_⟩⟩
  · simp only [Path.withoutExtension, hname]
    split
    · rename_i hdots
      exact .inr ⟨hdots.1, hdots.2, rfl⟩
    · exact .inl rfl
  · rw [Path.withExtension, hnone]
  · exact Path.withExtension_eq hlast
  · exact Path.withExtension_eq_append_iff hlast (by decide) (by decide)
  · rw [Path.collide_iff hlast hlast' (by decide) (by decide)]
    simp only [Path.unextended_iff, exists_eq_left']
    exact and_congr_right fun _ => and_congr_right fun _ => eq_comm

/-- Two scripts whose outputs for Windows lose the second dot of their names, and fall together. -/
theorem outputPath_exact_twoDots :
    nonempty? none = none ∧
    (Path.mk "my.game.script").splitName? = some ([], "my.game.script".toList) ∧
    (outputPath .linux none ⟨"my.game.script"⟩).splitName? = some ([], "my.game".toList) ∧
    outputPath .windows none ⟨"my.game.script"⟩ ≠ .ofSegments ["my.game.exe".toList] ∧
    (outputPath .linux none ⟨"my.tool.script"⟩).splitName? = some ([], "my.tool".toList) ∧
    (outputPath .linux none ⟨"my.game.script"⟩).components ≠
      (outputPath .linux none ⟨"my.tool.script"⟩).components ∧
    (outputPath .windows none ⟨"my.game.script"⟩).components =
      (outputPath .windows none ⟨"my.tool.script"⟩).components := by
  have hbasename : nonempty? none = none := by decide
  have hname : (Path.mk "my.game.script").splitName? = some ([], "my.game.script".toList) := by
    decide +kernel
  have hgame : (outputPath .linux none ⟨"my.game.script"⟩).splitName? =
      some ([], "my.game".toList) := by decide +kernel
  have htool : (outputPath .linux none ⟨"my.tool.script"⟩).splitName? =
      some ([], "my.tool".toList) := by decide +kernel
  obtain ⟨-, happended, hcollide⟩ :=
    (outputPath_exact hbasename hname).2.2.2 [] "my.game".toList hgame
  refine ⟨hbasename, hname, hgame, fun h => absurd (happended.mp h) (by decide), htool,
    (hcollide ⟨"my.tool.script"⟩ [] "my.tool".toList htool).mpr ⟨by decide +kernel, by decide, ?_⟩⟩
  exact ⟨"my".toList, Path.unextended_iff.mpr (by decide +kernel),
    Path.unextended_iff.mpr (by decide +kernel)⟩

example : outputPath .windows none ⟨"games/my.game.script"⟩ = ⟨"games/my.exe"⟩ := by
  decide +kernel

end Platform

end ScriptBundle
