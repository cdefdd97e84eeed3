import ScriptBundle.Proofs.Files.Following

/-!
# The names that paths end in

A path whose text ends in a few characters without a slash leads to a place whose name
ends in them.  A path that a file can be written to ends in a name.
-/

namespace ScriptBundle

namespace Path

theorem splitSlashes_of_not_mem {chars : List Char} (hslash : '/' ∉ chars) :
    splitSlashes chars = [chars] := by
  induction chars with
  | nil => rfl
  | cons char chars ih =>
      rw [List.mem_cons, not_or] at hslash
      rw [splitSlashes, if_neg (Ne.symm hslash.1), ih hslash.2]

/-- Characters behind a text become the end of its last segment. -/
theorem splitSlashes_append {ending : List Char} (hslash : '/' ∉ ending) (chars : List Char) :
    ∃ before last, splitSlashes chars = before ++ [last] ∧
      splitSlashes (chars ++ ending) = before ++ [last ++ ending] := by
  induction chars with
  | nil => exact ⟨[], [], rfl, splitSlashes_of_not_mem hslash⟩
  | cons char chars ih =>
      obtain ⟨before, last, hsplit, happended⟩ := ih
      by_cases hchar : char = '/'
      · subst hchar
        exact ⟨[] :: before, last, by simp [splitSlashes, hsplit],
          by simp [splitSlashes, happended]⟩
      · cases before with
        | nil =>
            exact ⟨[], char :: last, by simp [splitSlashes, hchar, hsplit],
              by simp [splitSlashes, hchar, happended]⟩
        | cons segment before =>
            exact ⟨(char :: segment) :: before, last, by simp [splitSlashes, hchar, hsplit],
              by simp [splitSlashes, hchar, happended]⟩

theorem joinSlashes_append (before : List Segment) (last : Segment) :
    ∃ front, joinSlashes (before ++ [last]) = front ++ last := by
  induction before with
  | nil => exact ⟨[], rfl⟩
  | cons segment before ih =>
      obtain ⟨front, hfront⟩ := ih
      refine ⟨segment ++ '/' :: front, ?_⟩
      cases before with
      | nil => simpa [joinSlashes] using hfront
      | cons second before => simpa [joinSlashes] using hfront

/-- A name that a path can end in. -/
def IsName (segment : Segment) : Prop :=
  isIdle segment = false ∧ segment ≠ ['.', '.']

theorem isName_of_lt_length {segment : Segment} (hlong : 2 < segment.length) :
    IsName segment := by
  constructor
  · rw [isIdle, decide_eq_false_iff_not]
    rintro (rfl | rfl) <;> simp at hlong
  · rintro rfl
    simp at hlong

theorem trimIdle_append {before : List Segment} {name : Segment} (hname : IsName name) :
    trimIdle (before ++ [name]) = before ++ [name] := by
  cases before with
  | nil => rfl
  | cons first rest => simp [trimIdle, hname.1]

theorem splitName?_eq_some {path : Path} {before : List Segment} {name : Segment}
    (hsegments : path.segments = before ++ [name]) (hname : IsName name) :
    path.splitName? = some (before, name) := by
  simp [splitName?, hsegments, trimIdle_append hname, hname.1, hname.2]

/-- A path below another one ends in its own text. -/
theorem text_join (path child : Path) :
    ∃ front, (path.join child).text.toList = front ++ child.text.toList := by
  unfold join
  split
  · exact ⟨[], rfl⟩
  · split
    · exact ⟨path.text.toList, String.toList_append⟩
    · exact ⟨path.text.toList ++ ['/'], by simp [String.toList_append]⟩

end Path

namespace FileSystem

/-- The segments of a path that ends in a name. -/
theorem exists_of_endsInName {path : Path} (hends : endsInName path = true) :
    ∃ before name, path.segments = before ++ [name] ∧ Path.IsName name := by
  simp only [endsInName, decide_eq_true_eq] at hends
  obtain ⟨hlength, hdot, hdots⟩ := hends
  rcases List.eq_nil_or_concat path.segments with hnil | ⟨before, name, hsegments⟩
  · obtain ⟨before, last, hsplit, -⟩ :=
      Path.splitSlashes_append (List.not_mem_nil (a := '/')) path.text.toList
    exact absurd (hnil.symm.trans hsplit) (by simp)
  · rw [List.concat_eq_append] at hsegments
    have hnonempty : name ≠ [] := by
      rintro rfl
      simp only [hsegments, List.reverse_append, List.reverse_cons, List.reverse_nil,
        List.nil_append, List.singleton_append, List.dropWhile_cons, decide_true, if_true,
        List.length_reverse, List.length_append, List.length_singleton] at hlength
      have hshort : before.length + 1 ≤ before.reverse.length :=
        hlength ▸ (List.dropWhile_sublist _).length_le
      rw [List.length_reverse] at hshort
      omega
    have htrimmed : ((path.segments.reverse.dropWhile (· = [])).reverse) = before ++ [name] := by
      simp [hsegments, hnonempty]
    rw [htrimmed] at hdot hdots
    refine ⟨before, name, hsegments, ?_, by simpa using hdots⟩
    simpa [Path.isIdle, hnonempty] using hdot

/-- A path that was given an extension and ends in a name ends in that extension. -/
theorem text_withExtension {path : Path} {extension : String}
    (hends : endsInName (path.withExtension extension) = true) :
    ∃ front, (path.withExtension extension).text.toList = front ++ '.' :: extension.toList := by
  unfold Path.withExtension at hends ⊢
  cases hsplit : path.splitName? with
  | none =>
      rw [hsplit] at hends
      obtain ⟨before, name, hsegments, hname⟩ := exists_of_endsInName hends
      rw [Path.splitName?_eq_some hsegments hname] at hsplit
      cases hsplit
  | some split =>
      obtain ⟨before, name⟩ := split
      obtain ⟨front, hfront⟩ :=
        Path.joinSlashes_append before (Path.stem name ++ '.' :: extension.toList)
      refine ⟨front ++ Path.stem name, ?_⟩
      simp only [Path.ofSegments, String.toList_ofList, hfront, List.append_assoc]

/-- A path leads to a place with the name that it ends in. -/
theorem exists_of_locate_eq_ok {system : FileSystem} {path : Path} {location : Location}
    {before : List Path.Segment} {name : Path.Segment}
    (hsegments : path.segments = before ++ [name]) (hname : Path.IsName name)
    (hlocate : system.locate path = .ok location) :
    ∃ above, location = above ++ [String.ofList name] := by
  unfold locate follow at hlocate
  split at hlocate
  · cases hlocate
  · split at hlocate
    · cases hlocate
    · split at hlocate
      · cases hlocate
      · rw [hsegments, List.foldlM_append] at hlocate
        obtain ⟨above, -, hlast⟩ := bind_eq_ok_iff.mp hlocate
        rw [List.foldlM_cons] at hlast
        obtain ⟨last, hstep, hdone⟩ := bind_eq_ok_iff.mp hlast
        rw [List.foldlM_nil, pure_eq_ok_iff] at hdone
        subst hdone
        refine ⟨above, ?_⟩
        unfold step at hstep
        split at hstep
        · cases hstep
        · cases hstep
        · rw [hname.1, if_neg Bool.false_ne_true, if_neg hname.2] at hstep
          simp only at hstep
          split at hstep
          · cases hstep
          · exact (Except.ok.inj hstep).symm

/-- A path whose text ends in `ending` leads to a place whose name ends in it. -/
theorem exists_of_locate_of_text {system : FileSystem} {path : Path} {location : Location}
    {front ending : List Char} (hslash : '/' ∉ ending) (hlong : 2 < ending.length)
    (htext : path.text.toList = front ++ ending) (hlocate : system.locate path = .ok location) :
    ∃ above last, location = above ++ [String.ofList (last ++ ending)] := by
  obtain ⟨before, last, -, hsplit⟩ := Path.splitSlashes_append hslash front
  rw [← htext] at hsplit
  obtain ⟨above, habove⟩ := exists_of_locate_eq_ok hsplit
    (Path.isName_of_lt_length (by rw [List.length_append]; omega)) hlocate
  exact ⟨above, last, habove⟩

end FileSystem

end ScriptBundle
