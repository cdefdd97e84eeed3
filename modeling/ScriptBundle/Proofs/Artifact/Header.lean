import Mathlib.Data.List.Basic
import ScriptBundle.Artifact.Image
import ScriptBundle.Proofs.Outcomes

/-!
# Headers of patched and extended images

A patch changes the bytes it names and no others, and the console patch lies
behind the words that lead to it.  What the headers of an image say stays so when
data is appended, unless one of them was cut off before.
-/

namespace ScriptBundle

/-! ## Overwriting -/

@[simp]
theorem length_overwrite (bytes : Bytes) (offset : Nat) (patch : Bytes) :
    (overwrite bytes offset patch).length = max bytes.length (offset + patch.length) := by
  simp only [overwrite, List.length_append, List.length_take, List.length_replicate,
    List.length_drop]
  omega

/-- A patch that starts within the bytes leaves no gap. -/
theorem overwrite_of_le {bytes : Bytes} {offset : Nat} (patch : Bytes)
    (hoffset : offset ≤ bytes.length) :
    overwrite bytes offset patch =
      bytes.take offset ++ patch ++ bytes.drop (offset + patch.length) := by
  rw [overwrite, Nat.sub_eq_zero_of_le hoffset, List.replicate_zero, List.append_nil]

theorem getElem?_overwrite_of_before {bytes patch : Bytes} {offset index : Nat}
    (hbefore : index < offset) (hinside : index < bytes.length) :
    (overwrite bytes offset patch)[index]? = bytes[index]? := by
  have hfront : index < (bytes.take offset).length := by
    rw [List.length_take]
    omega
  rw [overwrite, List.append_assoc, List.append_assoc, List.getElem?_append_left hfront,
    List.getElem?_take_of_lt hbefore]

theorem getElem?_overwrite_of_behind {bytes patch : Bytes} {offset index : Nat}
    (hbehind : offset + patch.length ≤ index) :
    (overwrite bytes offset patch)[index]? = bytes[index]? := by
  have hfront : (bytes.take offset ++ List.replicate (offset - bytes.length) 0 ++ patch).length =
      offset + patch.length := by
    simp only [List.length_append, List.length_take, List.length_replicate]
    omega
  rw [overwrite, List.getElem?_append_right (by omega), hfront, List.getElem?_drop]
  congr 1
  omega

namespace PortableExecutable

/-! ## Words -/

/-- A word that was read lies inside the image. -/
theorem le_length_of_wordAt_eq_ok {width offset word : Nat} {image : Bytes} (hwidth : 0 < width)
    (hword : wordAt width offset image = .ok word) : offset + width ≤ image.length := by
  simp only [wordAt] at hword
  split at hword
  · rename_i hlength
    rw [List.length_take, List.length_drop] at hlength
    omega
  · cases hword

/-- A patch behind a word leaves the word alone. -/
theorem wordAt_overwrite {width offset field : Nat} {image patch : Bytes}
    (hbefore : offset + width ≤ field) (hinside : offset + width ≤ image.length) :
    wordAt width offset (overwrite image field patch) = wordAt width offset image := by
  have hsame : ((overwrite image field patch).drop offset).take width =
      (image.drop offset).take width := by
    refine List.ext_getElem? fun index => ?_
    rw [List.getElem?_take, List.getElem?_take, List.getElem?_drop, List.getElem?_drop]
    split
    · exact getElem?_overwrite_of_before (by omega) (by omega)
    · rfl
  rw [wordAt, wordAt, hsame]

theorem headerOffset_eq_ok_iff {image : Bytes} {offset : Nat} :
    headerOffset image = .ok offset ↔
      wordAt 4 headerPointerOffset image = .ok offset ∧
        wordAt 4 offset image = .ok headerSignature := by
  unfold headerOffset
  constructor
  · intro hoffset
    obtain ⟨pointer, hpointer, hoffset⟩ := bind_eq_ok_iff.mp hoffset
    obtain ⟨found, hfound, hoffset⟩ := bind_eq_ok_iff.mp hoffset
    split at hoffset
    · rename_i hsignature
      obtain rfl := pure_eq_ok_iff.mp hoffset
      rw [hsignature] at hfound
      exact ⟨hpointer, hfound⟩
    · exact absurd hoffset (throw_ne_ok _ _)
  · rintro ⟨hpointer, hfound⟩
    rw [hpointer, ok_bind, hfound, ok_bind, if_pos rfl]
    rfl

/-- An image with a header is longer than the signature in front. -/
theorem length_of_headerOffset_eq_ok {image : Bytes} {offset : Nat}
    (hoffset : headerOffset image = .ok offset) :
    headerPointerOffset + 4 ≤ image.length ∧ offset + 4 ≤ image.length := by
  obtain ⟨hpointer, hsignature⟩ := headerOffset_eq_ok_iff.mp hoffset
  exact ⟨le_length_of_wordAt_eq_ok (by decide) hpointer,
    le_length_of_wordAt_eq_ok (by decide) hsignature⟩

/-! ## Patches -/

/-- The signature takes the place of the first two bytes. -/
theorem restoreSignature_eq (image : Bytes) :
    restoreSignature image = fileSignature ++ image.drop 2 := by
  rw [restoreSignature, overwrite_of_le _ (Nat.zero_le _)]
  rfl

theorem length_restoreSignature (image : Bytes) :
    (restoreSignature image).length = max image.length 2 :=
  length_overwrite image 0 fileSignature

/-- The console patch is two bytes at a fixed distance from the header, which is
found in the same place afterwards. -/
theorem exists_of_setConsoleSubsystem_eq_ok {image patched : Bytes} {field : Nat}
    (hpatch : setConsoleSubsystem image = .ok (field, patched)) :
    ∃ offset, headerOffset image = .ok offset ∧ headerOffset patched = .ok offset ∧
      field = offset + subsystemOffset ∧
      patched = overwrite image field (littleEndian 2 consoleSubsystem) := by
  unfold setConsoleSubsystem at hpatch
  obtain ⟨offset, hoffset, hpatch⟩ := bind_eq_ok_iff.mp hpatch
  obtain ⟨rfl, rfl⟩ := Prod.mk.inj (pure_eq_ok_iff.mp hpatch)
  refine ⟨offset, hoffset, ?_, rfl, rfl⟩
  obtain ⟨hpointer, hsignature⟩ := headerOffset_eq_ok_iff.mp hoffset
  obtain ⟨hpointerInside, hsignatureInside⟩ := length_of_headerOffset_eq_ok hoffset
  refine headerOffset_eq_ok_iff.mpr ⟨?_, ?_⟩
  · rw [wordAt_overwrite (by simp only [headerPointerOffset, subsystemOffset]; omega)
      hpointerInside, hpointer]
  · rw [wordAt_overwrite (by simp only [subsystemOffset]; omega) hsignatureInside, hsignature]

/-! ## Appended data -/

variable {α β : Type}

/-- The outcome stays the same when data is appended, unless it is that a header
lies outside the image. -/
def Settled (parse : Bytes → Except ImageError α) : Prop :=
  ∀ image, parse image ≠ .error .truncated → ∀ suffix, parse (image ++ suffix) = parse image

namespace Settled

theorem eq_ok {parse : Bytes → Except ImageError α} (hparse : Settled parse) {image : Bytes}
    {value : α} (hvalue : parse image = .ok value) (suffix : Bytes) :
    parse (image ++ suffix) = .ok value := by
  rw [hparse image (by simp [hvalue]) suffix, hvalue]

theorem bind {first : Bytes → Except ImageError α} {next : α → Bytes → Except ImageError β}
    (hfirst : Settled first) (hnext : ∀ value, Settled (next value)) :
    Settled fun image => first image >>= fun value => next value image := by
  intro image houtcome suffix
  simp only at houtcome ⊢
  cases hvalue : first image with
  | error error =>
      rw [hvalue] at houtcome
      have hsame : first (image ++ suffix) = first image := by
        refine hfirst image (fun hcut => houtcome ?_) suffix
        rw [← hvalue, hcut, error_bind]
      rw [hsame, hvalue]
      rfl
  | ok value =>
      rw [hvalue, ok_bind] at houtcome
      rw [hfirst.eq_ok hvalue suffix, ok_bind, ok_bind]
      exact hnext value image houtcome suffix

theorem drop {parse : Bytes → Except ImageError α} (hparse : Settled parse) (count : Nat) :
    Settled fun image => parse (image.drop count) := by
  intro image houtcome suffix
  simp only [List.drop_append]
  exact hparse (image.drop count) houtcome _

end Settled

theorem settled_const (outcome : Except ImageError α) : Settled fun _ => outcome :=
  fun _ _ _ => rfl

theorem settled_wordAt (width offset : Nat) : Settled (wordAt width offset) := by
  intro image houtcome suffix
  by_cases hfull : ((image.drop offset).take width).length = width
  · have hsame : ((image ++ suffix).drop offset).take width = (image.drop offset).take width := by
      rw [List.length_take] at hfull
      rw [List.drop_append, List.take_append_of_le_length (by omega)]
    rw [wordAt, wordAt, hsame]
  · exact absurd (if_neg hfull) houtcome

theorem settled_headerOffset : Settled headerOffset :=
  (settled_wordAt 4 headerPointerOffset).bind fun offset =>
    (settled_wordAt 4 offset).bind fun _ => settled_const _

/-- The section headers are read one after the other, each of them in full. -/
theorem settled_sectionsEnd (count index reached : Nat) :
    Settled (sectionsEnd count index reached) := by
  induction count generalizing index reached with
  | zero => exact settled_const (.ok reached)
  | succ count ih =>
      intro headers houtcome suffix
      by_cases hshort : (headers.take sectionHeaderLength).length < sectionHeaderLength
      · exact absurd (if_pos hshort) houtcome
      · have hfull : sectionHeaderLength ≤ headers.length := by
          rw [List.length_take] at hshort
          omega
        have hfront : (headers ++ suffix).take sectionHeaderLength =
            headers.take sectionHeaderLength :=
          List.take_append_of_le_length hfull
        have hback : (headers ++ suffix).drop sectionHeaderLength =
            headers.drop sectionHeaderLength ++ suffix :=
          List.drop_append_of_le_length hfull
        simp only [sectionsEnd, if_neg hshort, hfront, hback] at houtcome ⊢
        cases hended : sectionEnd index (headers.take sectionHeaderLength) with
        | error error => rfl
        | ok ended =>
            simp only [hended] at houtcome
            exact ih (index + 1) (max reached ended) _ houtcome suffix

/-- Nothing that is appended changes where the image ends. -/
theorem settled_endOfSections : Settled endOfSections := by
  have htable : Settled (fun afterSignature : Bytes => do
      let fileHeader := afterSignature.take fileHeaderLength
      if fileHeader.length < fileHeaderLength then throw .truncated
      let sections ← wordAt 2 2 fileHeader
      let optionalLength ← wordAt 2 16 fileHeader
      sectionsEnd sections 0 0 (afterSignature.drop (fileHeaderLength + optionalLength))) := by
    intro image houtcome suffix
    by_cases hshort : (image.take fileHeaderLength).length < fileHeaderLength
    · simp only [if_pos hshort] at houtcome
      exact absurd rfl houtcome
    · have hfront : (image ++ suffix).take fileHeaderLength = image.take fileHeaderLength := by
        rw [List.length_take] at hshort
        exact List.take_append_of_le_length (by omega)
      simp only [hfront, if_neg hshort] at houtcome ⊢
      have hwords := (settled_const (wordAt 2 2 (image.take fileHeaderLength))).bind
        fun sections => (settled_const (wordAt 2 16 (image.take fileHeaderLength))).bind
          fun optionalLength =>
            (settled_sectionsEnd sections 0 0).drop (fileHeaderLength + optionalLength)
      exact hwords image houtcome suffix
  exact settled_headerOffset.bind fun offset => htable.drop (offset + 4)

/-- An image with a section table has a header pointer. -/
theorem exists_headerOffset_of_endOfSections_eq_ok {image : Bytes} {ended : Nat}
    (hended : endOfSections image = .ok ended) : ∃ offset, headerOffset image = .ok offset := by
  obtain ⟨offset, hoffset, -⟩ := bind_eq_ok_iff.mp hended
  exact ⟨offset, hoffset⟩

end PortableExecutable

end ScriptBundle
