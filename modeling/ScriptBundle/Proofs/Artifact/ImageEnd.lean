import Mathlib.Data.Finset.Lattice.Fold
import Mathlib.Order.Lattice.Nat
import ScriptBundle.Proofs.Artifact.Header

/-!
# Where an image ends

The headers of an image lie one behind the other: the signature, the file header, the optional
header, and as many section headers as the file header announces.  They are read in this order
up to the first one that is cut or says something impossible.  If there is none, the image ends
where the last of its sections does.
-/

namespace ScriptBundle.PortableExecutable

/-! ## What the headers say -/

/-- The little-endian number in the `width` bytes at `offset`. -/
def numberAt (width offset : Nat) (image : Bytes) : Nat :=
  littleEndianValue ((image.drop offset).take width)

/-- Where the file says that its image header is. -/
def headerAt (image : Bytes) : Nat :=
  numberAt 4 headerPointerOffset image

/-- The file header follows the signature. -/
def fileHeaderAt (image : Bytes) : Nat :=
  headerAt image + 4

def sectionCount (image : Bytes) : Nat :=
  numberAt 2 (fileHeaderAt image + 2) image

def optionalLength (image : Bytes) : Nat :=
  numberAt 2 (fileHeaderAt image + 16) image

/-- The section headers follow the optional header. -/
def sectionHeaderAt (image : Bytes) (index : Nat) : Nat :=
  fileHeaderAt image + fileHeaderLength + optionalLength image + index * sectionHeaderLength

/-- Where the raw data of a section starts, and its size, added up. -/
def announcedEnd (image : Bytes) (index : Nat) : Nat :=
  numberAt 4 (sectionHeaderAt image index + 20) image +
    numberAt 4 (sectionHeaderAt image index + 16) image

/-- A signature stands where the file says that its image header is. -/
structure HasSignature (image : Bytes) : Prop where
  pointer_inside : headerPointerOffset + 4 ≤ image.length
  signature_inside : headerAt image + 4 ≤ image.length
  signature_eq : numberAt 4 (headerAt image) image = headerSignature

/-- The file header lies inside the file. -/
structure HasFileHeader (image : Bytes) : Prop extends HasSignature image where
  fileHeader_inside : fileHeaderAt image + fileHeaderLength ≤ image.length

/-- The header of a section lies inside the file. -/
def HasSectionHeader (image : Bytes) (index : Nat) : Prop :=
  sectionHeaderAt image index + sectionHeaderLength ≤ image.length

/-- Its header lies inside the file, and the section ends within the first `2 ^ 32` bytes. -/
def IsSound (image : Bytes) (index : Nat) : Prop :=
  HasSectionHeader image index ∧ announcedEnd image index < UInt32.size

/-- What is wrong with the header of one section. -/
inductive SectionDefect (image : Bytes) (index : Nat) : ImageError → Prop where
  | cut (hcut : ¬HasSectionHeader image index) : SectionDefect image index .truncated
  | overflow (hinside : HasSectionHeader image index)
      (hoverflow : UInt32.size ≤ announcedEnd image index) :
      SectionDefect image index (.sectionOverflow index)

/-- The first thing that is wrong with the headers of an image, in their order. -/
inductive FirstDefect (image : Bytes) : ImageError → Prop where
  | pointerCut (hcut : image.length < headerPointerOffset + 4) : FirstDefect image .truncated
  | signatureCut (hpointer : headerPointerOffset + 4 ≤ image.length)
      (hcut : image.length < headerAt image + 4) : FirstDefect image .truncated
  | badSignature (hpointer : headerPointerOffset + 4 ≤ image.length)
      (hinside : headerAt image + 4 ≤ image.length)
      (hfound : numberAt 4 (headerAt image) image ≠ headerSignature) :
      FirstDefect image (.badSignature (headerAt image) (numberAt 4 (headerAt image) image))
  | fileHeaderCut (hsigned : HasSignature image)
      (hcut : image.length < fileHeaderAt image + fileHeaderLength) :
      FirstDefect image .truncated
  | inSection {error : ImageError} (hheader : HasFileHeader image) (index : Nat)
      (hannounced : index < sectionCount image) (hearlier : ∀ other < index, IsSound image other)
      (hdefect : SectionDefect image index error) : FirstDefect image error

/-! ## Words of an image -/

theorem wordAt_of_le {width offset : Nat} {image : Bytes}
    (hinside : offset + width ≤ image.length) :
    wordAt width offset image = .ok (numberAt width offset image) := by
  rw [wordAt, if_pos]
  · rfl
  · rw [List.length_take, List.length_drop]
    omega

theorem wordAt_of_lt {width offset : Nat} {image : Bytes}
    (hcut : image.length < offset + width) (hwidth : 0 < width) :
    wordAt width offset image = .error .truncated := by
  rw [wordAt, if_neg]
  rw [List.length_take, List.length_drop]
  omega

/-- A word of a part of an image is a word of the image. -/
theorem wordAt_window (width offset : Nat) {start count : Nat} {image : Bytes}
    (hwindow : offset + width ≤ count) (hinside : start + count ≤ image.length) :
    wordAt width offset ((image.drop start).take count) =
      .ok (numberAt width (start + offset) image) := by
  have hlength : offset + width ≤ ((image.drop start).take count).length := by
    rw [List.length_take, List.length_drop]
    omega
  have hsame : (((image.drop start).take count).drop offset).take width =
      (image.drop (start + offset)).take width := by
    rw [List.drop_take, List.take_take, List.drop_drop, Nat.min_eq_left (by omega)]
  rw [wordAt_of_le hlength, numberAt, numberAt, hsame]

/-! ## The section headers -/

theorem sectionHeaderAt_succ (image : Bytes) (index : Nat) :
    sectionHeaderAt image (index + 1) = sectionHeaderAt image index + sectionHeaderLength := by
  rw [sectionHeaderAt, sectionHeaderAt, Nat.succ_mul, ← Nat.add_assoc]

/-- The table is read from the header of a section on. -/
theorem sectionsEnd_of_cut {image : Bytes} {index : Nat} (count reached : Nat)
    (hcut : ¬HasSectionHeader image index) :
    sectionsEnd (count + 1) index reached (image.drop (sectionHeaderAt image index)) =
      .error .truncated := by
  rw [sectionsEnd]
  refine if_pos ?_
  rw [HasSectionHeader] at hcut
  rw [List.length_take, List.length_drop]
  simp only [sectionHeaderLength] at hcut ⊢
  omega

theorem sectionsEnd_of_header {image : Bytes} {index : Nat} (count reached : Nat)
    (hinside : HasSectionHeader image index) :
    sectionsEnd (count + 1) index reached (image.drop (sectionHeaderAt image index)) =
      if announcedEnd image index < UInt32.size then
        sectionsEnd count (index + 1) (max reached (announcedEnd image index))
          (image.drop (sectionHeaderAt image (index + 1)))
      else .error (.sectionOverflow index) := by
  have hsize := wordAt_window 4 16 (by decide) hinside
  have hpointer := wordAt_window 4 20 (by decide) hinside
  have hended : sectionEnd index
      ((image.drop (sectionHeaderAt image index)).take sectionHeaderLength) =
        if announcedEnd image index < UInt32.size then .ok (announcedEnd image index)
        else .error (.sectionOverflow index) := by
    rw [sectionEnd, hsize, ok_bind, hpointer, ok_bind]
    rfl
  have hfull : ¬((image.drop (sectionHeaderAt image index)).take sectionHeaderLength).length <
      sectionHeaderLength := by
    rw [HasSectionHeader] at hinside
    rw [List.length_take, List.length_drop]
    omega
  rw [sectionsEnd]
  simp only [if_neg hfull, hended, List.drop_drop, ← sectionHeaderAt_succ]
  by_cases haddressable : announcedEnd image index < UInt32.size
  · simp only [if_pos haddressable]
  · simp only [if_neg haddressable]

theorem sectionsEnd_of_isSound {image : Bytes} {index : Nat} (count reached : Nat)
    (hsound : IsSound image index) :
    sectionsEnd (count + 1) index reached (image.drop (sectionHeaderAt image index)) =
      sectionsEnd count (index + 1) (max reached (announcedEnd image index))
        (image.drop (sectionHeaderAt image (index + 1))) :=
  (sectionsEnd_of_header count reached hsound.1).trans (if_pos hsound.2)

theorem SectionDefect.sectionsEnd_eq {image : Bytes} {index : Nat} {error : ImageError}
    (count reached : Nat) (hdefect : SectionDefect image index error) :
    sectionsEnd (count + 1) index reached (image.drop (sectionHeaderAt image index)) =
      .error error := by
  cases hdefect with
  | cut hcut => exact sectionsEnd_of_cut count reached hcut
  | overflow hinside hoverflow =>
      rw [sectionsEnd_of_header count reached hinside, if_neg (Nat.not_lt.mpr hoverflow)]

theorem isSound_or_exists_sectionDefect (image : Bytes) (index : Nat) :
    IsSound image index ∨ ∃ error, SectionDefect image index error := by
  by_cases hinside : HasSectionHeader image index
  · rcases Nat.lt_or_ge (announcedEnd image index) UInt32.size with haddressable | hoverflow
    · exact .inl ⟨hinside, haddressable⟩
    · exact .inr ⟨_, .overflow hinside hoverflow⟩
  · exact .inr ⟨_, .cut hinside⟩

theorem sup_range_succ (count : Nat) (ends : Nat → Nat) :
    (Finset.range (count + 1)).sup ends =
      max (ends 0) ((Finset.range count).sup fun step => ends (step + 1)) := by
  rw [Finset.range_add_one', Finset.sup_insert, Finset.sup_map]
  rfl

/-- If the headers are sound, the sections end where the last of them does. -/
theorem sectionsEnd_of_forall {image : Bytes} {count : Nat} (index reached : Nat)
    (hsound : ∀ step < count, IsSound image (index + step)) :
    sectionsEnd count index reached (image.drop (sectionHeaderAt image index)) =
      .ok (max reached ((Finset.range count).sup fun step =>
        announcedEnd image (index + step))) := by
  induction count generalizing index reached with
  | zero => simp [sectionsEnd]
  | succ count ih =>
      obtain ⟨hfirst, hothers⟩ := Nat.forall_lt_succ_left.mp hsound
      simp only [Nat.add_zero, ← index.succ_add_eq_add_succ] at hfirst hothers
      rw [sectionsEnd_of_isSound count reached hfirst, ih _ _ hothers, sup_range_succ, max_assoc]
      simp only [Nat.add_zero, ← index.succ_add_eq_add_succ]

/-- Otherwise the first one that is not decides. -/
theorem sectionsEnd_of_sectionDefect {image : Bytes} {count index step : Nat} {error : ImageError}
    (reached : Nat) (hannounced : step < count)
    (hearlier : ∀ other < step, IsSound image (index + other))
    (hdefect : SectionDefect image (index + step) error) :
    sectionsEnd count index reached (image.drop (sectionHeaderAt image index)) = .error error := by
  induction step generalizing count index reached with
  | zero =>
      obtain ⟨count, rfl⟩ := Nat.exists_eq_add_one.mpr hannounced
      exact hdefect.sectionsEnd_eq count reached
  | succ step ih =>
      obtain ⟨count, rfl⟩ := Nat.exists_eq_add_one.mpr (Nat.zero_lt_of_lt hannounced)
      obtain ⟨hfirst, hothers⟩ := Nat.forall_lt_succ_left.mp hearlier
      simp only [Nat.add_zero, ← index.succ_add_eq_add_succ] at hfirst hothers hdefect
      rw [sectionsEnd_of_isSound count reached hfirst]
      exact ih _ (Nat.lt_of_succ_lt_succ hannounced) hothers hdefect

/-- All sections are sound, or there is a first one that is not. -/
theorem forall_isSound_or_exists (image : Bytes) (count : Nat) :
    (∀ index < count, IsSound image index) ∨
      ∃ index < count, (∀ other < index, IsSound image other) ∧
        ∃ error, SectionDefect image index error := by
  induction count with
  | zero => exact .inl fun index hindex => absurd hindex (Nat.not_lt_zero index)
  | succ count ih =>
      rcases ih with hall | ⟨index, hindex, hearlier, hdefect⟩
      · rcases isSound_or_exists_sectionDefect image count with hsound | hdefect
        · exact .inl (Nat.forall_lt_succ_right.mpr ⟨hall, hsound⟩)
        · exact .inr ⟨count, Nat.lt_succ_self count, hall, hdefect⟩
      · exact .inr ⟨index, Nat.lt_succ_of_lt hindex, hearlier, hdefect⟩

/-! ## The whole of the headers -/

theorem headerOffset_of_hasSignature {image : Bytes} (hsigned : HasSignature image) :
    headerOffset image = .ok (headerAt image) := by
  rw [headerOffset_eq_ok_iff, wordAt_of_le hsigned.pointer_inside,
    wordAt_of_le hsigned.signature_inside, hsigned.signature_eq]
  exact ⟨rfl, rfl⟩

/-- A pointer that is there is followed to the signature. -/
theorem headerOffset_of_le {image : Bytes} (hpointer : headerPointerOffset + 4 ≤ image.length) :
    headerOffset image =
      wordAt 4 (headerAt image) image >>= fun found =>
        if found = headerSignature then pure (headerAt image)
        else throw (.badSignature (headerAt image) found) := by
  rw [headerOffset, wordAt_of_le hpointer, ok_bind]
  rfl

theorem endOfSections_of_headerOffset_eq_error {image : Bytes} {error : ImageError}
    (hoffset : headerOffset image = .error error) : endOfSections image = .error error := by
  rw [endOfSections, hoffset, error_bind]

/-- Behind the signature the file header is read, and then the section headers. -/
theorem endOfSections_of_hasFileHeader {image : Bytes} (hheader : HasFileHeader image) :
    endOfSections image =
      sectionsEnd (sectionCount image) 0 0 (image.drop (sectionHeaderAt image 0)) := by
  have hinside := hheader.fileHeader_inside
  have hfull : ¬((image.drop (fileHeaderAt image)).take fileHeaderLength).length <
      fileHeaderLength := by
    rw [List.length_take, List.length_drop]
    omega
  have hsections := wordAt_window 2 2 (by decide) hinside
  have hoptional := wordAt_window 2 16 (by decide) hinside
  have htable : sectionHeaderAt image 0 =
      fileHeaderAt image + (fileHeaderLength + optionalLength image) := by
    rw [sectionHeaderAt, Nat.zero_mul, Nat.add_zero, Nat.add_assoc]
  rw [fileHeaderAt] at hfull hsections hoptional htable
  rw [endOfSections, headerOffset_of_hasSignature hheader.toHasSignature, ok_bind, htable]
  simp only [if_neg hfull, hsections, hoptional, ok_bind, List.drop_drop]
  rfl

theorem endOfSections_of_cut {image : Bytes} (hsigned : HasSignature image)
    (hcut : image.length < fileHeaderAt image + fileHeaderLength) :
    endOfSections image = .error .truncated := by
  have hshort : ((image.drop (headerAt image + 4)).take fileHeaderLength).length <
      fileHeaderLength := by
    rw [fileHeaderAt] at hcut
    rw [List.length_take, List.length_drop]
    simp only [fileHeaderLength] at hcut ⊢
    omega
  rw [endOfSections, headerOffset_of_hasSignature hsigned, ok_bind]
  simp only [if_pos hshort]
  rfl

/-- The first defect is what the reader reports. -/
theorem FirstDefect.endOfSections_eq {image : Bytes} {error : ImageError}
    (hdefect : FirstDefect image error) : endOfSections image = .error error := by
  cases hdefect with
  | pointerCut hcut =>
      refine endOfSections_of_headerOffset_eq_error ?_
      rw [headerOffset, wordAt_of_lt hcut (by decide), error_bind]
  | signatureCut hpointer hcut =>
      refine endOfSections_of_headerOffset_eq_error ?_
      rw [headerOffset_of_le hpointer, wordAt_of_lt hcut (by decide), error_bind]
  | badSignature hpointer hinside hfound =>
      refine endOfSections_of_headerOffset_eq_error ?_
      rw [headerOffset_of_le hpointer, wordAt_of_le hinside, ok_bind, if_neg hfound]
      rfl
  | fileHeaderCut hsigned hcut => exact endOfSections_of_cut hsigned hcut
  | inSection hheader index hannounced hearlier hdefect =>
      rw [endOfSections_of_hasFileHeader hheader]
      rw [← Nat.zero_add index] at hdefect
      exact sectionsEnd_of_sectionDefect 0 hannounced
        (fun other hother => (Nat.zero_add other).symm ▸ hearlier other hother) hdefect

/-- The end of an image without a defect. -/
theorem endOfSections_of_forall {image : Bytes} (hheader : HasFileHeader image)
    (hsound : ∀ index < sectionCount image, IsSound image index) :
    endOfSections image =
      .ok ((Finset.range (sectionCount image)).sup (announcedEnd image)) := by
  have hended := sectionsEnd_of_forall 0 0
    fun step hstep => (Nat.zero_add step).symm ▸ hsound step hstep
  rw [endOfSections_of_hasFileHeader hheader, hended, Nat.zero_max]
  simp only [Nat.zero_add]

/-- The headers are sound, or one of them is the first that is not. -/
theorem isSound_or_exists_firstDefect (image : Bytes) :
    (HasFileHeader image ∧ ∀ index < sectionCount image, IsSound image index) ∨
      ∃ error, FirstDefect image error := by
  rcases Nat.lt_or_ge image.length (headerPointerOffset + 4) with hcut | hpointer
  · exact .inr ⟨_, .pointerCut hcut⟩
  rcases Nat.lt_or_ge image.length (headerAt image + 4) with hcut | hinside
  · exact .inr ⟨_, .signatureCut hpointer hcut⟩
  by_cases hfound : numberAt 4 (headerAt image) image = headerSignature
  · have hsigned : HasSignature image := ⟨hpointer, hinside, hfound⟩
    rcases Nat.lt_or_ge image.length (fileHeaderAt image + fileHeaderLength) with hcut | hfull
    · exact .inr ⟨_, .fileHeaderCut hsigned hcut⟩
    · have hheader : HasFileHeader image := ⟨hsigned, hfull⟩
      rcases forall_isSound_or_exists image (sectionCount image) with
        hsound | ⟨index, hannounced, hearlier, error, hdefect⟩
      · exact .inl ⟨hheader, hsound⟩
      · exact .inr ⟨error, .inSection hheader index hannounced hearlier hdefect⟩
  · exact .inr ⟨_, .badSignature hpointer hinside hfound⟩

/-- An image ends where the last of its sections does, if the signature, the file header and
all section headers that it announces are there and no section is too far.  Otherwise the first
of the headers that is not so decides.  Nothing that is appended changes the outcome, unless a
header was cut. -/
theorem endOfSections_exact (image : Bytes) :
    (∀ ended, endOfSections image = .ok ended ↔
      HasSignature image ∧ fileHeaderAt image + fileHeaderLength ≤ image.length ∧
        (∀ index < sectionCount image,
          HasSectionHeader image index ∧ announcedEnd image index < UInt32.size) ∧
        ended = (Finset.range (sectionCount image)).sup (announcedEnd image)) ∧
    (∀ error, endOfSections image = .error error ↔ FirstDefect image error) ∧
    (endOfSections image ≠ .error .truncated →
      ∀ suffix, endOfSections (image ++ suffix) = endOfSections image) := by
  refine ⟨fun ended => ⟨fun hended => ?_, ?_⟩, fun error => ⟨fun herror => ?_, ?_⟩,
    settled_endOfSections image⟩
  · rcases isSound_or_exists_firstDefect image with ⟨hheader, hsound⟩ | ⟨error, hdefect⟩
    · have hsame := hended.symm.trans (endOfSections_of_forall hheader hsound)
      exact ⟨hheader.toHasSignature, hheader.fileHeader_inside, hsound, Except.ok.inj hsame⟩
    · cases hended.symm.trans hdefect.endOfSections_eq
  · rintro ⟨hsigned, hinside, hsound, rfl⟩
    exact endOfSections_of_forall ⟨hsigned, hinside⟩ hsound
  · rcases isSound_or_exists_firstDefect image with ⟨hheader, hsound⟩ | ⟨found, hdefect⟩
    · cases herror.symm.trans (endOfSections_of_forall hheader hsound)
    · obtain rfl := Except.error.inj (herror.symm.trans hdefect.endOfSections_eq)
      exact hdefect
  · exact FirstDefect.endOfSections_eq

/-- An image of two sections without an optional header.  The first one ends at 500, and the
second one 16 bytes behind `start`. -/
def twoSections (start : Nat) : Bytes :=
  List.replicate 60 0 ++ littleEndian 4 64 ++ littleEndian 4 headerSignature ++
    (List.replicate 2 0 ++ littleEndian 2 2 ++ List.replicate 16 0) ++
    (List.replicate 16 0 ++ littleEndian 4 200 ++ littleEndian 4 300 ++ List.replicate 16 0) ++
    (List.replicate 16 0 ++ littleEndian 4 16 ++ littleEndian 4 start ++ List.replicate 16 0)

/-- The image ends with its second section, whatever comes behind it.  A second section that is
too far is reported, and a cut in front of it comes first. -/
theorem endOfSections_exact_twoSections :
    (∀ suffix, endOfSections (twoSections 512 ++ suffix) = .ok 528) ∧
      FirstDefect (twoSections 0xFFFFFFF0) (.sectionOverflow 1) ∧
      FirstDefect ((twoSections 0xFFFFFFF0).take 150) .truncated := by
  have hended : endOfSections (twoSections 512) = .ok 528 := by decide +kernel
  refine ⟨fun suffix => ?_, ?_, ?_⟩
  · rw [(endOfSections_exact (twoSections 512)).2.2 (by simp [hended]) suffix, hended]
  · exact ((endOfSections_exact _).2.1 _).mp (by decide +kernel)
  · exact ((endOfSections_exact _).2.1 _).mp (by decide +kernel)

end ScriptBundle.PortableExecutable
