import ScriptBundle.OpenImage
import ScriptBundle.Proofs.Artifact.ImageEnd

/-!
# Patches of an open image

The console patch is found by way of two words of the image that it changes.  It lies behind
both of them, so they lead to it again, and the signature of the file lies in front of
everything that is looked at but the image header.  An editor that fails has only read.
-/

namespace ScriptBundle

open PortableExecutable

/-! ## Bytes that are written over -/

/-- Zeros are added behind the bytes up to a length. -/
def zeroExtended (bytes : Bytes) (length : Nat) : Bytes :=
  bytes ++ List.replicate (length - bytes.length) 0

theorem zeroExtended_of_le {bytes : Bytes} {length : Nat} (hlength : length ≤ bytes.length) :
    zeroExtended bytes length = bytes := by
  rw [zeroExtended, Nat.sub_eq_zero_of_le hlength, List.replicate_zero, List.append_nil]

/-- In front of a patch there are the bytes and the zeros that fill the gap, and behind it the
bytes go on. -/
theorem getElem?_overwrite (bytes patch : Bytes) (offset index : Nat) :
    (overwrite bytes offset patch)[index]? =
      if index < offset then (if index < bytes.length then bytes[index]? else some 0)
      else if index < offset + patch.length then patch[index - offset]? else bytes[index]? := by
  split
  · rename_i hbefore
    split
    · rename_i hinside
      exact getElem?_overwrite_of_before hbefore hinside
    · rename_i hgap
      have htaken : (bytes.take offset).length = bytes.length := by
        rw [List.length_take]
        omega
      rw [overwrite, List.append_assoc, List.append_assoc,
        List.getElem?_append_right (by omega), htaken, List.getElem?_append_left (by
          rw [List.length_replicate]
          omega), List.getElem?_replicate, if_pos (by omega)]
  · rename_i hbehind
    have hfront : (bytes.take offset ++ List.replicate (offset - bytes.length) 0).length =
        offset := by
      simp only [List.length_append, List.length_take, List.length_replicate]
      omega
    split
    · rename_i hinside
      rw [overwrite, List.append_assoc, List.getElem?_append_right (by omega), hfront,
        List.getElem?_append_left (by omega)]
    · exact getElem?_overwrite_of_behind (by omega)

/-- A patch of two bytes sets these two. -/
theorem overwrite_pair (bytes : Bytes) (offset : Nat) (low high : UInt8) :
    overwrite bytes offset [low, high] =
      ((zeroExtended bytes (offset + 2)).set offset low).set (offset + 1) high := by
  refine List.ext_getElem? fun index => ?_
  rw [getElem?_overwrite]
  simp only [zeroExtended, List.getElem?_set, List.getElem?_append, List.getElem?_replicate,
    List.length_set, List.length_append, List.length_replicate, List.length_cons, List.length_nil]
  grind

/-- Writing the same again changes nothing. -/
theorem overwrite_overwrite_self (bytes : Bytes) (offset : Nat) (patch : Bytes) :
    overwrite (overwrite bytes offset patch) offset patch = overwrite bytes offset patch := by
  refine List.ext_getElem? fun index => ?_
  simp only [getElem?_overwrite, length_overwrite]
  grind

/-- Patches of bytes that are there may be written in any order, if they are apart. -/
theorem overwrite_comm {bytes first second : Bytes} {offset offset' : Nat}
    (hinside : offset + first.length ≤ bytes.length)
    (hapart : offset + first.length ≤ offset') :
    overwrite (overwrite bytes offset first) offset' second =
      overwrite (overwrite bytes offset' second) offset first := by
  refine List.ext_getElem? fun index => ?_
  simp only [getElem?_overwrite, length_overwrite]
  grind

namespace PortableExecutable

/-! ## What the patches leave alone -/

/-- The word that was written is read. -/
theorem wordAt_overwrite_self (image patch : Bytes) (offset : Nat) :
    wordAt patch.length offset (overwrite image offset patch) = .ok (littleEndianValue patch) := by
  have hpatch : ((overwrite image offset patch).drop offset).take patch.length = patch := by
    refine List.ext_getElem? fun index => ?_
    rw [List.getElem?_take, List.getElem?_drop, getElem?_overwrite]
    grind
  rw [wordAt, hpatch, if_pos rfl]

/-- The signature of the file is in front of every word that starts behind it. -/
theorem wordAt_restoreSignature {width offset : Nat} (image : Bytes) (hoffset : 2 ≤ offset) :
    wordAt width offset (restoreSignature image) = wordAt width offset image := by
  have hsame : (restoreSignature image).drop offset = image.drop offset := by
    have hlength : fileSignature.length ≤ offset := hoffset
    rw [restoreSignature_eq, List.drop_append, List.drop_of_length_le hlength, List.nil_append,
      List.drop_drop]
    congr 1
    simp only [fileSignature, List.length_cons, List.length_nil]
    omega
  rw [wordAt, wordAt, hsame]

theorem headerOffset_restoreSignature {image : Bytes} {offset : Nat}
    (hfound : headerOffset image = .ok offset) (hoffset : 2 ≤ offset) :
    headerOffset (restoreSignature image) = .ok offset := by
  rw [headerOffset_eq_ok_iff] at hfound ⊢
  rw [wordAt_restoreSignature image (by decide), wordAt_restoreSignature image hoffset]
  exact hfound

theorem hasSignature_of_headerOffset_eq_ok {image : Bytes} {offset : Nat}
    (hfound : headerOffset image = .ok offset) : HasSignature image ∧ offset = headerAt image := by
  obtain ⟨hpointer, hsignature⟩ := headerOffset_eq_ok_iff.mp hfound
  obtain ⟨hpointerInside, hsignatureInside⟩ := length_of_headerOffset_eq_ok hfound
  rw [wordAt_of_le hpointerInside] at hpointer
  obtain rfl : headerAt image = offset := Except.ok.inj hpointer
  rw [wordAt_of_le hsignatureInside] at hsignature
  exact ⟨⟨hpointerInside, hsignatureInside, Except.ok.inj hsignature⟩, rfl⟩

theorem setConsoleSubsystem_of_headerOffset {image : Bytes} {offset : Nat}
    (hfound : headerOffset image = .ok offset) :
    setConsoleSubsystem image =
      .ok (offset + subsystemOffset,
        overwrite image (offset + subsystemOffset) (littleEndian 2 consoleSubsystem)) := by
  rw [setConsoleSubsystem, hfound]
  rfl

/-- The patch lies behind the words that lead to it. -/
theorem headerOffset_patched {image : Bytes} {offset : Nat}
    (hfound : headerOffset image = .ok offset) :
    headerOffset
      (overwrite image (offset + subsystemOffset) (littleEndian 2 consoleSubsystem)) =
        .ok offset := by
  obtain ⟨other, hother, hagain, -⟩ :=
    exists_of_setConsoleSubsystem_eq_ok (setConsoleSubsystem_of_headerOffset hfound)
  obtain rfl := Except.ok.inj (hfound.symm.trans hother)
  exact hagain

/-- The word that was patched in is read. -/
theorem subsystem_patched {image : Bytes} {offset : Nat}
    (hfound : headerOffset image = .ok offset) :
    subsystem (overwrite image (offset + subsystemOffset) (littleEndian 2 consoleSubsystem)) =
      .ok 3 := by
  rw [subsystem, headerOffset_patched hfound, ok_bind]
  exact wordAt_overwrite_self image (littleEndian 2 consoleSubsystem) _

theorem restoreSignature_eq_set (image : Bytes) :
    restoreSignature image = ((zeroExtended image 2).set 0 0x4D).set 1 0x5A :=
  overwrite_pair image 0 0x4D 0x5A

theorem restoreSignature_restoreSignature (image : Bytes) :
    restoreSignature (restoreSignature image) = restoreSignature image :=
  overwrite_overwrite_self image 0 fileSignature

/-- Both patches may be written first, if the header starts behind the signature of the file. -/
theorem restoreSignature_comm {image : Bytes} {offset : Nat}
    (hfound : headerOffset image = .ok offset) :
    overwrite (restoreSignature image) (offset + subsystemOffset)
        (littleEndian 2 consoleSubsystem) =
      restoreSignature
        (overwrite image (offset + subsystemOffset) (littleEndian 2 consoleSubsystem)) := by
  have hlong := (length_of_headerOffset_eq_ok hfound).1
  refine overwrite_comm ?_ ?_
  · exact Nat.le_trans (by decide) hlong
  · exact Nat.le_trans (by decide) (Nat.le_add_left subsystemOffset offset)

end PortableExecutable

namespace Editor

variable {α β : Type}

/-! ## Steps of an editor -/

theorem edit_bind {editor : Editor α} {next : α → Editor β} {image middle : OpenImage} {value : α}
    (hedit : editor.edit image = (.ok value, middle)) :
    (editor >>= next).edit image = (next value).edit middle := by
  change (ExceptT.bindCont next (editor.edit image).1).run (editor.edit image).2 = _
  rw [hedit]
  rfl

theorem edit_bind_error {editor : Editor α} {next : α → Editor β} {image middle : OpenImage}
    {error : ImageError} (hedit : editor.edit image = (.error error, middle)) :
    (editor >>= next).edit image = (.error error, middle) := by
  change (ExceptT.bindCont next (editor.edit image).1).run (editor.edit image).2 = _
  rw [hedit]
  rfl

theorem edit_seek (position : Nat) (image : OpenImage) :
    (seek position).edit image = (.ok (), { image with position }) := rfl

/-- The editor comes to an outcome and leaves the bytes as they are. -/
def Looks (editor : Editor α) (image : OpenImage) (outcome : Except ImageError α) : Prop :=
  ∃ position, editor.edit image = (outcome, { image with position })

theorem looks_pure (value : α) (image : OpenImage) :
    (pure value : Editor α).Looks image (pure value) :=
  ⟨image.position, rfl⟩

theorem looks_throw (error : ImageError) (image : OpenImage) :
    (throw error : Editor α).Looks image (throw error) :=
  ⟨image.position, rfl⟩

theorem looks_word (width : Nat) (image : OpenImage) :
    (word width).Looks image (wordAt width image.position image.content) := by
  have hread : (read width).edit image =
      (if ((image.content.drop image.position).take width).length = width then
          .ok ((image.content.drop image.position).take width)
        else .error .truncated,
        { image with position :=
            image.position + ((image.content.drop image.position).take width).length }) := rfl
  refine ⟨image.position + ((image.content.drop image.position).take width).length, ?_⟩
  rw [word, map_eq_pure_bind, wordAt]
  by_cases hfull : ((image.content.drop image.position).take width).length = width
  · rw [if_pos hfull] at hread ⊢
    exact edit_bind hread
  · rw [if_neg hfull] at hread ⊢
    exact edit_bind_error hread

/-- What comes behind a move starts from the new place. -/
theorem looks_seek {position : Nat} {next : Editor α} {image : OpenImage}
    {outcome : Except ImageError α} (hnext : next.Looks { image with position } outcome) :
    (seek position >>= fun _ => next).Looks image outcome := by
  obtain ⟨last, hedit⟩ := hnext
  exact ⟨last, (edit_bind (edit_seek position image)).trans hedit⟩

/-- A chain that looks comes to what its parts come to, wherever they start. -/
theorem Looks.bind {editor : Editor α} {next : α → Editor β} {image : OpenImage}
    {outcome : Except ImageError α} {continued : α → Except ImageError β}
    (hfirst : editor.Looks image outcome)
    (hnext : ∀ value position, (next value).Looks { image with position } (continued value)) :
    (editor >>= next).Looks image (outcome >>= continued) := by
  obtain ⟨position, hedit⟩ := hfirst
  cases outcome with
  | error error => exact ⟨position, edit_bind_error hedit⟩
  | ok value =>
      obtain ⟨last, hlast⟩ := hnext value position
      exact ⟨last, (edit_bind hedit).trans hlast⟩

theorem looks_findHeader (image : OpenImage) :
    findHeader.Looks image (headerOffset image.content) := by
  refine looks_seek (Looks.bind (looks_word 4 _) fun offset _ =>
    looks_seek (Looks.bind (looks_word 4 _) fun found _ => ?_))
  split
  · exact looks_pure offset _
  · exact looks_throw _ _

theorem looks_subsystem (image : OpenImage) :
    subsystem.Looks image (PortableExecutable.subsystem image.content) :=
  Looks.bind (looks_findHeader image) fun _ _ => looks_seek (looks_word 2 _)

/-! ## The patches in place -/

theorem edit_restoreSignature (image : OpenImage) :
    restoreSignature.edit image =
      (.ok (), ⟨PortableExecutable.restoreSignature image.content, 2⟩) := rfl

/-- Without a header nothing is written. -/
theorem looks_setConsole {image : OpenImage} {error : ImageError}
    (hmissing : headerOffset image.content = .error error) :
    setConsole.Looks image (.error error) := by
  obtain ⟨position, hedit⟩ := looks_findHeader image
  rw [hmissing] at hedit
  exact ⟨position, edit_bind_error hedit⟩

theorem edit_setConsole {image : OpenImage} {offset : Nat}
    (hfound : headerOffset image.content = .ok offset) :
    setConsole.edit image =
      (.ok (offset + subsystemOffset),
        ⟨overwrite image.content (offset + subsystemOffset) (littleEndian 2 consoleSubsystem),
          offset + subsystemOffset + 2⟩) := by
  obtain ⟨position, hedit⟩ := looks_findHeader image
  rw [hfound] at hedit
  exact (edit_bind hedit).trans rfl

/-- The console patch writes the two bytes of the subsystem word, if the image has a header, and
nothing if it has none.  Then the word reads as that of a console program, and the patch changes
nothing when it is repeated.  Restoring the signature of the file writes the first two bytes,
and where the header starts behind them, it does not matter which patch comes first. -/
theorem patches_confined (image : OpenImage) :
    (¬HasSignature image.content →
      ∃ error position, setConsole.edit image = (.error error, { image with position }) ∧
        setConsoleSubsystem image.content = .error error) ∧
    (HasSignature image.content →
      ∃ field patched,
        field = headerAt image.content + 92 ∧
        setConsole.edit image = (.ok field, patched) ∧
        setConsoleSubsystem image.content = .ok (field, patched.content) ∧
        patched.content =
          ((zeroExtended image.content (field + 2)).set field 3).set (field + 1) 0 ∧
        (∃ position, subsystem.edit patched = (.ok 3, { patched with position })) ∧
        setConsole.edit patched = (.ok field, patched) ∧
        (2 ≤ headerAt image.content →
          ∃ both,
            setConsole.edit (restoreSignature.edit image).2 = (.ok field, both) ∧
            both.content = (restoreSignature.edit patched).2.content ∧
            both.content = (patched.content.set 0 0x4D).set 1 0x5A)) ∧
    ∃ restored,
      restoreSignature.edit image = (.ok (), restored) ∧
      PortableExecutable.restoreSignature image.content = restored.content ∧
      restored.content = ((zeroExtended image.content 2).set 0 0x4D).set 1 0x5A ∧
      restoreSignature.edit restored = (.ok (), restored) := by
  refine ⟨fun hmissing => ?_, fun hsigned => ?_, ?_⟩
  · cases hfound : headerOffset image.content with
    | ok offset => exact absurd (hasSignature_of_headerOffset_eq_ok hfound).1 hmissing
    | error error =>
        obtain ⟨position, hedit⟩ := looks_setConsole hfound
        refine ⟨error, position, hedit, ?_⟩
        rw [setConsoleSubsystem, hfound, error_bind]
  · have hfound := headerOffset_of_hasSignature hsigned
    have hagain := headerOffset_patched hfound
    have hlong := (length_of_headerOffset_eq_ok hagain).1
    refine ⟨_, _, rfl, edit_setConsole hfound, setConsoleSubsystem_of_headerOffset hfound,
      overwrite_pair _ _ _ _, subsystem_patched hfound ▸ looks_subsystem _, ?_, fun hbehind => ?_⟩
    · rw [edit_setConsole hagain, overwrite_overwrite_self, subsystemOffset]
    · refine ⟨_, edit_setConsole (headerOffset_restoreSignature hfound hbehind),
        restoreSignature_comm hfound, (restoreSignature_comm hfound).trans ?_⟩
      rw [restoreSignature_eq_set, zeroExtended_of_le (Nat.le_trans (by decide) hlong)]
  · refine ⟨_, edit_restoreSignature image, rfl, restoreSignature_eq_set image.content, ?_⟩
    rw [edit_restoreSignature, restoreSignature_restoreSignature]

/-- An image that ends with the signature of its header. -/
def shortImage : Bytes :=
  List.replicate 60 0 ++ littleEndian 4 64 ++ littleEndian 4 headerSignature

/-- Its subsystem word lies behind its end, so the gap is filled, and the word reads as it
should. -/
theorem patches_confined_shortImage :
    ∃ patched both,
      setConsole.edit ⟨shortImage, 7⟩ = (.ok 156, patched) ∧
        patched.content = shortImage ++ List.replicate 88 0 ++ [3, 0] ∧
        (∃ position, subsystem.edit patched = (.ok 3, { patched with position })) ∧
        setConsole.edit (restoreSignature.edit ⟨shortImage, 7⟩).2 = (.ok 156, both) ∧
        both.content = fileSignature ++ patched.content.drop 2 := by
  have hheader : headerAt shortImage = 64 := by decide +kernel
  obtain ⟨field, patched, rfl, hedit, -, hpatched, hread, -, hboth⟩ :=
    (patches_confined ⟨shortImage, 7⟩).2.1
      ⟨by decide +kernel, by decide +kernel, by decide +kernel⟩
  obtain ⟨both, hother, -, hcontent⟩ := hboth (by simp only [hheader]; decide)
  simp only [hheader] at hedit hpatched hother
  refine ⟨patched, both, hedit, hpatched.trans (by decide +kernel), hread, hother, ?_⟩
  rw [hcontent, hpatched]
  decide +kernel

end Editor

end ScriptBundle
