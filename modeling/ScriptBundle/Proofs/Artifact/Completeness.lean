import ScriptBundle.Proofs.Artifact.Block
import ScriptBundle.Proofs.Compression.Truncation
import ScriptBundle.Proofs.Layout.Spellings
import ScriptBundle.Proofs.Streaming.Decoding

/-!
# Decoded artifacts are complete

Damage of the compressed stream shows only where the data in front of it has been handed
out.  A decoder drains the stream to its end, so it gives an artifact just if the stream
inflates completely, and the content of the stream is then what the artifact spells.
-/

namespace ScriptBundle

namespace BlockReader

/-- A field that is read is one of its spellings, and just that is handed out. -/
theorem decode_eq_ok_iff {α : Type} {decoder : Decoder α} {spells : Bytes → α → Prop}
    {reader after : BlockReader} {value : α} (haccepts : decoder.Accepts spells) :
    reader.decode decoder = (.ok value, after) ↔
      ∃ field rest, reader.remaining = field ++ rest ∧ spells field value ∧
        after = reader.advance field.length false := by
  constructor
  · intro hdecode
    obtain ⟨rest, hread⟩ := exists_of_decode_eq_ok hdecode
    obtain ⟨field, hremaining, hfield⟩ := (haccepts _ _ _).mp hread
    refine ⟨field, rest, hremaining, hfield, ?_⟩
    have hused : reader.remaining.length - rest.length = field.length := by
      rw [hremaining, List.length_append, Nat.add_sub_cancel]
    rw [decode, hread] at hdecode
    simp only [hused] at hdecode
    exact (Prod.mk.inj hdecode).2.symm
  · rintro ⟨field, rest, hremaining, hfield, rfl⟩
    have hused : reader.remaining.length - rest.length = field.length := by
      rw [hremaining, List.length_append, Nat.add_sub_cancel]
    rw [decode, (haccepts _ _ _).mpr ⟨field, hremaining, hfield⟩]
    simp only [hused]

/-- A reader of a stream has the payload and no damage just if the stream inflates. -/
theorem ofDecompressed_eq_iff {compressed payload : Bytes} :
    (ofDecompressed (Compression.decompress compressed)).damaged = false ∧
        (ofDecompressed (Compression.decompress compressed)).remaining = payload ↔
      ∃ trailing, Compression.Inflates compressed payload trailing := by
  rw [← Compression.decompress_eq_iff]
  rcases Compression.decompress compressed with ⟨output, _ | defect⟩
  · simp [ofDecompressed, readable]
  · simp [ofDecompressed]

end BlockReader

namespace ArtifactReader

/-- The content of a block: what stands in front of the bytecode is spelled by the front of
the data, and the bytecode is all the rest. -/
theorem openBlock_eq_ok_iff_spells {reader : ArtifactReader} {block : Bytes} {count : Nat}
    {opened : OpenedBlock} :
    reader.openBlock block count = .ok opened ↔
      ∃ stream lists table, BlockReader.ofBlock reader.cipher block = .ok stream ∧
        stream.remaining = lists ++ table ++ opened.block.remaining ∧
        Records.Spells lists opened.plugins ∧ PropertyTable.Spells table opened.properties ∧
        opened.properties.size = count ∧
        opened.block = stream.advance (lists.length + table.length) false := by
  simp only [openBlock_eq_ok_iff, BlockReader.decode_eq_ok_iff Records.decode_accepts,
    BlockReader.decode_eq_ok_iff (PropertyTable.decode_accepts count)]
  constructor
  · rintro ⟨stream, _, hstream, ⟨lists, behind, hlists, hplugins, rfl⟩, table, rest, htable,
      ⟨hproperties, hsize⟩, hblock⟩
    rw [BlockReader.advance_advance] at hblock
    refine ⟨stream, lists, table, hstream, ?_, hplugins, hproperties, hsize, hblock⟩
    have hbehind : behind = table ++ rest := by
      rw [← htable, BlockReader.advance, hlists, List.drop_left]
    rw [hblock, BlockReader.advance, hlists, hbehind, ← List.append_assoc,
      ← List.length_append, List.drop_left]
  · rintro ⟨stream, lists, table, hstream, hremaining, hplugins, hproperties, hsize, hblock⟩
    rw [List.append_assoc] at hremaining
    refine ⟨stream, stream.advance lists.length false, hstream,
      ⟨lists, _, hremaining, hplugins, rfl⟩, table, opened.block.remaining, ?_,
      ⟨hproperties, hsize⟩, ?_⟩
    · rw [BlockReader.advance, hremaining, List.drop_left]
    · rw [BlockReader.advance_advance, hblock]

/-- Draining succeeds just where no defect follows. -/
theorem decode_eq_ok_iff_opened {reader : ArtifactReader} {image : Bytes} {count : Nat}
    {decoded : DecodedArtifact} :
    reader.decode image count = .ok decoded ↔
      ∃ content opened, reader.readSection image = .ok (decoded.sectionOffset, content) ∧
        reader.openBlock content.block count = .ok opened ∧
        (opened.block.failed || opened.block.damaged) = false ∧
        decoded =
          { sectionOffset := decoded.sectionOffset
            blockLength := content.block.length
            resources := content.resources
            plugins := opened.plugins
            properties := opened.properties
            bytecode := opened.block.remaining } := by
  unfold decode
  simp only [bind_eq_ok_iff, BlockReader.readAll_eq]
  constructor
  · rintro ⟨⟨offset, content⟩, hsection, opened, hopen, hdrained⟩
    split at hdrained
    · cases hdrained
    · rename_i hsound
      cases hdrained
      exact ⟨content, opened, hsection, hopen, Bool.eq_false_iff.mpr hsound, rfl⟩
  · rintro ⟨content, opened, hsection, hopen, hsound, hdecoded⟩
    refine ⟨_, hsection, opened, hopen, ?_⟩
    simp only [BlockReader.advance, List.drop_length, Bool.true_and, hsound]
    rw [hdecoded]
    rfl

/-- The artifact is the whole content of a section whose block decrypts to a stream that
inflates to its end: a record list, a table of `count` values and the bytecode. -/
def Holds (reader : ArtifactReader) (image : Bytes) (count : Nat) (decoded : DecodedArtifact) :
    Prop :=
  ∃ content compressed trailing lists table,
    reader.readSection image = .ok (decoded.sectionOffset, content) ∧
    decoded.blockLength = content.block.length ∧ decoded.resources = content.resources ∧
    reader.cipher.decrypt content.block = .ok compressed ∧
    Compression.Inflates compressed (lists ++ table ++ decoded.bytecode) trailing ∧
    Records.Spells lists decoded.plugins ∧ PropertyTable.Spells table decoded.properties ∧
    decoded.properties.size = count

theorem ofBlock_eq_ok_iff {cipher : Cipher} {block : Bytes} {stream : BlockReader} :
    BlockReader.ofBlock cipher block = .ok stream ↔
      ∃ compressed, cipher.decrypt block = .ok compressed ∧
        stream = BlockReader.ofDecompressed (Compression.decompress compressed) := by
  rw [BlockReader.ofBlock]
  cases cipher.decrypt block with
  | error error => simp
  | ok compressed => simp [eq_comm]

theorem decode_eq_ok_iff_holds {reader : ArtifactReader} {image : Bytes} {count : Nat}
    {decoded : DecodedArtifact} :
    reader.decode image count = .ok decoded ↔ reader.Holds image count decoded := by
  simp only [decode_eq_ok_iff_opened, openBlock_eq_ok_iff_spells, ofBlock_eq_ok_iff]
  constructor
  · rintro ⟨content, opened, hsection, ⟨_, lists, table, ⟨compressed, hdecrypt, rfl⟩, hremaining,
      hplugins, hproperties, hsize, hblock⟩, hsound, hdecoded⟩
    have hdamaged : (BlockReader.ofDecompressed
        (Compression.decompress compressed)).damaged = false := by
      rw [hblock] at hsound
      exact (Bool.or_eq_false_iff.mp hsound).2
    obtain ⟨trailing, hinflates⟩ :=
      BlockReader.ofDecompressed_eq_iff.mp ⟨hdamaged, hremaining⟩
    rw [hdecoded]
    exact ⟨content, compressed, trailing, lists, table, hsection, rfl, rfl, hdecrypt, hinflates,
      hplugins, hproperties, hsize⟩
  · rintro ⟨content, compressed, trailing, lists, table, hsection, hlength, hresources, hdecrypt,
      hinflates, hplugins, hproperties, hsize⟩
    obtain ⟨hdamaged, hremaining⟩ :=
      BlockReader.ofDecompressed_eq_iff.mpr ⟨trailing, hinflates⟩
    let block := (BlockReader.ofDecompressed (Compression.decompress compressed)).advance
      (lists.length + table.length) false
    have hrest : block.remaining = decoded.bytecode := by
      change (BlockReader.remaining _).drop _ = _
      rw [hremaining, ← List.length_append, List.drop_left]
    refine ⟨content, ⟨decoded.plugins, decoded.properties, block⟩, hsection,
      ⟨_, lists, table, ⟨compressed, hdecrypt, rfl⟩, ?_, hplugins, hproperties, hsize, rfl⟩, ?_, ?_⟩
    · rw [hrest, hremaining]
    · exact hdamaged
    · rw [hrest, ← hlength, ← hresources]

/-- Nothing is decoded from a stream with a defect. -/
theorem decode_eq_error_of_defect {reader : ArtifactReader} {image : Bytes} {offset : Nat}
    {content : DataSection} {compressed output : Bytes} {defect : Compression.Defect}
    (hsection : reader.readSection image = .ok (offset, content))
    (hdecrypt : reader.cipher.decrypt content.block = .ok compressed)
    (hdefect : Compression.decompress compressed = ⟨output, some defect⟩) (count : Nat) :
    ∃ error, reader.decode image count = .error error := by
  cases hdecode : reader.decode image count with
  | error error => exact ⟨error, rfl⟩
  | ok decoded =>
      obtain ⟨content', compressed', trailing, lists, table, hsection', -, -, hdecrypt',
        hinflates, -⟩ := decode_eq_ok_iff_holds.mp hdecode
      cases hsection.symm.trans hsection'
      cases hdecrypt.symm.trans hdecrypt'
      have hcomplete := Compression.decompress_eq_iff.mpr ⟨trailing, hinflates⟩
      cases hdefect.symm.trans hcomplete

/-- A decoder gives an artifact just if the image holds it whole, and it is the same when
the block is decoded from a stream, in pieces of any sizes.  Wherever the compressed stream
has a defect, and wherever it is cut, the decoder fails. -/
theorem decode_complete (reader : ArtifactReader) (image : Bytes) (count : Nat) :
    (∀ decoded, reader.decode image count = .ok decoded ↔ reader.Holds image count decoded) ∧
    (∀ {τ : Type} (inflater : Inflater τ) (Gives : τ → Bytes → Bool → Prop),
      inflater.Decompresses Gives → ∀ ask,
        reader.decodeStream inflater ask image count = reader.decode image count) ∧
    ∀ offset content compressed, reader.readSection image = .ok (offset, content) →
      reader.cipher.decrypt content.block = .ok compressed →
        (∀ output defect, Compression.decompress compressed = ⟨output, some defect⟩ →
          ∃ error, reader.decode image count = .error error) ∧
        ∀ whole payload cut, Compression.Inflates whole payload [] → cut < whole.length →
          compressed = whole.take cut → ∃ error, reader.decode image count = .error error := by
  refine ⟨fun decoded => decode_eq_ok_iff_holds,
    fun _ _ hinflater ask => decodeStream_eq_decode hinflater ask reader image count, ?_⟩
  intro offset content compressed hsection hdecrypt
  constructor
  · intro output defect hdefect
    exact decode_eq_error_of_defect hsection hdecrypt hdefect count
  · rintro whole payload cut hinflates hcut rfl
    obtain ⟨output, defect, hdefect⟩ := Compression.exists_defect_of_cut hinflates hcut
    exact decode_eq_error_of_defect hsection hdecrypt hdefect count

/-- An image for a platform without a section table that holds just the given block. -/
def imageOf (block : Bytes) : Bytes :=
  Records.encode [] ++ DataSection.encodeLength block.length ++ block ++ littleEndian 8 0

/-- A plugin record, a table of one value and three bytes of bytecode. -/
def wholeContent : Bytes :=
  Records.encode [[7, 7]] ++ (PropertyTable.mk [300]).encode ++ [1, 2, 3]

def wholeStream : Bytes := Compression.compress 0 wholeContent

/-- The last byte of a checksum is missed, also by a stream that gives byte after byte. -/
theorem decode_complete_cut :
    (∃ decoded, (ArtifactReader.mk ⟨"game"⟩ .linux .transparent).decode
        (imageOf wholeStream) 1 = .ok decoded ∧ decoded.bytecode = [1, 2, 3]) ∧
      ∃ error, (ArtifactReader.mk ⟨"game"⟩ .linux .transparent).decodeStream (.inPieces 0) id
        (imageOf (wholeStream.take (wholeStream.length - 1))) 1 = .error error := by
  constructor
  · obtain ⟨decoded, hdecode, hbytecode⟩ := exists_eq_ok_of_any
      ((ArtifactReader.mk ⟨"game"⟩ .linux .transparent).decode (imageOf wholeStream) 1)
      (fun decoded => decoded.bytecode = [1, 2, 3]) (by decide +kernel)
    exact ⟨decoded, hdecode, of_decide_eq_true hbytecode⟩
  · obtain ⟨⟨offset, content⟩, hsection, hblock⟩ := exists_eq_ok_of_any
      ((ArtifactReader.mk ⟨"game"⟩ .linux .transparent).readSection
        (imageOf (wholeStream.take (wholeStream.length - 1))))
      (fun found => found.2.block = wholeStream.take (wholeStream.length - 1)) (by decide +kernel)
    have hinflates : Compression.Inflates wholeStream wholeContent [] :=
      Compression.inflates_stored wholeContent
    rw [(decode_complete _ _ 1).2.1 _ _ (Inflater.inPieces_decompresses 0) id]
    exact ((decode_complete _ _ 1).2.2 offset content _ hsection
      (congrArg Except.ok (of_decide_eq_true hblock))).2 wholeStream wholeContent _ hinflates
        (by decide +kernel) rfl

end ArtifactReader

end ScriptBundle
