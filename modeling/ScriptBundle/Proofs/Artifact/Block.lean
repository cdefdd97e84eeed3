import ScriptBundle.Artifact.Reader
import ScriptBundle.Proofs.Compression.RoundTrip
import ScriptBundle.Proofs.Outcomes

/-!
# Blocks that were encoded open again

An encoded block holds the plugin records, the property table and the bytecode
without a word on where one ends and the next begins.  A reader that knows the
size of the table finds all three.
-/

namespace ScriptBundle

/-- Decryption undoes encryption, which is never refused. -/
def Cipher.Lossless (cipher : Cipher) : Prop :=
  ∀ data, ∃ block, cipher.encrypt data = .ok block ∧ cipher.decrypt block = .ok data

theorem Cipher.transparent_lossless : Cipher.transparent.Lossless :=
  fun data => ⟨data, rfl, rfl⟩

namespace BlockReader

/-- A reader that has `content` left and will meet no defect. -/
def Holds (reader : BlockReader) (content : Bytes) : Prop :=
  reader.remaining = content ∧ reader.damaged = false ∧ reader.failed = false

theorem ofBlock_holds {cipher : Cipher} {block : Bytes} {level : Nat} {content : Bytes}
    (hdecrypt : cipher.decrypt block = .ok (Compression.compress level content)) :
    ∃ reader, ofBlock cipher block = .ok reader ∧ reader.Holds content := by
  refine ⟨ofDecompressed ⟨content, none⟩, ?_, rfl, rfl, rfl⟩
  rw [ofBlock, hdecrypt]
  simp only
  rw [Compression.decompress_compress]

/-- A value that a reader gives is one that its data holds. -/
theorem exists_of_decode_eq_ok {α : Type} {decoder : Decoder α} {reader after : BlockReader}
    {value : α} (hdecode : reader.decode decoder = (.ok value, after)) :
    ∃ rest, decoder.read reader.remaining = (.ok value, rest) := by
  unfold decode at hdecode
  cases hread : decoder.read reader.remaining with
  | mk outcome rest =>
      rw [hread] at hdecode
      cases outcome with
      | ok found =>
          cases hdecode
          exact ⟨rest, rfl⟩
      | error fault =>
          simp only at hdecode
          split at hdecode
          · cases hdecode
          · cases hdecode

/-- A decoder takes just its own field off the front. -/
theorem decode_holds {α : Type} {decoder : Decoder α} {field rest : Bytes} {value : α}
    {reader : BlockReader} (hreads : decoder.Reads field value)
    (hholds : reader.Holds (field ++ rest)) :
    ∃ after, reader.decode decoder = (.ok value, after) ∧ after.Holds rest := by
  obtain ⟨hremaining, hdamaged, hfailed⟩ := hholds
  refine ⟨reader.advance field.length false, ?_, ?_, hdamaged, ?_⟩
  · rw [decode, hremaining, hreads rest]
    simp
  · simp [advance, hremaining]
  · simp [advance, hfailed]

theorem advance_advance (reader : BlockReader) (first second : Nat) (short : Bool) :
    (reader.advance first false).advance second short = reader.advance (first + second) short := by
  simp [advance, List.drop_drop, Nat.add_assoc]

theorem read_of_lt {reader : BlockReader} {count : Nat}
    (hshort : reader.remaining.length < count) :
    reader.read count = (reader.remaining, reader.advance reader.remaining.length true) := by
  simp [read, List.take_of_length_le (Nat.le_of_lt hshort), hshort]

theorem read_of_le {reader : BlockReader} {count : Nat}
    (hfull : count ≤ reader.remaining.length) :
    reader.read count = (reader.remaining.take count, reader.advance count false) := by
  simp [read, Nat.min_eq_left hfull]

theorem read_of_nil {reader : BlockReader} (hremaining : reader.remaining = []) {count : Nat}
    (hcount : count ≠ 0) : reader.read count = ([], reader.advance 0 true) := by
  simp [read, hremaining, Nat.pos_of_ne_zero hcount]

theorem remaining_read (reader : BlockReader) (count : Nat) :
    (reader.read count).2.remaining = reader.remaining.drop count := by
  rcases Nat.lt_or_ge reader.remaining.length count with hshort | hfull
  · rw [read_of_lt hshort, List.drop_eq_nil_of_le (Nat.le_of_lt hshort)]
    exact List.drop_length
  · rw [read_of_le hfull]
    rfl

theorem failed_read (reader : BlockReader) (count : Nat) :
    (reader.read count).2.failed =
      (reader.failed || reader.damaged && decide (reader.remaining.length < count)) := by
  rcases Nat.lt_or_ge reader.remaining.length count with hshort | hfull
  · simp [read_of_lt hshort, advance, hshort]
  · simp [read_of_le hfull, advance, Nat.not_lt.mpr hfull]

theorem advance_zero (reader : BlockReader) : reader.advance 0 false = reader := by
  simp [advance]

/-- Reading in two portions comes to reading at once, also if the first portion was
already short. -/
theorem read_split (reader : BlockReader) {portion count : Nat} (hportion : portion ≤ count) :
    reader.read count =
      ((reader.read portion).1 ++
          ((reader.read portion).2.read (count - (reader.read portion).1.length)).1,
        ((reader.read portion).2.read (count - (reader.read portion).1.length)).2) := by
  rcases Nat.lt_or_ge reader.remaining.length portion with hshort | hfull
  · have hmore : count - reader.remaining.length ≠ 0 := by omega
    rw [read_of_lt hshort, read_of_lt (Nat.lt_of_lt_of_le hshort hportion)]
    simp [read, advance, Nat.pos_of_ne_zero hmore]
  · let behind := (reader.remaining.drop portion).take (count - portion)
    have htaken : reader.remaining.take count = reader.remaining.take portion ++ behind := by
      rw [← List.take_add, Nat.add_sub_cancel' hportion]
    have hlength : (reader.remaining.take count).length = portion + behind.length := by
      rw [htaken, List.length_append, List.length_take_of_le hfull]
    have hshort : portion + behind.length < count ↔ behind.length < count - portion := by omega
    have hbehind : (reader.advance portion false).read (count - portion) =
        (behind, reader.advance (portion + behind.length) (behind.length < count - portion)) := by
      rw [read, ← advance_advance]
      rfl
    rw [read_of_le hfull, List.length_take_of_le hfull, hbehind, read, hlength, htaken]
    simp only [hshort]

/-- A field of bytes moves a reader as reading it does; if there are too few, it is
their end or the defect behind them that is reported. -/
theorem decode_takeOr (reader : BlockReader) (count : Nat) {short : Nat → Fault}
    (hshort : ∀ held, isShortage (short held)) :
    reader.decode (Decoder.takeOr count short) =
      (if count ≤ reader.remaining.length then .ok (reader.read count).1
        else .error (if reader.damaged then .corruptStream else short reader.remaining.length),
        (reader.read count).2) := by
  rcases Nat.lt_or_ge reader.remaining.length count with hlength | hlength
  · have htaken := List.take_of_length_le (Nat.le_of_lt hlength)
    rw [decode, Decoder.read_takeOr, htaken, if_neg (Nat.ne_of_lt hlength), read_of_lt hlength,
      if_neg (Nat.not_le.mpr hlength)]
    simp [hshort]
  · have hused : reader.remaining.length - (reader.remaining.drop count).length = count := by
      rw [List.length_drop]
      omega
    rw [decode, Decoder.read_takeOr, if_pos (List.length_take_of_le hlength), read_of_le hlength,
      if_pos hlength]
    simp only [hused]

/-- The chunks come to everything that is left, and the last one meets the end. -/
theorem readAll_eq (reader : BlockReader) :
    reader.readAll = (reader.remaining, reader.advance reader.remaining.length true) := by
  fun_induction readAll reader with
  | case1 reader chunk next hread hshort =>
      have hlength : reader.remaining.length < chunkLength := by
        refine Nat.lt_of_not_le fun hfull => ?_
        rw [read_of_le hfull, Prod.mk.injEq] at hread
        rw [← hread.1, List.length_take] at hshort
        omega
      rw [← hread, read_of_lt hlength]
  | case2 reader chunk next hread hfull others last hothers ih =>
      have hlength : chunkLength ≤ reader.remaining.length := by
        refine Nat.le_of_not_lt fun hshort => ?_
        rw [read_of_lt hshort, Prod.mk.injEq] at hread
        rw [← hread.1] at hfull
        exact hfull hshort
      rw [read_of_le hlength, Prod.mk.injEq] at hread
      obtain ⟨rfl, rfl⟩ := hread
      have hcount : chunkLength + (reader.advance chunkLength false).remaining.length =
          reader.remaining.length := by
        simp only [advance, List.length_drop]
        omega
      rw [hothers, advance_advance, hcount, Prod.mk.injEq] at ih
      obtain ⟨rfl, rfl⟩ := ih
      rw [advance, List.take_append_drop]

theorem readAll_of_lt {reader : BlockReader} (hshort : reader.remaining.length < chunkLength) :
    reader.readAll = reader.read chunkLength := by
  rw [readAll_eq, read_of_lt hshort]

theorem readAll_of_le {reader : BlockReader} (hfull : chunkLength ≤ reader.remaining.length) :
    reader.readAll =
      ((reader.read chunkLength).1 ++ (reader.read chunkLength).2.readAll.1,
        (reader.read chunkLength).2.readAll.2) := by
  have hcount : chunkLength + (reader.remaining.drop chunkLength).length =
      reader.remaining.length := by
    rw [List.length_drop, Nat.add_sub_cancel' hfull]
  rw [readAll_eq, readAll_eq, remaining_read, read_of_le hfull]
  simp only
  rw [List.take_append_drop, advance_advance, hcount]

/-- What is left is all handed out. -/
theorem readAll_holds {reader : BlockReader} {content : Bytes} (hholds : reader.Holds content) :
    reader.readAll.1 = content ∧ reader.readAll.2.failed = false := by
  obtain ⟨hremaining, hdamaged, hfailed⟩ := hholds
  rw [readAll_eq]
  exact ⟨hremaining, by simp [advance, hdamaged, hfailed]⟩

end BlockReader

namespace ArtifactReader

/-- The records and the table are found in front of the bytecode. -/
theorem openBlock_eq_ok {reader : ArtifactReader} {block bytecode : Bytes} {level : Nat}
    {plugins : List Bytes} {table : PropertyTable}
    (hdecrypt : reader.cipher.decrypt block = .ok (Compression.compress level
      (Records.encode plugins ++ table.encode ++ bytecode)))
    (hplugins : Records.WithinLimits plugins) :
    ∃ rest, reader.openBlock block table.size = .ok ⟨plugins, table, rest⟩ ∧
      rest.Holds bytecode := by
  rw [List.append_assoc] at hdecrypt
  obtain ⟨opened, hopened, hall⟩ := BlockReader.ofBlock_holds hdecrypt
  obtain ⟨tail, htail, htable⟩ :=
    BlockReader.decode_holds (Records.decode_reads plugins hplugins) hall
  obtain ⟨rest, hrest, hbytecode⟩ :=
    BlockReader.decode_holds (PropertyTable.decode_reads table) htable
  refine ⟨rest, ?_, hbytecode⟩
  simp only [openBlock, hopened, htail, hrest, mapError_ok, ok_bind]
  rfl

/-- A block opens if the records and the table can be read one after the other. -/
theorem openBlock_eq_ok_iff {reader : ArtifactReader} {block : Bytes} {count : Nat}
    {opened : OpenedBlock} :
    reader.openBlock block count = .ok opened ↔
      ∃ stream middle, BlockReader.ofBlock reader.cipher block = .ok stream ∧
        stream.decode Records.decode = (.ok opened.plugins, middle) ∧
        middle.decode (PropertyTable.decode count) = (.ok opened.properties, opened.block) := by
  unfold openBlock
  cases hstream : BlockReader.ofBlock reader.cipher block with
  | error error => simp
  | ok stream =>
      cases hplugins : stream.decode Records.decode with
      | mk plugins middle =>
          cases plugins with
          | error fault => simp [hplugins]
          | ok plugins =>
              cases htable : middle.decode (PropertyTable.decode count) with
              | mk table last =>
                  cases table with
                  | error fault => simp [hplugins, htable]
                  | ok table =>
                      simp only [mapError_ok, ok_bind, hplugins, htable, pure_eq_ok_iff,
                        Except.ok.injEq, exists_and_left]
                      constructor
                      · rintro rfl
                        exact ⟨stream, rfl, middle, by simp [hplugins], by simp [htable]⟩
                      · rintro ⟨stream', rfl, middle', hplugins', htable'⟩
                        rw [hplugins] at hplugins'
                        cases hplugins'
                        rw [htable] at htable'
                        cases htable'
                        rfl

/-- A table that was read has as many slots as were asked for. -/
theorem size_of_openBlock_eq_ok {reader : ArtifactReader} {block : Bytes} {count : Nat}
    {opened : OpenedBlock} (hopen : reader.openBlock block count = .ok opened) :
    opened.properties.size = count := by
  obtain ⟨stream, middle, -, -, htable⟩ := openBlock_eq_ok_iff.mp hopen
  obtain ⟨rest, hread⟩ := BlockReader.exists_of_decode_eq_ok htable
  exact PropertyTable.size_of_read_decode_eq_ok hread

/-- The section and the block behind what was decoded.  The bytecode is everything
that the block has left. -/
theorem exists_of_decode_eq_ok {reader : ArtifactReader} {image : Bytes} {count : Nat}
    {decoded : DecodedArtifact} (hdecode : reader.decode image count = .ok decoded) :
    ∃ content opened, reader.readSection image = .ok (decoded.sectionOffset, content) ∧
      reader.openBlock content.block count = .ok opened ∧
      decoded.resources = content.resources ∧ decoded.plugins = opened.plugins ∧
      decoded.properties = opened.properties ∧ decoded.bytecode = opened.block.remaining := by
  unfold decode at hdecode
  obtain ⟨⟨offset, content⟩, hsection, hdecode⟩ := bind_eq_ok_iff.mp hdecode
  obtain ⟨opened, hopen, hdecode⟩ := bind_eq_ok_iff.mp hdecode
  rw [BlockReader.readAll_eq] at hdecode
  simp only at hdecode
  split at hdecode
  · cases hdecode
  · obtain rfl := pure_eq_ok_iff.mp hdecode
    exact ⟨content, opened, hsection, hopen, rfl, rfl, rfl, rfl⟩

/-- An image decodes once its section is found in it. -/
theorem decode_eq_ok {reader : ArtifactReader} {image bytecode : Bytes} {offset level : Nat}
    {content : DataSection} {plugins : List Bytes} {table : PropertyTable}
    (hsection : reader.readSection image = .ok (offset, content))
    (hdecrypt : reader.cipher.decrypt content.block = .ok (Compression.compress level
      (Records.encode plugins ++ table.encode ++ bytecode)))
    (hplugins : Records.WithinLimits plugins) :
    reader.decode image table.size = .ok
      { sectionOffset := offset
        blockLength := content.block.length
        resources := content.resources
        plugins
        properties := table
        bytecode } := by
  obtain ⟨rest, hopen, hholds⟩ := openBlock_eq_ok hdecrypt hplugins
  obtain ⟨hbytecode, hfailed⟩ := BlockReader.readAll_holds hholds
  simp only [decode, hsection, hopen, ok_bind, hfailed, hbytecode]
  rfl

/-- A section is what the bytes between its bounds decode to. -/
theorem readSection_eq {reader : ArtifactReader} {image data : Bytes} {start limit : Nat}
    (hbounds : Artifact.bounds reader.platform image = .ok (start, limit))
    (hdata : (image.drop start).take (limit - start) = data) :
    reader.readSection image = (do
      let content ← (DataSection.decode.read data).1.mapError (LoadError.ofFault .dataSection)
      return (start, content)) := by
  simp only [readSection, bounds, hbounds, mapError_ok, ok_bind, hdata]

/-- A section between its bounds is read as it was written. -/
theorem readSection_eq_ok {reader : ArtifactReader} {image data : Bytes} {start limit : Nat}
    {content : DataSection} (hbounds : Artifact.bounds reader.platform image = .ok (start, limit))
    (hdata : (image.drop start).take (limit - start) = data) (hencode : content.encode = .ok data)
    (hresources : Records.WithinLimits content.resources) :
    reader.readSection image = .ok (start, content) := by
  have hblock := DataSection.length_of_encode_eq_ok hencode
  rw [DataSection.encode_eq_ok content hblock, Except.ok.injEq] at hencode
  have hread := (DataSection.decode_reads content hblock hresources).of_read_nil
  rw [readSection_eq hbounds hdata, ← hencode, hread]
  rfl

end ArtifactReader

end ScriptBundle
