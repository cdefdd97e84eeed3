import ScriptBundle.Proofs.Layout.RoundTrip

/-!
# Changed lengths of blocks

The length of a block is stored under a mask, so that most changes of it come to a length that
no file has.  A reader asks only whether there are as many bytes as the length says.
-/

namespace ScriptBundle.DataSection

open Decoder

/-- The bytes of a section with `stored` in the place of the masked length. -/
def encodeStored (content : DataSection) (stored : Nat) : Bytes :=
  Records.encode content.resources ++ Varint.encode stored ++ content.block

/-- What is stored is the masked length. -/
theorem encode_eq_encodeStored {content : DataSection}
    (hblock : content.block.length < UInt32.size) :
    content.encode = .ok (content.encodeStored (content.block.length ^^^ lengthMask)) :=
  encode_eq_ok content hblock

/-- Any word is taken for a masked length. -/
theorem decodeLength_reads_stored {stored : Nat} (hstored : stored < UInt32.size) :
    decodeLength.Reads (Varint.encode stored) (stored ^^^ lengthMask) := by
  have hmasked : stored ^^^ lengthMask < UInt32.size :=
    Nat.xor_lt_two_pow (n := 32) hstored (by decide)
  have hreads := decodeLength_reads _ hmasked
  rwa [encodeLength, Nat.xor_xor_cancel_right] at hreads

/-- The resources are read as they are, and then as many bytes as the stored length says. -/
theorem read_encodeStored {content : DataSection} {stored : Nat}
    (hresources : Records.WithinLimits content.resources) (hstored : stored < UInt32.size) :
    decode.read (content.encodeStored stored) =
      if stored ^^^ lengthMask ≤ content.block.length then
        (.ok { content with block := content.block.take (stored ^^^ lengthMask) },
          content.block.drop (stored ^^^ lengthMask))
      else (.error (.blockCut content.block.length (stored ^^^ lengthMask)), []) := by
  rw [encodeStored, List.append_assoc, decode,
    read_bind (Records.decode_reads content.resources hresources _),
    read_bind (decodeLength_reads_stored hstored _)]
  rcases Nat.lt_or_ge content.block.length (stored ^^^ lengthMask) with hshort | hfull
  · have htaken : content.block.take (stored ^^^ lengthMask) = content.block :=
      List.take_of_length_le (Nat.le_of_lt hshort)
    rw [if_neg (Nat.not_le.mpr hshort)]
    refine read_bind_error ?_
    rw [read_takeOr, htaken, if_neg (Nat.ne_of_lt hshort)]
  · have htaken : (content.block.take (stored ^^^ lengthMask)).length = stored ^^^ lengthMask :=
      List.length_take_of_le hfull
    rw [if_pos hfull]
    have hread : (takeOr (stored ^^^ lengthMask) fun held =>
        .blockCut held (stored ^^^ lengthMask)).read content.block =
          (.ok (content.block.take (stored ^^^ lengthMask)),
            content.block.drop (stored ^^^ lengthMask)) := by
      rw [read_takeOr, if_pos htaken]
    exact (read_bind hread).trans (read_pure _ _)

/-- A stored word is refused just where it stands for more bytes than the block has. -/
theorem refused_encodeStored_iff {content : DataSection} {stored : Nat}
    (hresources : Records.WithinLimits content.resources) (hstored : stored < UInt32.size) :
    (∃ fault rest, decode.read (content.encodeStored stored) = (.error fault, rest)) ↔
      content.block.length < stored ^^^ lengthMask := by
  rw [read_encodeStored hresources hstored]
  split
  · rename_i hfull
    refine iff_of_false ?_ (Nat.not_lt.mpr hfull)
    rintro ⟨fault, rest, hread⟩
    cases hread
  · rename_i hshort
    exact iff_of_true ⟨_, _, rfl⟩ (Nat.lt_of_not_le hshort)

/-- Each length that the block exceeds is stored as a word of its own, and is taken. -/
theorem read_encodeStored_of_lt {content : DataSection} {length : Nat}
    (hresources : Records.WithinLimits content.resources)
    (hblock : content.block.length < UInt32.size) (hlength : length < content.block.length) :
    length ^^^ lengthMask < UInt32.size ∧
      length ^^^ lengthMask ≠ content.block.length ^^^ lengthMask ∧
      decode.read (content.encodeStored (length ^^^ lengthMask)) =
        (.ok { content with block := content.block.take length }, content.block.drop length) := by
  have hstored : length ^^^ lengthMask < UInt32.size :=
    Nat.xor_lt_two_pow (n := 32) (Nat.lt_trans hlength hblock) (by decide)
  refine ⟨hstored, mt Nat.xor_left_inj.mp (Nat.ne_of_lt hlength), ?_⟩
  rw [read_encodeStored hresources hstored, Nat.xor_xor_cancel_right,
    if_pos (Nat.le_of_lt hlength)]

/-- A changed length is refused if and only if it is longer than the block.  For each length
that the block exceeds there is a word that is taken, with the beginning of the block that it
leaves.  So every change is found just if the block is empty. -/
theorem decode_tampered (content : DataSection)
    (hresources : Records.WithinLimits content.resources)
    (hblock : content.block.length < UInt32.size) :
    content.encode = .ok (content.encodeStored (content.block.length ^^^ lengthMask)) ∧
    (∀ stored, stored < UInt32.size → stored ≠ content.block.length ^^^ lengthMask →
      ((∃ fault rest, decode.read (content.encodeStored stored) = (.error fault, rest)) ↔
        content.block.length < stored ^^^ lengthMask)) ∧
    (∀ length, length < content.block.length →
      length ^^^ lengthMask < UInt32.size ∧
        length ^^^ lengthMask ≠ content.block.length ^^^ lengthMask ∧
        decode.read (content.encodeStored (length ^^^ lengthMask)) =
          (.ok { content with block := content.block.take length }, content.block.drop length)) ∧
    ((∀ stored, stored < UInt32.size → stored ≠ content.block.length ^^^ lengthMask →
        ∃ fault rest, decode.read (content.encodeStored stored) = (.error fault, rest)) ↔
      content.block = []) := by
  refine ⟨encode_eq_encodeStored hblock,
    fun stored hstored _ => refused_encodeStored_iff hresources hstored,
    fun length => read_encodeStored_of_lt hresources hblock, ?_, ?_⟩
  · intro hfound
    by_contra hnonempty
    have hpos : 0 < content.block.length := List.length_pos_iff.mpr hnonempty
    obtain ⟨hstored, hchanged, hread⟩ := read_encodeStored_of_lt hresources hblock hpos
    obtain ⟨fault, rest, hrefused⟩ := hfound _ hstored hchanged
    cases hread.symm.trans hrefused
  · intro hempty stored hstored hchanged
    rw [refused_encodeStored_iff hresources hstored, hempty]
    rw [hempty, List.length_nil] at hchanged
    refine Nat.pos_of_ne_zero fun hzero => hchanged ?_
    rw [← Nat.xor_xor_cancel_right stored lengthMask, hzero]

/-- A section with a resource and a block of eight bytes. -/
def eightBytes : DataSection where
  resources := [[7, 7]]
  block := List.replicate 8 1

/-- With one bit of its stored length changed, the section is refused, or it is read without
its block. -/
theorem decode_tampered_eightBytes :
    eightBytes.block.length ^^^ lengthMask = 0x4C504B39 ∧
      (∃ fault rest, decode.read (eightBytes.encodeStored 0x4C504B79) = (.error fault, rest)) ∧
      decode.read (eightBytes.encodeStored 0x4C504B31) =
        (.ok { resources := [[7, 7]], block := [] }, List.replicate 8 1) := by
  obtain ⟨-, hrefused, htaken, -⟩ := decode_tampered eightBytes (by decide) (by decide)
  exact ⟨by decide, (hrefused 0x4C504B79 (by decide) (by decide)).mpr (by decide),
    (htaken 0 (by decide)).2.2⟩

end ScriptBundle.DataSection
