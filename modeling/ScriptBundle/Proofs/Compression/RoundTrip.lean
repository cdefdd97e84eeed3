import ScriptBundle.Compression.Zlib
import ScriptBundle.Proofs.Layout.RoundTrip
import ScriptBundle.Proofs.Outcomes

/-!
# Decompression undoes compression

Stored blocks are followed bit by bit through the decompressor.  A packed form is
only ever used after it was seen to give the data back, so this settles every
level.
-/

namespace ScriptBundle.Compression

/-! ## Bits and numbers -/

/-- The lowest `count` bits of a number write it modulo `2 ^ count`. -/
theorem bitsValue_testBits (count value : Nat) :
    bitsValue ((List.range count).map fun index => value.testBit index) = value % 2 ^ count := by
  induction count generalizing value with
  | zero => simp [bitsValue, Nat.mod_one]
  | succ count ih =>
      have htail : (fun index => value.testBit (index + 1)) =
          fun index => (value / 2).testBit index := by
        funext index
        exact Nat.testBit_succ value index
      rw [List.range_succ_eq_map, List.map_cons, List.map_map, bitsValue]
      change (value.testBit 0).toNat +
        2 * bitsValue ((List.range count).map fun index => value.testBit (index + 1)) = _
      rw [htail, ih, Nat.pow_succ', Nat.mod_mul, Nat.testBit_zero]
      congr 1
      rcases Nat.mod_two_eq_zero_or_one value with heven | hodd
      · simp [heven]
      · simp [hodd]

theorem bitsValue_bitsOfByte (byte : UInt8) : bitsValue (bitsOfByte byte) = byte.toNat := by
  rw [bitsOfByte, bitsValue_testBits]
  exact Nat.mod_eq_of_lt byte.toNat_lt

namespace BitSource

/-- Pending bits are read first. -/
theorem number_pending (bits more : List Bool) (rest : Bytes) :
    number bits.length ⟨bits ++ more, rest⟩ = .ok (bitsValue bits, ⟨more, rest⟩) := by
  induction bits with
  | nil => rfl
  | cons first bits ih =>
      change (number bits.length ⟨bits ++ more, rest⟩ >>= fun result =>
        Except.ok (first.toNat + 2 * result.1, result.2)) = _
      rw [ih]
      rfl

theorem number_byte (byte : UInt8) (rest : Bytes) :
    number 8 ⟨[], byte :: rest⟩ = .ok (byte.toNat, ⟨[], rest⟩) := by
  have hpending := number_pending (bitsOfByte byte) [] rest
  rw [List.append_nil, bitsValue_bitsOfByte] at hpending
  exact hpending

/-- A number can be read in two parts, low bits first. -/
theorem number_add {low high first second : Nat} {source middle last : BitSource}
    (hlow : number low source = .ok (first, middle))
    (hhigh : number high middle = .ok (second, last)) :
    number (low + high) source = .ok (first + 2 ^ low * second, last) := by
  induction low generalizing source first with
  | zero =>
      obtain ⟨rfl, rfl⟩ : 0 = first ∧ source = middle := by simpa [number] using hlow
      rw [Nat.zero_add, hhigh]
      simp
  | succ low ih =>
      rw [Nat.succ_add]
      simp only [number] at hlow ⊢
      cases hbit : source.bit with
      | error defect => simp [hbit] at hlow
      | ok opened =>
          obtain ⟨bit, source⟩ := opened
          simp only [hbit, ok_bind] at hlow ⊢
          cases hrest : number low source with
          | error defect => simp [hrest] at hlow
          | ok read =>
              obtain ⟨value, after⟩ := read
              simp only [hrest, ok_bind, pure_eq_ok_iff, Prod.mk.injEq] at hlow
              obtain ⟨rfl, rfl⟩ := hlow
              rw [ih hrest]
              simp only [ok_bind, pure_eq_ok_iff, Prod.mk.injEq, and_true]
              rw [Nat.pow_succ', Nat.mul_assoc, Nat.mul_add, Nat.add_assoc]

/-- Sixteen bits hold a little-endian word. -/
theorem number_word (value : Nat) (hvalue : value < 65536) (rest : Bytes) :
    number 16 ⟨[], littleEndian 2 value ++ rest⟩ = .ok (value, ⟨[], rest⟩) := by
  have hlow : (UInt8.ofNat value).toNat = value % 256 := by simp
  have hhigh : (UInt8.ofNat (value / 256)).toNat = value / 256 :=
    toNat_ofNat_of_lt (by omega)
  have hword := number_add (number_byte (UInt8.ofNat value) (UInt8.ofNat (value / 256) :: rest))
    (number_byte (UInt8.ofNat (value / 256)) rest)
  have hsplit : value % 256 + 2 ^ 8 * (value / 256) = value := Nat.mod_add_div value 256
  rw [hlow, hhigh, hsplit] at hword
  exact hword

end BitSource

/-! ## Stored blocks -/

theorem readStoredLength_word (pending : List Bool) (length : Nat) (hlength : length ≤ maxStored)
    (rest : Bytes) :
    readStoredLength
        ⟨pending, littleEndian 2 length ++ littleEndian 2 (maxStored - length) ++ rest⟩ =
      .ok (length, ⟨[], rest⟩) := by
  have hsmall : length < 65536 := Nat.lt_of_le_of_lt hlength (by decide)
  have hcomplement : maxStored - length < 65536 :=
    Nat.lt_of_le_of_lt (Nat.sub_le _ _) (by decide)
  have hsum : length + (maxStored - length) = 0xFFFF := Nat.add_sub_cancel' hlength
  rw [readStoredLength, BitSource.align, List.append_assoc,
    BitSource.number_word length hsmall]
  simp only [ok_bind]
  rw [BitSource.number_word _ hcomplement]
  simp only [ok_bind]
  rw [if_pos hsum]
  rfl

theorem inflateBlock_storedBlock (last : Bool) (output : Array UInt8) (data rest : Bytes)
    (hlength : data.length ≤ maxStored) :
    inflateBlock output (.ofBytes (storedBlock last data ++ rest)) =
      (last, ⟨output ++ data.toArray, .ok (.ofBytes rest)⟩) := by
  have hheader : ∀ more : Bytes, ∃ pending,
      (BitSource.ofBytes (UInt8.ofNat last.toNat :: more)).bit = .ok (last, ⟨pending, more⟩) ∧
        ∃ others, BitSource.number 2 ⟨pending, more⟩ = .ok (0, ⟨others, more⟩) := by
    intro more
    cases last with
    | false => exact ⟨List.replicate 7 false, rfl, List.replicate 5 false, rfl⟩
    | true => exact ⟨List.replicate 7 false, rfl, List.replicate 5 false, rfl⟩
  obtain ⟨pending, hbit, others, hkind⟩ := hheader
    (littleEndian 2 data.length ++ littleEndian 2 (maxStored - data.length) ++ data ++ rest)
  have hstored := readStoredLength_word others data.length hlength (data ++ rest)
  simp only [storedBlock, List.cons_append, ← List.append_assoc] at hstored ⊢
  rw [inflateBlock]
  simp only [hbit, hkind, hstored, bind, Except.bind, pure, Except.pure, List.take_left,
    List.drop_left, if_true]

/-- Enough fuel takes the decompressor through all stored blocks. -/
theorem inflateBlocks_storedBlocks (more fuel : Nat) (hfuel : more < fuel)
    (output : Array UInt8) (data rest : Bytes) (hlength : data.length ≤ maxStored * (more + 1)) :
    inflateBlocks fuel output (.ofBytes (storedBlocks.go more data ++ rest)) =
      ⟨output ++ data.toArray, .ok (.ofBytes rest)⟩ := by
  induction more generalizing fuel output data with
  | zero =>
      obtain ⟨fuel, rfl⟩ := Nat.exists_eq_succ_of_ne_zero (Nat.ne_of_gt hfuel)
      rw [storedBlocks.go, inflateBlocks,
        inflateBlock_storedBlock true output data rest (by omega)]
  | succ more ih =>
      obtain ⟨fuel, rfl⟩ := Nat.exists_eq_succ_of_ne_zero (Nat.ne_of_gt (Nat.lt_of_le_of_lt
        (Nat.zero_le _) hfuel))
      have htaken : (data.take maxStored).length ≤ maxStored := by
        rw [List.length_take]
        exact Nat.min_le_left _ _
      have hdropped : (data.drop maxStored).length ≤ maxStored * (more + 1) := by
        rw [List.length_drop]
        rw [Nat.mul_succ] at hlength
        omega
      rw [storedBlocks.go, inflateBlocks, List.append_assoc,
        inflateBlock_storedBlock false output _ _ htaken]
      simp only
      rw [ih fuel (by omega) _ _ hdropped, Array.append_assoc,
        List.append_toArray (data.take maxStored) (data.drop maxStored),
        List.take_append_drop]

theorem length_storedBlocks_go (more : Nat) (data : Bytes) :
    more < (storedBlocks.go more data).length := by
  induction more generalizing data with
  | zero => simp [storedBlocks.go, storedBlock]
  | succ more ih =>
      have hlater := ih (data.drop maxStored)
      simp only [storedBlocks.go, storedBlock, List.length_append, List.length_cons,
        littleEndian_length]
      omega

theorem inflate_storedBlocks (data rest : Bytes) :
    inflate (storedBlocks data ++ rest) = ⟨data.toArray, .ok (.ofBytes rest)⟩ := by
  have hblocks := length_storedBlocks_go ((data.length - 1) / maxStored) data
  have hlength : data.length ≤ maxStored * ((data.length - 1) / maxStored + 1) := by
    have hdivision := Nat.div_add_mod (data.length - 1) maxStored
    have hremainder := Nat.mod_lt (data.length - 1) (show 0 < maxStored by decide)
    rw [Nat.mul_succ]
    omega
  rw [inflate, storedBlocks, inflateBlocks_storedBlocks _ _ _ _ _ _ hlength, Array.empty_append]
  rw [List.length_append]
  omega

/-! ## Whole streams -/

theorem checksum_lt (data : Bytes) : checksum data < 256 ^ 4 := by
  let next := fun (sums : Nat × Nat) (byte : UInt8) =>
    let first := (sums.1 + byte.toNat) % checksumModulus
    (first, (sums.2 + first) % checksumModulus)
  have hbound : ∀ sums : Nat × Nat, sums.1 < checksumModulus → sums.2 < checksumModulus →
      (data.foldl next sums).1 < checksumModulus ∧ (data.foldl next sums).2 < checksumModulus := by
    induction data with
    | nil => exact fun _ hfirst hsecond => ⟨hfirst, hsecond⟩
    | cons byte data ih =>
        intro sums _ _
        exact ih (next sums byte) (Nat.mod_lt _ (by decide)) (Nat.mod_lt _ (by decide))
  have hsums := hbound (1, 0) (by decide) (by decide)
  change 65536 * (data.foldl next (1, 0)).2 + (data.foldl next (1, 0)).1 < _
  simp only [checksumModulus] at hsums
  omega

/-- A stream gives its data back if its blocks do. -/
theorem decompress_wrap (blocks data : Bytes)
    (hblocks : ∀ rest, inflate (blocks ++ rest) = ⟨data.toArray, .ok (.ofBytes rest)⟩) :
    decompress (wrap blocks data) = ⟨data, none⟩ := by
  have hheader : isHeader 0x78 0x9C = true := by decide
  have htake : (littleEndian 4 (checksum data)).reverse.take 4 =
      (littleEndian 4 (checksum data)).reverse := by
    rw [List.take_of_length_le]
    simp
  simp only [wrap, header, List.cons_append, List.nil_append, decompress, hheader, if_true,
    hblocks, BitSource.ofBytes, htake, List.length_reverse, littleEndian_length,
    List.reverse_reverse, littleEndianValue_littleEndian]
  rw [if_neg (by decide), Nat.mod_eq_of_lt (checksum_lt data), if_pos rfl]

/-- At every level, decompression gives back what was compressed. -/
theorem decompress_compress (level : Nat) (data : Bytes) :
    decompress (compress level data) = ⟨data, none⟩ := by
  have hstored : decompress (wrap (storedBlocks data) data) = ⟨data, none⟩ :=
    decompress_wrap _ data (inflate_storedBlocks data)
  simp only [compress]
  split
  · exact hstored
  · split
    · rename_i hpacked
      exact hpacked.2
    · exact hstored

end ScriptBundle.Compression
