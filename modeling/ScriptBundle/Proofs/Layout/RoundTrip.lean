import Mathlib.Algebra.Group.Nat.Defs
import Mathlib.Data.Nat.Bitwise
import ScriptBundle.DataSection
import ScriptBundle.Engine.PropertyTable
import ScriptBundle.Proofs.Layout.Decoders

/-!
# The binary layout reads back

Integers, record lists, property tables and data sections are read back as they
were written, and reading stops exactly where the next field begins.  The bounds
are those that the readers check.
-/

namespace ScriptBundle

open Decoder

theorem toNat_ofNat_of_lt {value : Nat} (hvalue : value < 256) :
    (UInt8.ofNat value).toNat = value :=
  UInt8.toNat_ofNat_of_lt' hvalue

/-- A word of `width` bytes holds the value modulo `256 ^ width`. -/
theorem littleEndianValue_littleEndian (width value : Nat) :
    littleEndianValue (littleEndian width value) = value % 256 ^ width := by
  induction width generalizing value with
  | zero => simp [littleEndian, littleEndianValue, Nat.mod_one]
  | succ width ih =>
      have hbyte : (UInt8.ofNat value).toNat = value % 256 := by simp
      simp only [littleEndian, littleEndianValue, ih, hbyte]
      rw [Nat.pow_succ', Nat.mod_mul]

namespace Varint

/-- The last group has room for one bit and each group before it for seven. -/
theorem decodeGroups_reads (groups value : Nat) (hvalue : value < 2 * 128 ^ groups) :
    (decodeGroups (groups + 1)).Reads (encode value) value := by
  induction groups generalizing value with
  | zero =>
      have hsmall : value < 2 := by simpa using hvalue
      have hbyte : (UInt8.ofNat value).toNat = value :=
        toNat_ofNat_of_lt (by omega)
      intro rest
      rw [encode, if_pos (by omega), List.singleton_append, decodeGroups,
        read_bind (read_byte_cons _ rest)]
      simp only [hbyte]
      rw [if_neg (by omega), if_pos (by omega), Nat.mod_eq_of_lt (by omega), read_pure]
  | succ groups ih =>
      intro rest
      by_cases hlast : value < 128
      · have hbyte : (UInt8.ofNat value).toNat = value :=
          toNat_ofNat_of_lt (by omega)
        rw [encode, if_pos hlast, List.singleton_append, decodeGroups,
          read_bind (read_byte_cons _ rest)]
        simp only [hbyte]
        rw [if_neg (by omega), if_pos hlast, Nat.mod_eq_of_lt hlast, read_pure]
      · have hbyte : (UInt8.ofNat (value % 128 + 128)).toNat = value % 128 + 128 :=
          toNat_ofNat_of_lt (by omega)
        have hhigh : value / 128 < 2 * 128 ^ groups := by
          rw [Nat.div_lt_iff_lt_mul (by omega)]
          rw [Nat.pow_succ] at hvalue
          omega
        rw [encode, if_neg hlast, List.cons_append, decodeGroups,
          read_bind (read_byte_cons _ _)]
        simp only [hbyte]
        rw [if_neg (by omega), if_neg (by omega), read_bind (ih (value / 128) hhigh rest),
          read_pure]
        congr 2
        omega

/-- Every 64-bit integer is read back. -/
theorem decode_reads (value : Nat) (hvalue : value < UInt64.size) :
    decode.Reads (encode value) value :=
  decodeGroups_reads 9 value hvalue

end Varint

namespace Records

/-- The lists that a reader accepts. -/
def WithinLimits (records : List Bytes) : Prop :=
  records.length ≤ maxCount ∧ ∀ record ∈ records, record.length ≤ maxLength

instance (records : List Bytes) : Decidable (WithinLimits records) :=
  inferInstanceAs
    (Decidable (records.length ≤ maxCount ∧ ∀ record ∈ records, record.length ≤ maxLength))

theorem decodeRecord_reads (record : Bytes) (hlength : record.length ≤ maxLength) :
    decodeRecord.Reads (encodeRecord record) record := by
  have hword : record.length < UInt64.size :=
    Nat.lt_of_le_of_lt hlength (by decide)
  exact reads_bind (Varint.decode_reads record.length hword)
    (reads_of_check (Nat.not_lt.mpr hlength) (reads_takeOr record _))

/-- A record list within the limits is read back. -/
theorem decode_reads (records : List Bytes) (hlimits : WithinLimits records) :
    decode.Reads (encode records) records := by
  obtain ⟨hcount, hlength⟩ := hlimits
  have hword : records.length < UInt64.size :=
    Nat.lt_of_le_of_lt hcount (by decide)
  exact reads_bind (Varint.decode_reads records.length hword)
    (reads_of_check (Nat.not_lt.mpr hcount)
      (reads_times records fun record hrecord =>
        decodeRecord_reads record (hlength record hrecord)))

/-- Even an empty list takes a byte. -/
theorem encode_ne_nil (records : List Bytes) : encode records ≠ [] := by
  rw [encode, Varint.encode]
  split
  · simp
  · simp

end Records

namespace PropertyTable

theorem size_of_read_decode_eq_ok {count : Nat} {bytes rest : Bytes} {table : PropertyTable}
    (hread : (decode count).read bytes = (.ok table, rest)) : table.size = count := by
  obtain ⟨values, middle, hvalues, hread⟩ := exists_of_read_bind_eq_ok hread
  rw [read_pure] at hread
  cases hread
  rw [size, List.length_map, length_of_read_times_eq_ok hvalues]

/-- A table is read back by a reader that knows its size. -/
theorem decode_reads (table : PropertyTable) :
    (decode table.size).Reads table.encode table := by
  have hvalues : (Decoder.times Varint.decode (table.values.map (·.toNat)).length).Reads
      ((table.values.map (·.toNat)).flatMap Varint.encode) (table.values.map (·.toNat)) := by
    refine reads_times _ fun value hvalue => Varint.decode_reads value ?_
    obtain ⟨word, _, rfl⟩ := List.mem_map.mp hvalue
    exact word.toNat_lt
  have hmap := reads_map (fun values => (⟨values.map UInt64.ofNat⟩ : PropertyTable)) hvalues
  rw [List.length_map, List.flatMap_map, List.map_map] at hmap
  have hround : (UInt64.ofNat ∘ fun word : UInt64 => word.toNat) = id := by
    funext word
    exact UInt64.ofNat_toNat
  rw [hround, List.map_id] at hmap
  exact hmap

end PropertyTable

namespace DataSection

theorem decodeLength_reads (length : Nat) (hlength : length < UInt32.size) :
    decodeLength.Reads (encodeLength length) length := by
  have hmasked : length ^^^ lengthMask < UInt32.size :=
    Nat.xor_lt_two_pow (n := 32) hlength (by decide)
  refine (List.append_nil (encodeLength length)) ▸
    reads_bind (Varint.decode_reads _ (Nat.lt_trans hmasked (by decide))) ?_
  rw [if_pos hmasked, Nat.xor_xor_cancel_right]
  exact reads_pure length

theorem encode_eq_ok (content : DataSection) (hblock : content.block.length < UInt32.size) :
    content.encode = .ok
      (Records.encode content.resources ++ encodeLength content.block.length ++
        content.block) :=
  if_pos hblock

/-- Only the length of the block is checked. -/
theorem length_of_encode_eq_ok {content : DataSection} {data : Bytes}
    (hencode : content.encode = .ok data) : content.block.length < UInt32.size := by
  by_cases hblock : content.block.length < UInt32.size
  · exact hblock
  · rw [encode, if_neg hblock] at hencode
    cases hencode

theorem ne_nil_of_encode_eq_ok {content : DataSection} {data : Bytes}
    (hencode : content.encode = .ok data) : data ≠ [] := by
  rw [encode_eq_ok content (length_of_encode_eq_ok hencode), Except.ok.injEq] at hencode
  rw [← hencode, List.append_assoc]
  exact List.append_ne_nil_of_left_ne_nil (Records.encode_ne_nil _) _

/-- A section that can be written is read back. -/
theorem decode_reads (content : DataSection) (hblock : content.block.length < UInt32.size)
    (hresources : Records.WithinLimits content.resources) :
    decode.Reads
      (Records.encode content.resources ++ encodeLength content.block.length ++ content.block)
      content := by
  rw [List.append_assoc]
  apply reads_bind (Records.decode_reads content.resources hresources)
  apply reads_bind (decodeLength_reads content.block.length hblock)
  exact reads_map (fun block => DataSection.mk content.resources block)
    (reads_takeOr content.block _)

end DataSection

end ScriptBundle
