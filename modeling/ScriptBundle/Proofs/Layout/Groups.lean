import Mathlib.Algebra.BigOperators.Ring.Finset
import Mathlib.Data.List.GetD
import ScriptBundle.Proofs.Layout.Spellings

/-!
# Numbers in groups of seven bits

Of any bytes the first one without its high bit ends a number.  Whether there is one among
the bytes that a reader looks at, and how large the number is, decides between the three
outcomes of the reader.  The written form is the shortest one of those that are accepted.
-/

namespace ScriptBundle

open Decoder

namespace Varint

/-! ## Where a number ends -/

/-- Every byte has its high bit set, so a number goes on behind them. -/
def Unfinished (bytes : Bytes) : Prop :=
  ∀ byte ∈ bytes, 128 ≤ byte.toNat

theorem unfinished_nil : Unfinished [] :=
  List.forall_mem_nil _

theorem unfinished_cons_iff {byte : UInt8} {bytes : Bytes} :
    Unfinished (byte :: bytes) ↔ 128 ≤ byte.toNat ∧ Unfinished bytes :=
  List.forall_mem_cons

theorem unfinished_concat {front : Bytes} {last : UInt8} (hfront : Unfinished front)
    (hmore : 128 ≤ last.toNat) : Unfinished (front ++ [last]) :=
  List.forall_mem_append.mpr ⟨hfront, List.forall_mem_singleton.mpr hmore⟩

theorem unfinished_replicate (count : Nat) {byte : UInt8} (hmore : 128 ≤ byte.toNat) :
    Unfinished (List.replicate count byte) := by
  intro other hother
  rwa [List.eq_of_mem_replicate hother]

/-- Within a number of groups, a number ends, or it goes on behind all of them, or the bytes
are at their end first. -/
theorem terminated_or_unfinished (groups : Nat) (bytes : Bytes) :
    (∃ field rest, bytes = field ++ rest ∧ Terminated field ∧ field.length ≤ groups) ∨
      (∃ front rest, bytes = front ++ rest ∧ Unfinished front ∧ front.length = groups) ∨
      (Unfinished bytes ∧ bytes.length < groups) := by
  induction groups generalizing bytes with
  | zero => exact .inr (.inl ⟨[], bytes, rfl, unfinished_nil, rfl⟩)
  | succ groups ih =>
      cases bytes with
      | nil => exact .inr (.inr ⟨unfinished_nil, Nat.succ_pos _⟩)
      | cons byte bytes =>
          rcases Nat.lt_or_ge byte.toNat 128 with hlast | hmore
          · exact .inl ⟨[byte], bytes, rfl, terminated_cons_iff.mpr (.inl ⟨hlast, rfl⟩),
              Nat.succ_le_succ (Nat.zero_le _)⟩
          rcases ih bytes with ⟨field, rest, rfl, hfield, hlength⟩ |
            ⟨front, rest, rfl, hfront, hlength⟩ | ⟨hbytes, hlength⟩
          · exact .inl ⟨byte :: field, rest, rfl, terminated_cons_iff.mpr (.inr ⟨hmore, hfield⟩),
              Nat.succ_le_succ hlength⟩
          · exact .inr (.inl ⟨byte :: front, rest, rfl, unfinished_cons_iff.mpr ⟨hmore, hfront⟩,
              congrArg Nat.succ hlength⟩)
          · exact .inr (.inr ⟨unfinished_cons_iff.mpr ⟨hmore, hbytes⟩, Nat.succ_lt_succ hlength⟩)

/-- Of two numbers at the front of the same bytes none goes on behind the other. -/
theorem Terminated.eq_of_append_eq {field other rest rest' : Bytes} (hfield : Terminated field)
    (hother : Terminated other) (hsame : field ++ rest = other ++ rest') : field = other := by
  induction field generalizing other with
  | nil => exact absurd rfl hfield.ne_nil
  | cons byte field ih =>
      obtain ⟨byte', other, rfl⟩ := List.exists_cons_of_ne_nil hother.ne_nil
      obtain ⟨rfl, htail⟩ := List.cons.inj hsame
      rcases terminated_cons_iff.mp hfield with ⟨hlast, rfl⟩ | ⟨hmore, hfield⟩
      · rcases terminated_cons_iff.mp hother with ⟨-, rfl⟩ | ⟨hmore, -⟩
        · rfl
        · omega
      · rcases terminated_cons_iff.mp hother with ⟨hlast, -⟩ | ⟨-, hother⟩
        · omega
        · rw [ih hfield hother htail]

/-- What is written for a number ends, and comes to the number. -/
theorem terminated_encode (value : Nat) :
    Terminated (encode value) ∧ groupsValue (encode value) = value := by
  induction value using Nat.strongRecOn with
  | ind value ih =>
      by_cases hsmall : value < 128
      · have hbyte : (UInt8.ofNat value).toNat = value := toNat_ofNat_of_lt (by omega)
        rw [encode, if_pos hsmall]
        refine ⟨terminated_cons_iff.mpr (.inl ⟨hbyte.trans_lt hsmall, rfl⟩), ?_⟩
        rw [groupsValue, hbyte, groupsValue]
        omega
      · have hbyte : (UInt8.ofNat (value % 128 + 128)).toNat = value % 128 + 128 :=
          toNat_ofNat_of_lt (by omega)
        obtain ⟨hterminated, hvalue⟩ := ih (value / 128) (by omega)
        rw [encode, if_neg hsmall]
        refine ⟨terminated_cons_iff.mpr (.inr ⟨by omega, hterminated⟩), ?_⟩
        rw [groupsValue, hbyte, hvalue]
        omega

/-! ## The outcomes of a reader -/

/-- Behind a byte with its high bit set, the reader fails where it fails on the rest. -/
theorem read_decodeGroups_error {groups : Nat} {byte : UInt8} {bytes rest : Bytes}
    {fault : Fault} (hmore : 128 ≤ byte.toNat) (hroom : ¬(groups = 0 ∧ 1 < byte.toNat % 128))
    (hread : (decodeGroups groups).read bytes = (.error fault, rest)) :
    (decodeGroups (groups + 1)).read (byte :: bytes) = (.error fault, rest) := by
  rw [decodeGroups, read_bind (read_byte_cons byte bytes)]
  simp only
  rw [if_neg hroom, if_neg (Nat.not_lt.mpr hmore)]
  exact read_bind_error hread

/-- A reader that looks for more groups than there are bytes meets their end. -/
theorem decodeGroups_endOfInput {groups : Nat} {bytes : Bytes} (hbytes : Unfinished bytes)
    (hlength : bytes.length < groups) :
    (decodeGroups groups).read bytes = (.error .endOfInput, []) := by
  induction bytes generalizing groups with
  | nil =>
      obtain ⟨groups, rfl⟩ := Nat.exists_eq_add_one.mpr hlength
      rfl
  | cons byte bytes ih =>
      obtain ⟨hmore, hbytes⟩ := unfinished_cons_iff.mp hbytes
      obtain ⟨groups, rfl⟩ := Nat.exists_eq_add_one.mpr (Nat.zero_lt_of_lt hlength)
      have hrest := Nat.lt_of_succ_lt_succ hlength
      exact read_decodeGroups_error hmore (by omega) (ih hbytes hrest)

/-- A last group that goes on or holds more than one bit is refused once it is read. -/
theorem decodeGroups_overflow {front : Bytes} {last : UInt8} (rest : Bytes)
    (hfront : Unfinished front) (hlast : 1 < last.toNat) :
    (decodeGroups (front.length + 1)).read (front ++ last :: rest) =
      (.error .integerOverflow, rest) := by
  induction front with
  | nil =>
      by_cases hroom : 1 < last.toNat % 128
      · rw [List.nil_append, List.length_nil, decodeGroups, read_bind (read_byte_cons last rest)]
        simp only
        rw [if_pos ⟨trivial, hroom⟩]
        rfl
      · exact read_decodeGroups_error (by omega) (by simpa using hroom) rfl
  | cons byte front ih =>
      obtain ⟨hmore, hfront⟩ := unfinished_cons_iff.mp hfront
      exact read_decodeGroups_error hmore (fun hnone => absurd hnone.1 (Nat.succ_ne_zero _))
        (ih hfront)

/-- The last byte of a number that does not fit is the tenth one, and holds more than a bit. -/
theorem exists_of_terminated_of_le {field : Bytes} (groups : Nat) (hfield : Terminated field)
    (hlength : field.length ≤ groups + 1) (hvalue : 2 * 128 ^ groups ≤ groupsValue field) :
    ∃ front last, field = front ++ [last] ∧ Unfinished front ∧ front.length = groups ∧
      1 < last.toNat := by
  induction groups generalizing field with
  | zero =>
      obtain ⟨byte, back, rfl⟩ := List.exists_cons_of_ne_nil hfield.ne_nil
      obtain rfl : back = [] := List.length_eq_zero_iff.mp (by simpa using hlength)
      refine ⟨[], byte, rfl, unfinished_nil, rfl, ?_⟩
      simp only [groupsValue] at hvalue
      omega
  | succ groups ih =>
      obtain ⟨byte, back, rfl⟩ := List.exists_cons_of_ne_nil hfield.ne_nil
      have hpower : 128 ^ (groups + 1) = 128 * 128 ^ groups := Nat.pow_succ'
      have hpos : 0 < 128 ^ groups := Nat.pow_pos (by decide)
      rw [groupsValue, hpower] at hvalue
      rcases terminated_cons_iff.mp hfield with ⟨-, rfl⟩ | ⟨hmore, hback⟩
      · rw [groupsValue] at hvalue
        omega
      · obtain ⟨front, last, rfl, hfront, hgroups, hlast⟩ :=
          ih hback (Nat.le_of_succ_le_succ hlength) (by omega)
        exact ⟨byte :: front, last, rfl, unfinished_cons_iff.mpr ⟨hmore, hfront⟩,
          congrArg Nat.succ hgroups, hlast⟩

theorem Unfinished.read_eq {bytes : Bytes} (hbytes : Unfinished bytes)
    (hlength : bytes.length < maxLength) : decode.read bytes = (.error .endOfInput, []) :=
  decodeGroups_endOfInput hbytes hlength

/-- Ten bytes that no number of 64 bits is written with. -/
def Overlong (bytes rest : Bytes) : Prop :=
  ∃ front last, bytes = front ++ last :: rest ∧ Unfinished front ∧ front.length + 1 = maxLength ∧
    1 < last.toNat

theorem Overlong.read_eq {bytes rest : Bytes} (hoverlong : Overlong bytes rest) :
    decode.read bytes = (.error .integerOverflow, rest) := by
  obtain ⟨front, last, rfl, hfront, hlength, hlast⟩ := hoverlong
  rw [decode, ← hlength]
  exact decodeGroups_overflow rest hfront hlast

/-- Integers end, are overlong, or are cut. -/
theorem spells_or_overlong_or_unfinished (bytes : Bytes) :
    (∃ field value rest, bytes = field ++ rest ∧ Spells field value) ∨
      (∃ rest, Overlong bytes rest) ∨ (Unfinished bytes ∧ bytes.length < maxLength) := by
  rcases terminated_or_unfinished maxLength bytes with ⟨field, rest, rfl, hfield, hlength⟩ |
    ⟨front, rest, rfl, hfront, hlength⟩ | hcut
  · rcases Nat.lt_or_ge (groupsValue field) UInt64.size with hfits | hlarge
    · exact .inl ⟨field, _, rest, rfl, hfield, hlength, rfl, hfits⟩
    · obtain ⟨front, last, rfl, hfront, hgroups, hlast⟩ :=
        exists_of_terminated_of_le 9 hfield hlength hlarge
      exact .inr (.inl ⟨rest, front, last, List.append_assoc _ _ _, hfront,
        congrArg Nat.succ hgroups, hlast⟩)
  · have hne : front ≠ [] := by
      rintro rfl
      cases hlength
    have hlast : 128 ≤ (front.getLast hne).toNat := hfront _ (List.getLast_mem hne)
    have hgroups : front.dropLast.length + 1 = maxLength := by
      rw [List.length_dropLast, hlength]
      rfl
    refine .inr (.inl ⟨rest, front.dropLast, front.getLast hne, ?_,
      fun byte hbyte => hfront byte (List.mem_of_mem_dropLast hbyte), hgroups, by omega⟩)
    rw [List.append_cons, List.dropLast_append_getLast]
  · exact .inr (.inr hcut)

/-! ## The bytes one by one -/

def ContinuesAt (bytes : Bytes) (index : Nat) : Prop :=
  128 ≤ (bytes.getD index 0).toNat

def groupAt (bytes : Bytes) (index : Nat) : Nat :=
  (bytes.getD index 0).toNat % 128

theorem continuesAt_append_of_lt {front back : Bytes} {index : Nat}
    (hindex : index < front.length) :
    ContinuesAt (front ++ back) index ↔ ContinuesAt front index := by
  rw [ContinuesAt, List.getD_append _ _ _ _ hindex, ContinuesAt]

theorem getD_append_length (front back : Bytes) (last : UInt8) :
    (front ++ last :: back).getD front.length 0 = last := by
  rw [List.getD_append_right _ _ _ _ (Nat.le_refl _), Nat.sub_self, List.getD_cons_zero]

theorem unfinished_iff {bytes : Bytes} :
    Unfinished bytes ↔ ∀ index < bytes.length, ContinuesAt bytes index := by
  rw [Unfinished, List.forall_mem_iff_forall_getElem]
  refine forall_congr' fun index => forall_congr' fun hindex => ?_
  rw [ContinuesAt, List.getD_eq_getElem _ _ hindex]

theorem groupsValue_eq_sum (bytes : Bytes) :
    groupsValue bytes = ∑ index ∈ Finset.range bytes.length, groupAt bytes index * 128 ^ index := by
  induction bytes with
  | nil => rfl
  | cons byte bytes ih =>
      rw [List.length_cons, Finset.sum_range_succ', groupsValue, ih, Finset.mul_sum, Nat.pow_zero,
        Nat.mul_one, Nat.add_comm]
      refine congrArg₂ _ (Finset.sum_congr rfl fun index _ => ?_) rfl
      rw [Nat.pow_succ', Nat.mul_left_comm]
      rfl

/-- The first `count` bytes are a number: all but the last one have their high bits set, and
the groups, the least significant one first, come to `value`. -/
structure Writes (bytes : Bytes) (count value : Nat) : Prop where
  inside : count ≤ bytes.length
  count_pos : 0 < count
  count_le : count ≤ maxLength
  continues : ∀ index, index + 1 < count → ContinuesAt bytes index
  ends : ¬ContinuesAt bytes (count - 1)
  value_eq : value = ∑ index ∈ Finset.range count, groupAt bytes index * 128 ^ index
  value_lt : value < UInt64.size

/-- Ten bytes of which the first nine have their high bits set, and the tenth has it set too
or carries more than one bit. -/
structure Overflows (bytes : Bytes) : Prop where
  inside : maxLength ≤ bytes.length
  continues : ∀ index, index + 1 < maxLength → ContinuesAt bytes index
  ends : ContinuesAt bytes (maxLength - 1) ∨ 1 < groupAt bytes (maxLength - 1)

theorem terminated_iff {field : Bytes} (rest : Bytes) :
    Terminated field ↔ 0 < field.length ∧
      (∀ index, index + 1 < field.length → ContinuesAt (field ++ rest) index) ∧
      ¬ContinuesAt (field ++ rest) (field.length - 1) := by
  rcases List.eq_nil_or_concat' field with rfl | ⟨front, last, rfl⟩
  · simp [Terminated]
  · have hfront : (∀ index, index + 1 < (front ++ [last]).length →
        ContinuesAt (front ++ [last] ++ rest) index) ↔ Unfinished front := by
      rw [unfinished_iff, List.length_append, List.length_singleton, List.append_assoc]
      refine forall_congr' fun index => ⟨fun hall hindex => ?_, fun hall hindex => ?_⟩
      · exact (continuesAt_append_of_lt hindex).mp (hall (Nat.succ_lt_succ hindex))
      · have hindex := Nat.lt_of_succ_lt_succ hindex
        exact (continuesAt_append_of_lt hindex).mpr (hall hindex)
    have hlast : ContinuesAt (front ++ [last] ++ rest) ((front ++ [last]).length - 1) ↔
        128 ≤ last.toNat := by
      rw [List.length_append, List.length_singleton, Nat.add_sub_cancel, List.append_assoc,
        List.singleton_append, ContinuesAt, getD_append_length]
    rw [hfront, hlast, Nat.not_le, List.length_append]
    constructor
    · rintro ⟨front', last', hfield, hfront', hlast'⟩
      obtain ⟨rfl, hlast⟩ := List.append_inj' hfield rfl
      cases hlast
      exact ⟨Nat.succ_pos _, hfront', hlast'⟩
    · rintro ⟨-, hfront, hlast⟩
      exact ⟨front, last, rfl, hfront, hlast⟩

theorem writes_iff_spells {field : Bytes} (rest : Bytes) {value : Nat} :
    Writes (field ++ rest) field.length value ↔ Spells field value := by
  have hsum : groupsValue field =
      ∑ index ∈ Finset.range field.length, groupAt (field ++ rest) index * 128 ^ index := by
    rw [groupsValue_eq_sum]
    refine Finset.sum_congr rfl fun index hindex => ?_
    rw [groupAt, groupAt, List.getD_append _ _ _ _ (Finset.mem_range.mp hindex)]
  constructor
  · rintro ⟨-, hpos, hlength, hcontinues, hends, hvalue, hfits⟩
    exact ⟨(terminated_iff rest).mpr ⟨hpos, hcontinues, hends⟩, hlength, hsum.trans hvalue.symm,
      hfits⟩
  · rintro ⟨hterminated, hlength, hvalue, hfits⟩
    obtain ⟨hpos, hcontinues, hends⟩ := (terminated_iff rest).mp hterminated
    exact ⟨List.length_append ▸ Nat.le_add_right _ _, hpos, hlength, hcontinues, hends,
      hvalue.symm.trans hsum, hfits⟩

theorem overflows_iff {bytes : Bytes} : Overflows bytes ↔ ∃ rest, Overlong bytes rest := by
  constructor
  · rintro ⟨hinside, hcontinues, hends⟩
    have hnine : maxLength - 1 < bytes.length := hinside
    have hsplit : bytes.take (maxLength - 1) ++
        bytes[maxLength - 1] :: bytes.drop (maxLength - 1 + 1) = bytes := by
      rw [List.getElem_cons_drop, List.take_append_drop]
    refine ⟨_, _, _, hsplit.symm, ?_, ?_, ?_⟩
    · rw [unfinished_iff]
      intro index hindex
      rw [List.length_take] at hindex
      rw [← continuesAt_append_of_lt (List.length_take ▸ hindex), List.take_append_drop]
      exact hcontinues index (by omega)
    · rw [List.length_take_of_le (Nat.le_of_lt hnine)]
      rfl
    · rw [ContinuesAt, groupAt, List.getD_eq_getElem _ _ hnine] at hends
      omega
  · rintro ⟨rest, front, last, rfl, hfront, hlength, hlast⟩
    have hnine : front.length = maxLength - 1 := Nat.eq_sub_of_add_eq hlength
    refine ⟨?_, fun index hindex => ?_, ?_⟩
    · rw [List.length_append, List.length_cons]
      omega
    · have hindex : index < front.length := by omega
      exact (continuesAt_append_of_lt hindex).mpr (unfinished_iff.mp hfront index hindex)
    · rw [ContinuesAt, groupAt, ← hnine, getD_append_length]
      omega

/-! ## The shortest form -/

/-- What is written for a number is no longer than any other of its forms, and each of those
that are as short is the same. -/
theorem encode_shortest {field : Bytes} (hfield : Terminated field) :
    (encode (groupsValue field)).length ≤ field.length ∧
      (field.length = (encode (groupsValue field)).length →
        field = encode (groupsValue field)) := by
  induction field with
  | nil => exact absurd rfl hfield.ne_nil
  | cons byte back ih =>
      have hbyte := byte.toNat_lt
      rcases terminated_cons_iff.mp hfield with ⟨hlast, rfl⟩ | ⟨hmore, hback⟩
      · have hvalue : groupsValue [byte] = byte.toNat := by
          simp only [groupsValue]
          omega
        rw [hvalue, encode, if_pos hlast, UInt8.ofNat_toNat]
        exact ⟨Nat.le_refl _, fun _ => rfl⟩
      · obtain ⟨hshort, hsame⟩ := ih hback
        by_cases hsmall : groupsValue (byte :: back) < 128
        · rw [encode, if_pos hsmall, List.length_cons]
          refine ⟨Nat.succ_le_succ (Nat.zero_le _), fun hlength => ?_⟩
          have hnil : back.length = 0 := Nat.succ.inj hlength
          exact absurd (List.length_eq_zero_iff.mp hnil) hback.ne_nil
        · have hlow : groupsValue (byte :: back) % 128 + 128 = byte.toNat := by
            simp only [groupsValue]
            omega
          have hhigh : groupsValue (byte :: back) / 128 = groupsValue back := by
            simp only [groupsValue]
            omega
          rw [encode, if_neg hsmall, hlow, hhigh, UInt8.ofNat_toNat, List.length_cons,
            List.length_cons]
          refine ⟨Nat.succ_le_succ hshort, fun hlength => ?_⟩
          rw [← hsame (Nat.succ.inj hlength)]

/-- What is written for a number of 64 bits is one of its forms. -/
theorem spells_encode {value : Nat} (hvalue : value < UInt64.size) :
    Spells (encode value) value := by
  obtain ⟨field, hencode, hfield⟩ :=
    (decode_accepts (encode value) value []).mp (decode_reads value hvalue).of_read_nil
  rw [List.append_nil] at hencode
  rwa [hencode]

theorem read_decode_eq_ok_iff {bytes : Bytes} {value count : Nat} :
    count ≤ bytes.length ∧ decode.read bytes = (.ok value, bytes.drop count) ↔
      Writes bytes count value := by
  constructor
  · rintro ⟨hinside, hread⟩
    obtain ⟨field, hbytes, hspells⟩ := (decode_accepts _ _ _).mp hread
    have hfield : bytes.take count = field :=
      List.append_cancel_right ((List.take_append_drop count bytes).trans hbytes)
    have hwrites : Writes (field ++ bytes.drop count) field.length value :=
      (writes_iff_spells _).mpr hspells
    rwa [← hbytes, ← hfield, List.length_take_of_le hinside] at hwrites
  · intro hwrites
    have hlength : (bytes.take count).length = count := List.length_take_of_le hwrites.inside
    have hsplit := List.take_append_drop count bytes
    have hspells : Spells (bytes.take count) value := by
      rw [← writes_iff_spells (bytes.drop count), hsplit, hlength]
      exact hwrites
    exact ⟨hwrites.inside, (decode_accepts _ _ _).mpr ⟨_, hsplit.symm, hspells⟩⟩

/-- Every byte string that a number is read from is at least as long as what is written for
the number, and as long only if it is the same. -/
theorem length_encode_le_of_read_eq_ok {bytes rest : Bytes} {value : Nat}
    (hread : decode.read bytes = (.ok value, rest)) :
    (encode value).length ≤ bytes.length ∧
      (bytes.length = (encode value).length → bytes = encode value) := by
  obtain ⟨field, rfl, hspells⟩ := (decode_accepts _ _ _).mp hread
  obtain ⟨hshort, hsame⟩ := encode_shortest hspells.terminated
  rw [hspells.value_eq] at hshort hsame
  rw [List.length_append]
  refine ⟨Nat.le_trans hshort (Nat.le_add_right _ _), fun hlength => ?_⟩
  have hrest : rest = [] := List.length_eq_zero_iff.mp (by omega)
  rw [hrest, List.append_nil]
  exact hsame (by omega)

/-- The ways in which no number is read, one for each class of faults. -/
theorem failsWith_decode_iff (bytes : Bytes) :
    (decode.FailsWith bytes .invalidData ↔ Overflows bytes) ∧
      (decode.FailsWith bytes .unexpectedEnd ↔
        ¬(∃ value count, Writes bytes count value) ∧ ¬Overflows bytes) := by
  have hwrites {value count : Nat} (h : Writes bytes count value) :
      ∃ rest, decode.read bytes = (.ok value, rest) := ⟨_, (read_decode_eq_ok_iff.mpr h).2⟩
  have hoverflows (h : Overflows bytes) :
      ∃ rest, decode.read bytes = (.error .integerOverflow, rest) := by
    obtain ⟨rest, hoverlong⟩ := overflows_iff.mp h
    exact ⟨rest, hoverlong.read_eq⟩
  rcases spells_or_overlong_or_unfinished bytes with
    ⟨field, value, rest, rfl, hspells⟩ | ⟨rest, hoverlong⟩ | ⟨hbytes, hlength⟩
  · have hread := (decode_accepts (field ++ rest) value rest).mpr ⟨field, rfl, hspells⟩
    have hwritten : ∃ value count, Writes (field ++ rest) count value :=
      ⟨value, field.length, (writes_iff_spells rest).mpr hspells⟩
    have hfits : ¬Overflows (field ++ rest) := by
      intro h
      obtain ⟨rest', hread'⟩ := hoverflows h
      cases hread.symm.trans hread'
    have hnever := not_failsWith_of_read_eq_ok hread
    exact ⟨iff_of_false (hnever _) hfits, iff_of_false (hnever _) fun h => h.1 hwritten⟩
  · have hkind := failsWith_iff_of_read_eq_error hoverlong.read_eq
    have hlarge : Overflows bytes := overflows_iff.mpr ⟨rest, hoverlong⟩
    exact ⟨iff_of_true ((hkind _).mpr rfl) hlarge,
      iff_of_false (fun h => nomatch (hkind _).mp h) fun h => h.2 hlarge⟩
  · have hread := hbytes.read_eq hlength
    have hkind := failsWith_iff_of_read_eq_error hread
    have hunwritten : ¬∃ value count, Writes bytes count value := by
      rintro ⟨value, count, h⟩
      obtain ⟨rest, hread'⟩ := hwrites h
      cases hread.symm.trans hread'
    have hfits : ¬Overflows bytes := by
      intro h
      obtain ⟨rest, hread'⟩ := hoverflows h
      cases hread.symm.trans hread'
    exact ⟨iff_of_false (fun h => nomatch (hkind _).mp h) hfits,
      iff_of_true ((hkind _).mpr rfl) ⟨hunwritten, hfits⟩⟩

/-- Reading gives the number at the front of the bytes and takes just its bytes.  A number
that is too long or too large is refused as invalid, and bytes that end within a number as
cut.  What is written for a number is the shortest byte string that it is read from. -/
theorem decode_exact :
    (∀ bytes : Bytes,
      (∀ value count, count ≤ bytes.length ∧ decode.read bytes = (.ok value, bytes.drop count) ↔
        Writes bytes count value) ∧
      (decode.FailsWith bytes .invalidData ↔ Overflows bytes) ∧
      (decode.FailsWith bytes .unexpectedEnd ↔
        ¬(∃ value count, Writes bytes count value) ∧ ¬Overflows bytes)) ∧
    ∀ value, value < UInt64.size →
      (∀ rest, decode.read (encode value ++ rest) = (.ok value, rest)) ∧
        (encode value).length ≤ maxLength ∧
        ∀ bytes rest, decode.read bytes = (.ok value, rest) →
          (encode value).length ≤ bytes.length ∧
            (bytes.length = (encode value).length → bytes = encode value) :=
  ⟨fun bytes => ⟨fun _ _ => read_decode_eq_ok_iff, failsWith_decode_iff bytes⟩,
    fun value hvalue => ⟨decode_reads value hvalue, (spells_encode hvalue).length_le,
      fun _ _ => length_encode_le_of_read_eq_ok⟩⟩

/-- A longer form of a small number is read, and the largest number takes ten bytes however
it is written. -/
theorem decode_exact_padded :
    Writes [0x85, 0x80, 0x00, 7] 3 5 ∧ encode 5 = [5] ∧
      Overflows (List.replicate 9 0xFF ++ [2]) ∧
      encode (UInt64.size - 1) = List.replicate 9 0xFF ++ [1] ∧
      ∀ bytes rest, decode.read bytes = (.ok (UInt64.size - 1), rest) → 10 ≤ bytes.length := by
  have hlargest : encode (UInt64.size - 1) = List.replicate 9 0xFF ++ [1] := by decide +kernel
  refine ⟨((decode_exact.1 _).1 5 3).mp ⟨by decide, rfl⟩, by decide +kernel,
    (decode_exact.1 _).2.1.mp ⟨.integerOverflow, [], rfl, rfl⟩, hlargest, ?_⟩
  intro bytes rest hread
  have hlength := ((decode_exact.2 (UInt64.size - 1) (by decide)).2.2 bytes rest hread).1
  rwa [hlargest] at hlength

end Varint

end ScriptBundle
