import ScriptBundle.Proofs.Script.Loading

/-!
# Two readings of a length

The length in front of a saved program is written as an integer, but the loader of programs
has its own reading of it.  The loader looks for an overflow only once it has the byte behind
a tenth group, and lets the bits of that group drop that have no room.
-/

namespace ScriptBundle

open Varint (Terminated Unfinished Overlong groupsValue maxLength)

namespace Loader

theorem runOn_byte_cons (byte : UInt8) (rest : Bytes) (offset : Nat) :
    (Loader.byte : Loader Bytes UInt8).runOn ⟨byte :: rest, offset⟩ =
      (.ok byte, ⟨rest, offset + 1⟩) :=
  reads_byte byte rest offset

/-- Behind a byte with its high bit set, the loader fails where it fails on the rest. -/
theorem runOn_length_error {groups shift offset : Nat} {byte : UInt8} {bytes : Bytes}
    {fault : LoadFault} {after : Counted Bytes} (hmore : 128 ≤ byte.toNat)
    (hrun : (length groups (shift + 7)).runOn ⟨bytes, offset + 1⟩ = (.error fault, after)) :
    (length (groups + 1) shift).runOn ⟨byte :: bytes, offset⟩ = (.error fault, after) := by
  rw [length, runOn_bind (runOn_byte_cons byte bytes offset)]
  simp only
  rw [if_neg (Nat.not_lt.mpr hmore)]
  exact runOn_bind_error hrun

/-- A length that goes on behind the last group is refused at the next byte. -/
theorem length_overflow {front : Bytes} (next : UInt8) (rest : Bytes) (shift offset : Nat)
    (hfront : Unfinished front) :
    (length front.length shift).runOn ⟨front ++ next :: rest, offset⟩ =
      (.error .lengthOverflow, ⟨rest, offset + (front.length + 1)⟩) := by
  induction front generalizing shift offset with
  | nil =>
      rw [List.nil_append, List.length_nil, length, runOn_bind (runOn_byte_cons next rest offset)]
      rfl
  | cons byte front ih =>
      obtain ⟨hmore, hfront⟩ := Varint.unfinished_cons_iff.mp hfront
      have hrest := ih (shift + 7) (offset + 1) hfront
      rw [Nat.add_assoc, Nat.add_comm 1] at hrest
      exact runOn_length_error hmore hrest

/-- Bytes that end within a length are counted and refused. -/
theorem length_endOfBytecode {bytes : Bytes} {groups : Nat} (shift offset : Nat)
    (hbytes : Unfinished bytes) (hgroups : bytes.length ≤ groups) :
    (length groups shift).runOn ⟨bytes, offset⟩ =
      (.error .endOfBytecode, ⟨[], offset + bytes.length⟩) := by
  induction bytes generalizing groups shift offset with
  | nil =>
      cases groups with
      | zero => rfl
      | succ groups => rfl
  | cons byte bytes ih =>
      obtain ⟨hmore, hbytes⟩ := Varint.unfinished_cons_iff.mp hbytes
      obtain ⟨groups, rfl⟩ := Nat.exists_eq_add_one.mpr (Nat.zero_lt_of_lt hgroups)
      have hrest := ih (shift + 7) (offset + 1) hbytes (Nat.le_of_succ_le_succ hgroups)
      rw [Nat.add_assoc, Nat.add_comm 1] at hrest
      exact runOn_length_error hmore hrest

end Loader

namespace Engine

/-- The loader is past the length in front of a program after `count` bytes. -/
def GetsPast (bytes : Bytes) (value count : Nat) : Prop :=
  (Loader.length maxLength 0).runOn (.start bytes) = (.ok value, ⟨bytes.drop count, count⟩)

/-- Every engine refuses the program in the bytes with the message and stays as it is. -/
def Refuses (bytes : Bytes) (message : String) : Prop :=
  ∃ rejection : Rejection, rejection.reason.message = message ∧
    ∀ engine : Engine, (engine.loadFrom bytes).1 = (.error rejection, engine)

theorem refuses_of_length {bytes : Bytes} {reason : LoadFault} {after : Counted Bytes}
    (hrun : (Loader.length maxLength 0).runOn (.start bytes) = (.error reason, after)) :
    Refuses bytes reason.message := by
  refine ⟨⟨after.offset, reason⟩, rfl, fun engine => ?_⟩
  have hprogram : Loader.program.runOn (.start bytes) = (.error reason, after) :=
    Loader.runOn_bind_error hrun
  rw [loadFrom, hprogram]

theorem Refuses.unique {bytes : Bytes} {message other : String}
    (hrefuses : Refuses bytes message) (hother : Refuses bytes other) : message = other := by
  obtain ⟨rejection, rfl, hrefuses⟩ := hrefuses
  obtain ⟨rejection', rfl, hother⟩ := hother
  cases (hrefuses default).symm.trans (hother default)
  rfl

theorem GetsPast.unique {bytes : Bytes} {value count value' count' : Nat}
    (hpast : GetsPast bytes value count) (hpast' : GetsPast bytes value' count') :
    value = value' ∧ count = count' := by
  obtain ⟨hvalue, hafter⟩ := Prod.mk.inj (hpast.symm.trans hpast')
  exact ⟨Except.ok.inj hvalue, congrArg Counted.offset hafter⟩

/-- A length that ends in time is passed, whether it fits or not. -/
theorem getsPast_of_terminated {field : Bytes} (rest : Bytes) (hfield : Terminated field)
    (hlength : field.length ≤ maxLength) :
    GetsPast (field ++ rest) (groupsValue field % UInt64.size) field.length := by
  have hread := Loader.reads_length maxLength 0 hfield hlength rfl rest 0
  rw [Nat.pow_zero, Nat.mul_one, Nat.zero_add] at hread
  rw [GetsPast, List.drop_left]
  exact hread

/-- An integer that is read is passed, too. -/
theorem getsPast_of_read {bytes : Bytes} {value count : Nat}
    (hread : count ≤ bytes.length ∧ Varint.decode.read bytes = (.ok value, bytes.drop count)) :
    GetsPast bytes value count := by
  obtain ⟨hinside, hread⟩ := hread
  obtain ⟨field, hbytes, hspells⟩ := (Varint.decode_accepts _ _ _).mp hread
  have hfield : bytes.take count = field :=
    List.append_cancel_right ((List.take_append_drop count bytes).trans hbytes)
  have hpast := getsPast_of_terminated (bytes.drop count) hspells.terminated hspells.length_le
  rwa [← hbytes, hspells.value_eq, Nat.mod_eq_of_lt hspells.value_lt, ← hfield,
    List.length_take_of_le hinside] at hpast

/-- Bytes that end within an integer are refused, too, and counted. -/
theorem runOn_of_cut {bytes : Bytes} (hcut : Varint.decode.FailsWith bytes .unexpectedEnd) :
    (Loader.length maxLength 0).runOn (.start bytes) =
      (.error .endOfBytecode, ⟨[], bytes.length⟩) := by
  rcases Varint.spells_or_overlong_or_unfinished bytes with
    ⟨field, value, rest, rfl, hspells⟩ | ⟨rest, hoverlong⟩ | ⟨hbytes, hlength⟩
  · have hread := (Varint.decode_accepts (field ++ rest) value rest).mpr ⟨field, rfl, hspells⟩
    exact absurd hcut (Decoder.not_failsWith_of_read_eq_ok hread _)
  · exact nomatch (Decoder.failsWith_iff_of_read_eq_error hoverlong.read_eq _).mp hcut
  · have hrun := Loader.length_endOfBytecode 0 0 hbytes (Nat.le_of_lt hlength)
    rwa [Nat.zero_add] at hrun

/-- Two readings of the length in front of a program that come to the same. -/
structure ReadAlike (bytes : Bytes) : Prop where
  value : ∀ value count, GetsPast bytes value count ↔
    count ≤ bytes.length ∧ Varint.decode.read bytes = (.ok value, bytes.drop count)
  overflow : Varint.decode.FailsWith bytes .invalidData → Refuses bytes "length prefix overflows"
  cut : Varint.decode.FailsWith bytes .unexpectedEnd → Refuses bytes "unexpected end of bytecode"

/-- An overlong integer whose tenth byte ends it, or is the last byte there is. -/
def Misread (bytes : Bytes) : Prop :=
  ∃ front last rest, bytes = front ++ last :: rest ∧ Unfinished front ∧
    front.length + 1 = maxLength ∧ 1 < last.toNat ∧ (last.toNat < 128 ∨ rest = [])

section Overlong

variable {front : Bytes} {last : UInt8}

/-- The tenth byte of an overlong integer, if it ends it, is taken for what there is room for. -/
theorem getsPast_of_overlong (rest : Bytes) (hfront : Unfinished front)
    (hlength : front.length + 1 = maxLength) (hends : last.toNat < 128) :
    GetsPast (front ++ last :: rest) (groupsValue (front ++ [last]) % UInt64.size) maxLength := by
  have hfield : (front ++ [last]).length = maxLength := by
    rw [List.length_append, List.length_singleton, hlength]
  have hpast := getsPast_of_terminated rest ⟨front, last, rfl, hfront, hends⟩
    (Nat.le_of_eq hfield)
  rwa [hfield, List.append_assoc, List.singleton_append] at hpast

/-- If it is the last byte there is, the loader misses another one. -/
theorem runOn_of_overlong_cut (hfront : Unfinished front)
    (hlength : front.length + 1 = maxLength) (hmore : 128 ≤ last.toNat) :
    (Loader.length maxLength 0).runOn (.start (front ++ [last])) =
      (.error .endOfBytecode, ⟨[], maxLength⟩) := by
  have hfield : (front ++ [last]).length = maxLength := by
    rw [List.length_append, List.length_singleton, hlength]
  have hrun := Loader.length_endOfBytecode 0 0 (Varint.unfinished_concat hfront hmore)
    (Nat.le_of_eq hfield)
  rwa [hfield] at hrun

/-- Otherwise the integer is found to be overlong at the byte behind it. -/
theorem runOn_of_overlong (next : UInt8) (rest : Bytes) (hfront : Unfinished front)
    (hlength : front.length + 1 = maxLength) (hmore : 128 ≤ last.toNat) :
    (Loader.length maxLength 0).runOn (.start (front ++ last :: next :: rest)) =
      (.error .lengthOverflow, ⟨rest, maxLength + 1⟩) := by
  have hfield : (front ++ [last]).length = maxLength := by
    rw [List.length_append, List.length_singleton, hlength]
  have hrun := Loader.length_overflow next rest 0 0 (Varint.unfinished_concat hfront hmore)
  rwa [hfield, List.append_assoc, List.singleton_append, Nat.zero_add] at hrun

end Overlong

theorem not_getsPast_of_error {bytes : Bytes} {reason : LoadFault} {after : Counted Bytes}
    (hrun : (Loader.length maxLength 0).runOn (.start bytes) = (.error reason, after))
    (value count : Nat) : ¬GetsPast bytes value count := by
  intro hpast
  cases hrun.symm.trans hpast

/-- An integer is passed just where it is read, unless it is misread. -/
theorem readAlike_of_not_misread {bytes : Bytes} (hmisread : ¬Misread bytes) :
    ReadAlike bytes := by
  rcases Varint.spells_or_overlong_or_unfinished bytes with
    ⟨field, value, rest, rfl, hspells⟩ | ⟨rest, hoverlong⟩ | ⟨hbytes, hlength⟩
  · have hread : Varint.decode.read (field ++ rest) = (.ok value, rest) :=
      (Varint.decode_accepts _ _ _).mpr ⟨field, rfl, hspells⟩
    have hwhole : field.length ≤ (field ++ rest).length ∧
        Varint.decode.read (field ++ rest) = (.ok value, (field ++ rest).drop field.length) :=
      ⟨List.length_append ▸ Nat.le_add_right _ _, by rw [List.drop_left, hread]⟩
    have hnever := Decoder.not_failsWith_of_read_eq_ok hread
    refine ⟨fun value' count => ⟨fun hpast => ?_, getsPast_of_read⟩,
      fun hfails => absurd hfails (hnever _), fun hfails => absurd hfails (hnever _)⟩
    obtain ⟨rfl, rfl⟩ := (getsPast_of_read hwhole).unique hpast
    exact hwhole
  · have hread := hoverlong.read_eq
    have hkind := Decoder.failsWith_iff_of_read_eq_error hread
    obtain ⟨front, last, rfl, hfront, hlength, hlast⟩ := hoverlong
    have hmore : 128 ≤ last.toNat := by
      by_contra hends
      exact hmisread ⟨front, last, rest, rfl, hfront, hlength, hlast, .inl (by omega)⟩
    cases rest with
    | nil => exact absurd ⟨front, last, [], rfl, hfront, hlength, hlast, .inr rfl⟩ hmisread
    | cons next rest =>
        have hrun := runOn_of_overlong next rest hfront hlength hmore
        refine ⟨fun value count => iff_of_false (not_getsPast_of_error hrun _ _) ?_,
          fun _ => refuses_of_length hrun, fun hfails => nomatch (hkind _).mp hfails⟩
        rintro ⟨-, hread'⟩
        cases hread.symm.trans hread'
  · have hread := hbytes.read_eq hlength
    have hkind := Decoder.failsWith_iff_of_read_eq_error hread
    have hrun := runOn_of_cut ((hkind _).mpr rfl)
    refine ⟨fun value count => iff_of_false (not_getsPast_of_error hrun _ _) ?_,
      fun hfails => (nomatch (hkind _).mp hfails), fun _ => refuses_of_length hrun⟩
    rintro ⟨-, hread'⟩
    cases hread.symm.trans hread'

theorem Misread.not_readAlike {bytes : Bytes} (hmisread : Misread bytes) : ¬ReadAlike bytes := by
  obtain ⟨front, last, rest, rfl, hfront, hlength, hlast, hends⟩ := hmisread
  have hoverlong : Overlong (front ++ last :: rest) rest :=
    ⟨front, last, rfl, hfront, hlength, hlast⟩
  have hread := hoverlong.read_eq
  intro halike
  rcases Nat.lt_or_ge last.toNat 128 with hshort | hmore
  · obtain ⟨-, hread'⟩ := (halike.value _ _).mp (getsPast_of_overlong rest hfront hlength hshort)
    cases hread.symm.trans hread'
  · obtain rfl : rest = [] := hends.resolve_left (Nat.not_lt.mpr hmore)
    have hrefuses := halike.overflow ⟨_, _, hread, rfl⟩
    have hcut := refuses_of_length (runOn_of_overlong_cut hfront hlength hmore)
    exact absurd (hrefuses.unique hcut) (by decide)

/-- The loader passes a length just as it is read, refuses it as too long just where it is
refused and where it ends early just where it is cut, if and only if it is no misread one.
Whatever is read is passed, and what is cut is refused at its end.  Of an integer that does not
fit, the loader keeps the bits that have room if the tenth byte ends it; if the tenth byte is
the last one, it misses another; and only behind a further byte it finds the overflow. -/
theorem readAlike_iff (bytes : Bytes) :
    (ReadAlike bytes ↔ ¬Misread bytes) ∧
    (∀ value count, count ≤ bytes.length ∧
        Varint.decode.read bytes = (.ok value, bytes.drop count) → GetsPast bytes value count) ∧
    (Varint.decode.FailsWith bytes .unexpectedEnd → Refuses bytes "unexpected end of bytecode") ∧
    ∀ front last rest, bytes = front ++ last :: rest → Unfinished front →
      front.length + 1 = maxLength → 1 < last.toNat →
        Varint.decode.FailsWith bytes .invalidData ∧
        (last.toNat < 128 →
          GetsPast bytes (groupsValue (front ++ [last]) % UInt64.size) maxLength) ∧
        (128 ≤ last.toNat → rest = [] → Refuses bytes "unexpected end of bytecode") ∧
        (128 ≤ last.toNat → rest ≠ [] → Refuses bytes "length prefix overflows") := by
  refine ⟨⟨fun halike hmisread => hmisread.not_readAlike halike, readAlike_of_not_misread⟩,
    fun value count => getsPast_of_read, fun hcut => refuses_of_length (runOn_of_cut hcut), ?_⟩
  rintro front last rest rfl hfront hlength hlast
  have hoverlong : Overlong (front ++ last :: rest) rest :=
    ⟨front, last, rfl, hfront, hlength, hlast⟩
  refine ⟨⟨_, _, hoverlong.read_eq, rfl⟩, getsPast_of_overlong rest hfront hlength, ?_, ?_⟩
  · rintro hmore rfl
    exact refuses_of_length (runOn_of_overlong_cut hfront hlength hmore)
  · intro hmore hrest
    obtain ⟨next, rest, rfl⟩ := List.exists_cons_of_ne_nil hrest
    exact refuses_of_length (runOn_of_overlong next rest hfront hlength hmore)

/-- A saved program whose length has a bit too many. -/
def spilledProgram : Bytes :=
  0x9E :: List.replicate 8 0x80 ++ 0x02 :: (Program.empty false).document

/-- Its length is no integer of 64 bits, but the program is loaded.  Ten bytes that go on are
not found to be too many as long as there is no eleventh. -/
theorem readAlike_iff_spilled :
    ¬ReadAlike spilledProgram ∧ Varint.decode.FailsWith spilledProgram .invalidData ∧
      GetsPast spilledProgram 30 10 ∧
      ((default : Engine).loadFrom spilledProgram).1.1 = .ok false ∧
      Varint.decode.FailsWith (List.replicate 10 0xFF) .invalidData ∧
      Refuses (List.replicate 10 0xFF) "unexpected end of bytecode" := by
  have hspilled : Unfinished (0x9E :: List.replicate 8 0x80) :=
    Varint.unfinished_cons_iff.mpr ⟨by decide, Varint.unfinished_replicate 8 (by decide)⟩
  have hfull : Unfinished (List.replicate 9 0xFF) := Varint.unfinished_replicate 9 (by decide)
  obtain ⟨hinvalid, hpast, -⟩ := (readAlike_iff spilledProgram).2.2.2
    (0x9E :: List.replicate 8 0x80) 0x02 _ rfl hspilled (by decide) (by decide)
  obtain ⟨hoverlong, -, hcut, -⟩ := (readAlike_iff (List.replicate 10 0xFF)).2.2.2
    (List.replicate 9 0xFF) 0xFF [] rfl hfull (by decide) (by decide)
  refine ⟨fun halike => (readAlike_iff spilledProgram).1.mp halike ?_, hinvalid,
    hpast (by decide), by decide +kernel, hoverlong, hcut (by decide) rfl⟩
  exact ⟨0x9E :: List.replicate 8 0x80, 0x02, _, rfl, hspilled, by decide, by decide,
    .inl (by decide)⟩

end Engine

end ScriptBundle
