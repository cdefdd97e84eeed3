import ScriptBundle.Proofs.Layout.Groups

/-!
# The grammar of record lists

A record list is read from the left, and the first thing that is wrong with it decides how it
is refused: as invalid if it is a number that is too large, and as cut if it is the end of the
bytes.  What stands in front of it is a list as far as it goes.
-/

namespace ScriptBundle

namespace Decoder

variable {α β : Type}

/-- The decoder fails just on the bytes that an obstacle lies in, with a fault of its class. -/
def StopsOn (decoder : Decoder α) (obstacle : Bytes → Fault.Kind → Prop) : Prop :=
  ∀ bytes kind, decoder.FailsWith bytes kind ↔ obstacle bytes kind

theorem StopsOn.congr {decoder : Decoder α} {obstacle obstacle' : Bytes → Fault.Kind → Prop}
    (hstops : decoder.StopsOn obstacle)
    (hsame : ∀ bytes kind, obstacle bytes kind ↔ obstacle' bytes kind) :
    decoder.StopsOn obstacle' :=
  fun bytes kind => (hstops bytes kind).trans (hsame bytes kind)

theorem stopsOn_pure (value : α) : (pure value : Decoder α).StopsOn fun _ _ => False :=
  fun _ kind => iff_of_false (not_failsWith_of_read_eq_ok (read_pure value _) kind) id

theorem stopsOn_throw (fault : Fault) :
    (throw fault : Decoder α).StopsOn fun _ kind => fault.kind = kind :=
  fun bytes => failsWith_iff_of_read_eq_error
    (show (throw fault : Decoder α).read bytes = (.error fault, bytes) from rfl)

/-- A chain fails with its first decoder, or behind a field that this one accepts. -/
theorem stopsOn_bind {decoder : Decoder α} {next : α → Decoder β} {spells : Bytes → α → Prop}
    {obstacle : Bytes → Fault.Kind → Prop} {obstacleNext : α → Bytes → Fault.Kind → Prop}
    (haccepts : decoder.Accepts spells) (hfirst : decoder.StopsOn obstacle)
    (hnext : ∀ value, (next value).StopsOn (obstacleNext value)) :
    (decoder >>= next).StopsOn fun bytes kind =>
      obstacle bytes kind ∨
        ∃ value front back, bytes = front ++ back ∧ spells front value ∧
          obstacleNext value back kind := by
  intro bytes kind
  simp only [← hfirst bytes kind]
  cases hread : decoder.read bytes with
  | mk outcome middle =>
      cases outcome with
      | error fault =>
          rw [failsWith_iff_of_read_eq_error (read_bind_error hread),
            failsWith_iff_of_read_eq_error hread]
          refine (or_iff_left ?_).symm
          rintro ⟨value, front, back, hbytes, hfront, -⟩
          cases hread.symm.trans ((haccepts bytes value back).mpr ⟨front, hbytes, hfront⟩)
      | ok value =>
          have hsame : (decoder >>= next).FailsWith bytes kind ↔
              (next value).FailsWith middle kind := by
            rw [FailsWith, read_bind hread, FailsWith]
          rw [hsame, or_iff_right (not_failsWith_of_read_eq_ok hread kind), hnext value middle kind]
          constructor
          · intro hobstacle
            obtain ⟨front, hbytes, hfront⟩ := (haccepts bytes value middle).mp hread
            exact ⟨value, front, middle, hbytes, hfront, hobstacle⟩
          · rintro ⟨other, front, back, hbytes, hfront, hobstacle⟩
            have hother := (haccepts bytes other back).mpr ⟨front, hbytes, hfront⟩
            cases hread.symm.trans hother
            exact hobstacle

/-- A check in front of a decoder is an obstacle of its own. -/
theorem stopsOn_of_check {decoder : Decoder α} {obstacle : Bytes → Fault.Kind → Prop}
    {condition : Prop} [Decidable condition] {fault : Fault} (hstops : decoder.StopsOn obstacle) :
    (if condition then throw fault else decoder).StopsOn fun bytes kind =>
      condition ∧ fault.kind = kind ∨ ¬condition ∧ obstacle bytes kind := by
  intro bytes kind
  by_cases hcondition : condition
  · rw [if_pos hcondition, stopsOn_throw fault bytes kind]
    simp [hcondition]
  · rw [if_neg hcondition, hstops bytes kind]
    simp [hcondition]

theorem stopsOn_takeOr (count : Nat) {short : Nat → Fault}
    (hshort : ∀ held, (short held).kind = .unexpectedEnd) :
    (takeOr count short).StopsOn fun bytes kind =>
      bytes.length < count ∧ kind = .unexpectedEnd := by
  intro bytes kind
  rcases Nat.lt_or_ge bytes.length count with hcut | hfull
  · have hread : (takeOr count short).read bytes =
        (.error (short (bytes.take count).length), []) := by
      rw [read_takeOr, if_neg]
      rw [List.length_take]
      omega
    rw [failsWith_iff_of_read_eq_error hread, hshort]
    exact ⟨fun hkind => ⟨hcut, hkind.symm⟩, fun hend => hend.2.symm⟩
  · have hread : (takeOr count short).read bytes = (.ok (bytes.take count), bytes.drop count) := by
      rw [read_takeOr, if_pos (List.length_take_of_le hfull)]
    exact iff_of_false (not_failsWith_of_read_eq_ok hread kind)
      fun hcut => absurd hcut.1 (Nat.not_lt.mpr hfull)

/-- Items are read up to the first obstacle to one of them. -/
theorem stopsOn_times {item : Decoder α} {spells : Bytes → α → Prop}
    {obstacle : Bytes → Fault.Kind → Prop} (haccepts : item.Accepts spells)
    (hstops : item.StopsOn obstacle) (count : Nat) :
    (item.times count).StopsOn fun bytes kind =>
      ∃ values front back, bytes = front ++ back ∧ SpellsAll spells front values ∧
        values.length < count ∧ obstacle back kind := by
  induction count with
  | zero =>
      refine (stopsOn_pure []).congr fun bytes kind => iff_of_false id ?_
      rintro ⟨values, front, back, -, -, hnone, -⟩
      exact Nat.not_lt_zero _ hnone
  | succ count ih =>
      have hchain := stopsOn_bind haccepts hstops fun first =>
        stopsOn_bind (accepts_times haccepts count) ih fun others => stopsOn_pure (first :: others)
      refine hchain.congr fun bytes kind => ?_
      constructor
      · rintro (hobstacle | ⟨first, front, back, rfl, hfirst, hback⟩)
        · exact ⟨[], [], bytes, rfl, ⟨[], rfl, .nil⟩, Nat.succ_pos _, hobstacle⟩
        · obtain ⟨others, middle, rest, rfl, ⟨fields, rfl, hfields⟩, hcount, hobstacle⟩ :=
            hback.resolve_right fun ⟨_, _, _, _, _, hnone⟩ => hnone
          exact ⟨first :: others, front ++ fields.flatten, rest, (List.append_assoc _ _ _).symm,
            ⟨front :: fields, List.flatten_cons.symm, .cons hfirst hfields⟩,
            Nat.succ_lt_succ hcount, hobstacle⟩
      · rintro ⟨values, front, back, rfl, ⟨fields, rfl, hfields⟩, hcount, hobstacle⟩
        cases hfields with
        | nil => exact .inl hobstacle
        | cons hfirst hothers =>
            rename_i field first fields others
            exact .inr ⟨first, field, fields.flatten ++ back, List.append_assoc _ _ _, hfirst,
              .inl ⟨others, fields.flatten, back, rfl, ⟨fields, rfl, hothers⟩,
                Nat.lt_of_succ_lt_succ hcount, hobstacle⟩⟩

end Decoder

open Decoder

namespace Varint

/-- The bytes end within a number. -/
def Cut (bytes : Bytes) : Prop :=
  Unfinished bytes ∧ bytes.length < maxLength

/-- A number stands at the front that does not fit in 64 bits, or that is above a limit. -/
def Exceeds (limit : Nat) (bytes : Bytes) : Prop :=
  Overflows bytes ∨
    ∃ field rest value, bytes = field ++ rest ∧ Spells field value ∧ limit < value

/-- Reading ends at the end of the bytes just if they end within a number. -/
theorem failsWith_unexpectedEnd_iff {bytes : Bytes} :
    decode.FailsWith bytes .unexpectedEnd ↔ Cut bytes := by
  rcases spells_or_overlong_or_unfinished bytes with
    ⟨field, value, rest, hbytes, hspells⟩ | ⟨rest, hoverlong⟩ | hcut
  · have hread := (decode_accepts bytes value rest).mpr ⟨field, hbytes, hspells⟩
    refine iff_of_false (not_failsWith_of_read_eq_ok hread _) fun hcut => ?_
    cases hread.symm.trans (hcut.1.read_eq hcut.2)
  · refine iff_of_false ?_ fun hcut => ?_
    · rw [failsWith_iff_of_read_eq_error hoverlong.read_eq]
      exact nofun
    · cases hoverlong.read_eq.symm.trans (hcut.1.read_eq hcut.2)
  · refine iff_of_true ?_ hcut
    rw [failsWith_iff_of_read_eq_error (hcut.1.read_eq hcut.2)]
    rfl

theorem decode_stopsOn : decode.StopsOn fun bytes kind =>
    Overflows bytes ∧ kind = .invalidData ∨ Cut bytes ∧ kind = .unexpectedEnd := by
  intro bytes kind
  cases kind with
  | unexpectedEnd => simp [failsWith_unexpectedEnd_iff]
  | invalidData => simp [(failsWith_decode_iff bytes).1]

/-- A number with a limit, and what is read behind it. -/
theorem checked_stopsOn {α : Type} {limit : Nat} {fault : Nat → Fault} {next : Nat → Decoder α}
    {obstacle : Nat → Bytes → Fault.Kind → Prop}
    (hfault : ∀ value, (fault value).kind = .invalidData)
    (hnext : ∀ value, (next value).StopsOn (obstacle value)) :
    StopsOn
      (do
        let value ← decode
        if limit < value then throw (fault value) else next value)
      fun bytes kind =>
        Exceeds limit bytes ∧ kind = .invalidData ∨ Cut bytes ∧ kind = .unexpectedEnd ∨
          ∃ value front back, bytes = front ++ back ∧ Spells front value ∧ value ≤ limit ∧
            obstacle value back kind := by
  refine StopsOn.congr (stopsOn_bind decode_accepts decode_stopsOn fun value =>
    stopsOn_of_check (hnext value)) fun bytes kind => ?_
  simp only [hfault]
  constructor
  · rintro ((⟨hoverflows, hkind⟩ | hcut) | ⟨value, front, back, rfl, hfront, ⟨hlimit, hkind⟩ |
      ⟨hlimit, hobstacle⟩⟩)
    · exact .inl ⟨.inl hoverflows, hkind⟩
    · exact .inr (.inl hcut)
    · exact .inl ⟨.inr ⟨front, back, value, rfl, hfront, hlimit⟩, hkind.symm⟩
    · exact .inr (.inr ⟨value, front, back, rfl, hfront, Nat.le_of_not_lt hlimit, hobstacle⟩)
  · rintro (⟨hoverflows | ⟨front, back, value, rfl, hfront, hlimit⟩, rfl⟩ | hcut |
      ⟨value, front, back, rfl, hfront, hlimit, hobstacle⟩)
    · exact .inl (.inl ⟨hoverflows, rfl⟩)
    · exact .inr ⟨value, front, back, rfl, hfront, .inl ⟨hlimit, rfl⟩⟩
    · exact .inl (.inr hcut)
    · exact .inr ⟨value, front, back, rfl, hfront, .inr ⟨Nat.not_lt.mpr hlimit, hobstacle⟩⟩

end Varint

namespace Records

/-- The bytes end within the length of a record, or within the record. -/
def RecordCut (bytes : Bytes) : Prop :=
  Varint.Cut bytes ∨
    ∃ length held size, bytes = length ++ held ∧ Varint.Spells length size ∧ size ≤ maxLength ∧
      held.length < size

theorem decodeRecord_stopsOn : decodeRecord.StopsOn fun bytes kind =>
    Varint.Exceeds maxLength bytes ∧ kind = .invalidData ∨
      RecordCut bytes ∧ kind = .unexpectedEnd := by
  refine StopsOn.congr (Varint.checked_stopsOn (fun _ => rfl) fun length =>
    stopsOn_takeOr length fun _ => rfl) fun bytes kind => or_congr Iff.rfl ?_
  constructor
  · rintro (⟨hcut, rfl⟩ | ⟨size, length, held, rfl, hlength, hsize, hheld, rfl⟩)
    · exact ⟨.inl hcut, rfl⟩
    · exact ⟨.inr ⟨length, held, size, rfl, hlength, hsize, hheld⟩, rfl⟩
  · rintro ⟨hcut | ⟨length, held, size, rfl, hlength, hsize, hheld⟩, rfl⟩
    · exact .inl ⟨hcut, rfl⟩
    · exact .inr ⟨size, length, held, rfl, hlength, hsize, hheld, rfl⟩

/-- A count within the limit, and fewer records than it announces. -/
def Begins (front : Bytes) : Prop :=
  ∃ count fields size records, front = count ++ fields ∧ Varint.Spells count size ∧
    size ≤ maxCount ∧ SpellsAll SpellsRecord fields records ∧ records.length < size

/-- The first thing wrong with a list is a number that is too large. -/
def Invalid (bytes : Bytes) : Prop :=
  Varint.Exceeds maxCount bytes ∨
    ∃ front back, bytes = front ++ back ∧ Begins front ∧ Varint.Exceeds maxLength back

/-- The first thing wrong with a list is that the bytes are at their end. -/
def Cut (bytes : Bytes) : Prop :=
  Varint.Cut bytes ∨ ∃ front back, bytes = front ++ back ∧ Begins front ∧ RecordCut back

/-- What comes behind a count and some records comes behind a list that has begun. -/
theorem exists_begins_iff {bytes : Bytes} {obstacle : Bytes → Prop} :
    (∃ size count back, bytes = count ++ back ∧ Varint.Spells count size ∧ size ≤ maxCount ∧
      ∃ records fields rest, back = fields ++ rest ∧ SpellsAll SpellsRecord fields records ∧
        records.length < size ∧ obstacle rest) ↔
      ∃ front back, bytes = front ++ back ∧ Begins front ∧ obstacle back := by
  constructor
  · rintro ⟨size, count, _, rfl, hcount, hsize, records, fields, rest, rfl, hfields, hfewer, hrest⟩
    exact ⟨count ++ fields, rest, (List.append_assoc _ _ _).symm,
      ⟨count, fields, size, records, rfl, hcount, hsize, hfields, hfewer⟩, hrest⟩
  · rintro ⟨_, back, rfl, ⟨count, fields, size, records, rfl, hcount, hsize, hfields, hfewer⟩,
      hback⟩
    exact ⟨size, count, fields ++ back, List.append_assoc _ _ _, hcount, hsize, records, fields,
      back, rfl, hfields, hfewer, hback⟩

theorem decode_stopsOn : decode.StopsOn fun bytes kind =>
    Invalid bytes ∧ kind = .invalidData ∨ Cut bytes ∧ kind = .unexpectedEnd := by
  refine StopsOn.congr (Varint.checked_stopsOn (fun _ => rfl) fun count =>
    stopsOn_times decodeRecord_accepts decodeRecord_stopsOn count) fun bytes kind => ?_
  rw [exists_begins_iff]
  cases kind with
  | invalidData => simp [Invalid]
  | unexpectedEnd => simp [Cut]

/-- A list is read just where one is spelled at the front, and nothing else is taken.  What is
no list is refused as invalid or as cut, as the first thing that is wrong with it has it. -/
theorem decode_grammar (bytes : Bytes) :
    (∀ records rest, decode.read bytes = (.ok records, rest) ↔
      ∃ count, count ≤ bytes.length ∧ rest = bytes.drop count ∧
        Spells (bytes.take count) records) ∧
    (decode.FailsWith bytes .invalidData ↔ Invalid bytes) ∧
    (decode.FailsWith bytes .unexpectedEnd ↔ Cut bytes) := by
  refine ⟨fun records rest => ?_, ?_, ?_⟩
  · rw [decode_accepts bytes records rest]
    constructor
    · rintro ⟨field, rfl, hfield⟩
      exact ⟨field.length, List.length_append ▸ Nat.le_add_right _ _, List.drop_left.symm,
        List.take_left.symm ▸ hfield⟩
    · rintro ⟨count, -, rfl, hfield⟩
      exact ⟨bytes.take count, (List.take_append_drop count bytes).symm, hfield⟩
  · simp [decode_stopsOn bytes .invalidData]
  · simp [decode_stopsOn bytes .unexpectedEnd]

/-- Padded numbers are read.  A length that is too large is found before the end of the bytes,
and the end of the bytes before a length that would have been too large. -/
theorem decode_grammar_padded :
    Spells [0x82, 0x00, 0x81, 0x00, 7, 0x00] [[7], []] ∧
      Invalid [2, 1, 7, 0x81, 0x80, 0x80, 0x80, 0x04] ∧
      Cut [2, 1, 7, 0x81, 0x80, 0x80, 0x80] := by
  refine ⟨?_, ?_, ?_⟩
  · obtain ⟨count, hinside, hrest, hspells⟩ := ((decode_grammar
      [0x82, 0x00, 0x81, 0x00, 7, 0x00, 9]).1 [[7], []] [9]).mp rfl
    have hcount : count = 6 := by
      have hlength := congrArg List.length hrest
      simp only [List.length_drop, List.length_cons, List.length_nil] at hlength hinside
      omega
    rwa [hcount] at hspells
  · exact (decode_grammar _).2.1.mp ⟨.recordTooLong 1073741825, [], rfl, rfl⟩
  · exact (decode_grammar _).2.2.mp ⟨.endOfInput, [], rfl, rfl⟩

end Records

end ScriptBundle
