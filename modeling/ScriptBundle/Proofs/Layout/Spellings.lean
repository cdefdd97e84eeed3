import Mathlib.Data.List.Forall2
import ScriptBundle.Proofs.Layout.RoundTrip

/-!
# The spellings of a value

A decoder accepts more than the writer writes: an integer may be spelled with groups
that add nothing to it.  The accepted spellings are described here by their bytes, and
each decoder takes off just one spelling of what it gives.
-/

namespace ScriptBundle

namespace Decoder

variable {α β : Type}

/-- The decoder gives the values whose spellings stand at the front, and leaves what
follows the spelling. -/
def Accepts (decoder : Decoder α) (spells : Bytes → α → Prop) : Prop :=
  ∀ bytes value rest, decoder.read bytes = (.ok value, rest) ↔
    ∃ field, bytes = field ++ rest ∧ spells field value

theorem Accepts.congr {decoder : Decoder α} {spells spells' : Bytes → α → Prop}
    (haccepts : decoder.Accepts spells) (hsame : ∀ field value, spells field value ↔
      spells' field value) : decoder.Accepts spells' := by
  intro bytes value rest
  simp only [haccepts bytes value rest, hsame]

theorem accepts_bind {decoder : Decoder α} {next : α → Decoder β} {spells : Bytes → α → Prop}
    {spellsNext : α → Bytes → β → Prop} (hfirst : decoder.Accepts spells)
    (hnext : ∀ value, (next value).Accepts (spellsNext value)) :
    (decoder >>= next).Accepts fun field result =>
      ∃ value front back, field = front ++ back ∧ spells front value ∧
        spellsNext value back result := by
  intro bytes result rest
  rw [read_bind_eq_ok_iff]
  constructor
  · rintro ⟨value, middle, hvalue, hresult⟩
    obtain ⟨front, rfl, hfront⟩ := (hfirst bytes value middle).mp hvalue
    obtain ⟨back, rfl, hback⟩ := (hnext value middle result rest).mp hresult
    exact ⟨front ++ back, (List.append_assoc _ _ _).symm, value, front, back, rfl, hfront, hback⟩
  · rintro ⟨_, rfl, value, front, back, rfl, hfront, hback⟩
    rw [List.append_assoc]
    exact ⟨value, back ++ rest, (hfirst _ _ _).mpr ⟨front, rfl, hfront⟩,
      (hnext value _ _ _).mpr ⟨back, rfl, hback⟩⟩

theorem accepts_pure (value : α) :
    (pure value : Decoder α).Accepts fun field result => field = [] ∧ result = value := by
  intro bytes result rest
  rw [read_pure]
  constructor
  · rintro hread
    cases hread
    exact ⟨[], rfl, rfl, rfl⟩
  · rintro ⟨_, rfl, rfl, rfl⟩
    rfl

theorem accepts_throw (fault : Fault) : (throw fault : Decoder α).Accepts fun _ _ => False := by
  intro bytes result rest
  constructor
  · rintro hread
    cases hread
  · rintro ⟨_, _, hnone⟩
    exact hnone.elim

/-- A check in front of a decoder is a part of what it accepts. -/
theorem accepts_of_check {decoder : Decoder α} {spells : Bytes → α → Prop} {condition : Prop}
    [Decidable condition] {fault : Fault} (haccepts : decoder.Accepts spells) :
    (if condition then throw fault else decoder).Accepts fun field value =>
      ¬condition ∧ spells field value := by
  intro bytes value rest
  by_cases hcondition : condition
  · rw [if_pos hcondition, accepts_throw fault bytes value rest]
    simp [hcondition]
  · rw [if_neg hcondition, haccepts bytes value rest]
    simp [hcondition]

theorem accepts_ite {first second : Decoder α} {spells spells' : Bytes → α → Prop}
    {condition : Prop} [Decidable condition] (hfirst : first.Accepts spells)
    (hsecond : second.Accepts spells') :
    (if condition then first else second).Accepts fun field value =>
      if condition then spells field value else spells' field value := by
  by_cases hcondition : condition
  · simp only [if_pos hcondition]
    exact hfirst
  · simp only [if_neg hcondition]
    exact hsecond

theorem accepts_byte : Decoder.byte.Accepts fun field byte => field = [byte] := by
  intro bytes byte rest
  constructor
  · intro hread
    cases bytes with
    | nil => cases hread
    | cons first bytes =>
        rw [read_byte_cons] at hread
        cases hread
        exact ⟨[byte], rfl, rfl⟩
  · rintro ⟨_, rfl, rfl⟩
    rfl

theorem accepts_takeOr (count : Nat) (short : Nat → Fault) :
    (takeOr count short).Accepts fun field taken => field = taken ∧ taken.length = count := by
  intro bytes taken rest
  constructor
  · intro hread
    rw [read_takeOr] at hread
    split at hread
    · rename_i hlength
      cases hread
      exact ⟨_, (List.take_append_drop count bytes).symm, rfl, hlength⟩
    · cases hread
  · rintro ⟨_, rfl, rfl, rfl⟩
    exact reads_takeOr _ short rest

/-- Items are spelled one after the other. -/
def SpellsAll (spells : Bytes → α → Prop) (field : Bytes) (values : List α) : Prop :=
  ∃ fields, field = fields.flatten ∧ List.Forall₂ spells fields values

theorem accepts_times {item : Decoder α} {spells : Bytes → α → Prop}
    (hitem : item.Accepts spells) (count : Nat) :
    (item.times count).Accepts fun field values =>
      SpellsAll spells field values ∧ values.length = count := by
  induction count with
  | zero =>
      intro bytes values rest
      rw [times, accepts_pure [] bytes values rest]
      constructor
      · rintro ⟨_, rfl, rfl, rfl⟩
        exact ⟨[], rfl, ⟨[], rfl, .nil⟩, rfl⟩
      · rintro ⟨_, rfl, ⟨fields, rfl, hfields⟩, hlength⟩
        obtain rfl := List.length_eq_zero_iff.mp hlength
        cases hfields
        exact ⟨[], rfl, rfl, rfl⟩
  | succ count ih =>
      intro bytes values rest
      have hchain := accepts_bind hitem fun first =>
        accepts_bind ih fun others => accepts_pure (first :: others)
      rw [times, hchain bytes values rest]
      constructor
      · rintro ⟨_, rfl, first, front, _, rfl, hfirst, others, back, _, rfl,
          ⟨⟨fields, rfl, hfields⟩, rfl⟩, rfl, rfl⟩
        refine ⟨_, rfl, ⟨front :: fields, ?_, .cons hfirst hfields⟩, rfl⟩
        rw [List.append_nil, List.flatten_cons]
      · rintro ⟨_, rfl, ⟨fields, rfl, hfields⟩, hlength⟩
        cases hfields with
        | nil => cases hlength
        | cons hfirst hothers =>
            rename_i front first fields others
            refine ⟨_, rfl, first, front, fields.flatten, List.flatten_cons, hfirst, others,
              fields.flatten, [], (List.append_nil _).symm, ⟨⟨fields, rfl, hothers⟩, ?_⟩, rfl, rfl⟩
            exact Nat.succ.inj hlength

end Decoder

open Decoder

namespace Varint

/-- The number that groups of seven bits write, least significant group first. -/
def groupsValue : Bytes → Nat
  | [] => 0
  | byte :: bytes => byte.toNat % 128 + 128 * groupsValue bytes

/-- The last byte, and no other one, has its high bit clear. -/
def Terminated (bytes : Bytes) : Prop :=
  ∃ front last, bytes = front ++ [last] ∧ (∀ byte ∈ front, 128 ≤ byte.toNat) ∧ last.toNat < 128

/-- The spellings of a 64-bit integer. -/
structure Spells (bytes : Bytes) (value : Nat) : Prop where
  terminated : Terminated bytes
  length_le : bytes.length ≤ maxLength
  value_eq : groupsValue bytes = value
  value_lt : value < UInt64.size

theorem terminated_cons_iff {byte : UInt8} {bytes : Bytes} :
    Terminated (byte :: bytes) ↔
      byte.toNat < 128 ∧ bytes = [] ∨ 128 ≤ byte.toNat ∧ Terminated bytes := by
  constructor
  · rintro ⟨front, last, hbytes, hfront, hlast⟩
    cases front with
    | nil =>
        cases hbytes
        exact .inl ⟨hlast, rfl⟩
    | cons first front =>
        cases hbytes
        exact .inr ⟨hfront _ List.mem_cons_self, front, last, rfl,
          fun other hother => hfront other (List.mem_cons_of_mem _ hother), hlast⟩
  · rintro (⟨hlast, rfl⟩ | ⟨hfirst, front, last, rfl, hfront, hlast⟩)
    · exact ⟨[], byte, rfl, fun _ hother => (List.not_mem_nil hother).elim, hlast⟩
    · exact ⟨byte :: front, last, rfl, List.forall_mem_cons.mpr ⟨hfirst, hfront⟩, hlast⟩

theorem Terminated.ne_nil {bytes : Bytes} (hterminated : Terminated bytes) : bytes ≠ [] := by
  obtain ⟨front, last, rfl, -, -⟩ := hterminated
  exact List.append_ne_nil_of_right_ne_nil _ (List.cons_ne_nil _ _)

/-- One group is the last one, or others follow. -/
theorem decodeGroups_succ_accepts {groups : Nat} {spells : Bytes → Nat → Prop}
    (haccepts : (decodeGroups groups).Accepts spells) :
    (decodeGroups (groups + 1)).Accepts fun field value =>
      ∃ byte back, field = byte :: back ∧ ¬(groups = 0 ∧ 1 < byte.toNat % 128) ∧
        (byte.toNat < 128 ∧ back = [] ∧ value = byte.toNat % 128 ∨
          128 ≤ byte.toNat ∧ ∃ high, spells back high ∧ value = byte.toNat % 128 + 128 * high) := by
  have hchain : (decodeGroups (groups + 1)).Accepts fun field value =>
      ∃ byte front back, field = front ++ back ∧ front = [byte] ∧
        ¬(groups = 0 ∧ 1 < byte.toNat % 128) ∧
        if byte.toNat < 128 then back = [] ∧ value = byte.toNat % 128
        else ∃ high inner last, back = inner ++ last ∧ spells inner high ∧
          last = [] ∧ value = byte.toNat % 128 + 128 * high :=
    accepts_bind accepts_byte fun _ => accepts_of_check <|
      accepts_ite (accepts_pure _) (accepts_bind haccepts fun _ => accepts_pure _)
  refine hchain.congr fun field value => ?_
  constructor
  · rintro ⟨byte, _, back, rfl, rfl, hroom, hrest⟩
    refine ⟨byte, back, rfl, hroom, ?_⟩
    by_cases hlast : byte.toNat < 128
    · rw [if_pos hlast] at hrest
      exact .inl ⟨hlast, hrest⟩
    · rw [if_neg hlast] at hrest
      obtain ⟨high, inner, _, rfl, hinner, rfl, hvalue⟩ := hrest
      rw [List.append_nil]
      exact .inr ⟨Nat.le_of_not_lt hlast, high, hinner, hvalue⟩
  · rintro ⟨byte, back, rfl, hroom, ⟨hlast, hrest⟩ | ⟨hmore, high, hhigh, hvalue⟩⟩
    · refine ⟨byte, [byte], back, rfl, rfl, hroom, ?_⟩
      rw [if_pos hlast]
      exact hrest
    · refine ⟨byte, [byte], back, rfl, rfl, hroom, ?_⟩
      rw [if_neg (Nat.not_lt.mpr hmore)]
      exact ⟨high, back, [], (List.append_nil back).symm, hhigh, rfl, hvalue⟩

/-- The last group that there is room for holds one bit and each one before it seven. -/
theorem decodeGroups_accepts (groups : Nat) :
    (decodeGroups groups).Accepts fun field value =>
      Terminated field ∧ field.length ≤ groups ∧ groupsValue field = value ∧
        value < 2 * 128 ^ (groups - 1) := by
  induction groups with
  | zero =>
      refine (accepts_throw _).congr fun field value => ⟨False.elim, ?_⟩
      rintro ⟨hterminated, hlength, -, -⟩
      exact hterminated.ne_nil (List.length_eq_zero_iff.mp (Nat.le_zero.mp hlength))
  | succ groups ih =>
      refine (decodeGroups_succ_accepts ih).congr fun field value => ?_
      rw [Nat.add_sub_cancel]
      constructor
      · rintro ⟨byte, back, rfl, hroom, hcases⟩
        rcases hcases with ⟨hlast, rfl, rfl⟩ | ⟨hmore, high, ⟨hback, hlength, rfl, hhigh⟩, rfl⟩
        · refine ⟨terminated_cons_iff.mpr (.inl ⟨hlast, rfl⟩), Nat.le_add_left _ _, rfl, ?_⟩
          cases groups with
          | zero => omega
          | succ groups =>
              have hpower : 128 ≤ 128 ^ (groups + 1) := Nat.le_self_pow (by omega) 128
              omega
        · refine ⟨terminated_cons_iff.mpr (.inr ⟨hmore, hback⟩), Nat.succ_le_succ hlength, rfl, ?_⟩
          obtain ⟨groups, rfl⟩ : ∃ more, groups = more + 1 :=
            Nat.exists_eq_add_one.mpr
              (Nat.lt_of_lt_of_le (List.length_pos_iff.mpr hback.ne_nil) hlength)
          rw [Nat.add_sub_cancel] at hhigh
          rw [Nat.pow_succ]
          omega
      · rintro ⟨hterminated, hlength, rfl, hvalue⟩
        obtain ⟨byte, back, rfl⟩ := List.exists_cons_of_ne_nil hterminated.ne_nil
        refine ⟨byte, back, rfl, ?_, ?_⟩
        · rintro ⟨rfl, hroom⟩
          rw [groupsValue] at hvalue
          omega
        rcases terminated_cons_iff.mp hterminated with ⟨hlast, rfl⟩ | ⟨hmore, hback⟩
        · exact .inl ⟨hlast, rfl, rfl⟩
        · have hlength' : back.length ≤ groups := Nat.le_of_succ_le_succ hlength
          obtain ⟨groups, rfl⟩ : ∃ more, groups = more + 1 :=
            Nat.exists_eq_add_one.mpr
              (Nat.lt_of_lt_of_le (List.length_pos_iff.mpr hback.ne_nil) hlength')
          refine .inr ⟨hmore, groupsValue back, ⟨hback, hlength', rfl, ?_⟩, rfl⟩
          rw [groupsValue, Nat.pow_succ] at hvalue
          rw [Nat.add_sub_cancel]
          omega

/-- An integer is given just where one of its spellings stands. -/
theorem decode_accepts : decode.Accepts Spells := by
  refine (decodeGroups_accepts maxLength).congr fun field value => ⟨?_, ?_⟩
  · rintro ⟨hterminated, hlength, hvalue, hfits⟩
    exact ⟨hterminated, hlength, hvalue, hfits⟩
  · rintro ⟨hterminated, hlength, hvalue, hfits⟩
    exact ⟨hterminated, hlength, hvalue, hfits⟩

end Varint

namespace Records

/-- A record is spelled with its length in front. -/
def SpellsRecord (field record : Bytes) : Prop :=
  ∃ length, field = length ++ record ∧ Varint.Spells length record.length ∧
    record.length ≤ maxLength

theorem decodeRecord_accepts : decodeRecord.Accepts SpellsRecord := by
  have hchain : decodeRecord.Accepts fun field record =>
      ∃ length front back, field = front ++ back ∧ Varint.Spells front length ∧
        ¬maxLength < length ∧ back = record ∧ record.length = length :=
    accepts_bind Varint.decode_accepts fun length => accepts_of_check (accepts_takeOr length _)
  refine hchain.congr fun field record => ?_
  constructor
  · rintro ⟨_, front, _, rfl, hfront, hlength, rfl, rfl⟩
    exact ⟨front, rfl, hfront, Nat.le_of_not_lt hlength⟩
  · rintro ⟨front, rfl, hfront, hlength⟩
    exact ⟨_, front, record, rfl, hfront, Nat.not_lt.mpr hlength, rfl, rfl⟩

/-- A list is spelled as the number of its records and the records. -/
def Spells (field : Bytes) (records : List Bytes) : Prop :=
  ∃ count fields, field = count ++ fields ∧ Varint.Spells count records.length ∧
    records.length ≤ maxCount ∧ SpellsAll SpellsRecord fields records

theorem decode_accepts : decode.Accepts Spells := by
  have hchain : decode.Accepts fun field records =>
      ∃ count front back, field = front ++ back ∧ Varint.Spells front count ∧
        ¬maxCount < count ∧ SpellsAll SpellsRecord back records ∧ records.length = count :=
    accepts_bind Varint.decode_accepts fun count =>
      accepts_of_check (accepts_times decodeRecord_accepts count)
  refine hchain.congr fun field records => ?_
  constructor
  · rintro ⟨_, front, back, rfl, hfront, hcount, hback, rfl⟩
    exact ⟨front, back, rfl, hfront, Nat.le_of_not_lt hcount, hback⟩
  · rintro ⟨front, back, rfl, hfront, hcount, hback⟩
    exact ⟨_, front, back, rfl, hfront, Nat.not_lt.mpr hcount, hback, rfl⟩

end Records

namespace PropertyTable

/-- A table is spelled as its values alone. -/
def Spells (field : Bytes) (table : PropertyTable) : Prop :=
  SpellsAll (fun word value => Varint.Spells word value.toNat) field table.values

/-- Integers below `2 ^ 64` are words. -/
theorem spellsAll_map_ofNat {field : Bytes} {values : List Nat}
    (hvalues : SpellsAll Varint.Spells field values) :
    SpellsAll (fun word (value : UInt64) => Varint.Spells word value.toNat) field
      (values.map UInt64.ofNat) := by
  obtain ⟨fields, rfl, hfields⟩ := hvalues
  refine ⟨fields, rfl, List.forall₂_map_right_iff.mpr (hfields.imp fun word value hword => ?_)⟩
  rw [UInt64.toNat_ofNat_of_lt' hword.value_lt]
  exact hword

theorem decode_accepts (count : Nat) :
    (decode count).Accepts fun field table => Spells field table ∧ table.size = count := by
  have hchain : (decode count).Accepts fun field table =>
      ∃ values front back, field = front ++ back ∧
        (SpellsAll Varint.Spells front values ∧ values.length = count) ∧
        back = [] ∧ table = ⟨values.map UInt64.ofNat⟩ :=
    accepts_bind (accepts_times Varint.decode_accepts count) fun _ => accepts_pure _
  refine hchain.congr fun field table => ?_
  constructor
  · rintro ⟨values, front, _, rfl, ⟨hvalues, rfl⟩, rfl, rfl⟩
    rw [List.append_nil]
    exact ⟨spellsAll_map_ofNat hvalues, List.length_map _⟩
  · rintro ⟨⟨fields, rfl, hfields⟩, rfl⟩
    refine ⟨table.values.map (·.toNat), fields.flatten, [], (List.append_nil _).symm,
      ⟨⟨fields, rfl, ?_⟩, List.length_map _⟩, rfl, ?_⟩
    · exact List.forall₂_map_right_iff.mpr hfields
    · simp [Function.comp_def]

end PropertyTable

end ScriptBundle
