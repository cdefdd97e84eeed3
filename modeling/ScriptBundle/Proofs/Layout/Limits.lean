import ScriptBundle.Proofs.Layout.Groups

/-!
# What the readers refuse

The writers check fewer bounds than the readers.  A list or a record that is too
long is written and then refused.  A property table is another case: its size is
not written, so a reader that expects another size takes a part of the table, or
takes integers from what follows it.
-/

namespace ScriptBundle

open Decoder

namespace Varint

/-- An integer that does not fit in 64 bits is refused. -/
theorem decode_refuses {value : Nat} (hvalue : UInt64.size ≤ value) :
    decode.Refuses (encode value) := by
  intro rest
  cases hread : decode.read (encode value ++ rest) with
  | mk outcome after =>
      cases outcome with
      | error fault => exact ⟨fault, after, rfl⟩
      | ok found =>
          obtain ⟨field, hsame, hspells⟩ := (decode_accepts _ _ _).mp hread
          obtain ⟨hterminated, hwritten⟩ := terminated_encode value
          obtain rfl := hterminated.eq_of_append_eq hspells.terminated hsame
          have hfits := hspells.value_lt
          rw [← hspells.value_eq, hwritten] at hfits
          omega

/-- A number that is read and then found too large is refused, whatever its length. -/
theorem checked_refuses {α : Type} {value limit : Nat} (hlimit : limit < value)
    (fault : Nat → Fault) (next : Nat → Decoder α) (bytes : Bytes) :
    (do
      let found ← decode
      if limit < found then throw (fault found) else next found).Refuses
        (encode value ++ bytes) := by
  rcases Nat.lt_or_ge value UInt64.size with hfits | hlarge
  · refine refuses_bind (decode_reads value hfits) ?_
    rw [if_pos hlimit]
    exact refuses_throw _ _
  · exact (decode_refuses hlarge).bind _ _

end Varint

namespace Records

/-- A record list beyond the limits is refused. -/
theorem decode_refuses {records : List Bytes} (hlimits : ¬WithinLimits records) :
    decode.Refuses (encode records) := by
  rcases Nat.lt_or_ge maxCount records.length with hcount | hcount
  · exact Varint.checked_refuses hcount _ _ _
  · have hlong : ∃ record ∈ records, maxLength < record.length := by
      simpa [WithinLimits, hcount] using hlimits
    have hrefuses (record : Bytes) (hlength : maxLength < record.length) :
        decodeRecord.Refuses (encodeRecord record) :=
      Varint.checked_refuses hlength _ _ _
    refine refuses_bind
      (Varint.decode_reads records.length (Nat.lt_of_le_of_lt hcount (by decide))) ?_
    rw [if_neg (Nat.not_lt.mpr hcount)]
    refine refuses_times records (fun record _ => ?_) ?_
    · rcases Nat.lt_or_ge maxLength record.length with hlength | hlength
      · exact .inr (hrefuses record hlength)
      · exact .inl (decodeRecord_reads record hlength)
    · obtain ⟨record, hrecord, hlength⟩ := hlong
      exact ⟨record, hrecord, hrefuses record hlength⟩

end Records

namespace DataSection

/-- A section can be written whose resources are refused. -/
theorem decode_refuses {content : DataSection} {data : Bytes}
    (hencode : content.encode = .ok data) (hresources : ¬Records.WithinLimits content.resources) :
    decode.Refuses data := by
  rw [encode_eq_ok content (length_of_encode_eq_ok hencode), Except.ok.injEq] at hencode
  rw [← hencode, List.append_assoc]
  exact (Records.decode_refuses hresources).bind _ _

end DataSection

namespace PropertyTable

/-- The first slots of a table. -/
def front (table : PropertyTable) (count : Nat) : PropertyTable :=
  ⟨table.values.take count⟩

/-- The slots behind them. -/
def behind (table : PropertyTable) (count : Nat) : PropertyTable :=
  ⟨table.values.drop count⟩

theorem encode_front_append (table : PropertyTable) (count : Nat) :
    (table.front count).encode ++ (table.behind count).encode = table.encode := by
  simp only [encode, front, behind]
  rw [← List.flatMap_append, List.take_append_drop]

theorem size_front {table : PropertyTable} {count : Nat} (hcount : count ≤ table.size) :
    (table.front count).size = count := by
  rw [size, front, List.length_take]
  exact Nat.min_eq_left hcount

/-- A reader that expects fewer slots takes the first ones. -/
theorem decode_front_reads {table : PropertyTable} {count : Nat} (hcount : count ≤ table.size) :
    (decode count).Reads (table.front count).encode (table.front count) := by
  have hreads := decode_reads (table.front count)
  rw [size_front hcount] at hreads
  exact hreads

/-- A reader that expects more slots needs further integers behind the table. -/
theorem exists_read_decode_iff (table : PropertyTable) (count : Nat) (bytecode : Bytes) :
    (∃ found rest, (decode count).read (table.encode ++ bytecode) = (.ok found, rest)) ↔
      ∃ values rest,
        (times Varint.decode (count - table.size)).read bytecode = (.ok values, rest) := by
  have hdecode {count : Nat} {bytes : Bytes} :
      (∃ found rest, (decode count).read bytes = (.ok found, rest)) ↔
        ∃ values rest, (times Varint.decode count).read bytes = (.ok values, rest) := by
    constructor
    · rintro ⟨found, rest, hread⟩
      obtain ⟨values, middle, hvalues, -⟩ := exists_of_read_bind_eq_ok hread
      exact ⟨values, middle, hvalues⟩
    · rintro ⟨values, rest, hvalues⟩
      exact ⟨_, rest, (read_bind hvalues).trans (read_pure _ _)⟩
  rcases Nat.le_total count table.size with hfewer | hmore
  · have hfront := decode_front_reads hfewer ((table.behind count).encode ++ bytecode)
    rw [← List.append_assoc, encode_front_append] at hfront
    rw [Nat.sub_eq_zero_of_le hfewer]
    exact ⟨fun _ => ⟨[], bytecode, rfl⟩, fun _ => ⟨_, _, hfront⟩⟩
  · obtain ⟨extra, rfl⟩ := Nat.exists_eq_add_of_le hmore
    obtain ⟨values, middle, hvalues, hmiddle⟩ :=
      exists_of_read_bind_eq_ok (decode_reads table bytecode)
    obtain ⟨-, rfl⟩ := Prod.mk.inj hmiddle
    rw [hdecode, Nat.add_sub_cancel_left]
    simp only [read_times_add_eq_ok_iff, hvalues]
    constructor
    · rintro ⟨all, rest, front, back, middle, hfront, hback, -⟩
      obtain ⟨-, rfl⟩ := Prod.mk.inj hfront
      exact ⟨back, rest, hback⟩
    · rintro ⟨back, rest, hback⟩
      exact ⟨values ++ back, rest, values, back, _, rfl, hback, rfl⟩

end PropertyTable

end ScriptBundle
