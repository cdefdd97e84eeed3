import ScriptBundle.Proofs.Layout.RoundTrip

/-!
# Cut fields

A decoder never looks behind what it takes.  So whatever it makes of some bytes it makes of all
longer ones, unless it has met their end, and a field that was cut is found to be cut wherever
that happened.
-/

namespace ScriptBundle

namespace Decoder

variable {α β : Type}

/-- The outcome stays the same when bytes are appended, unless it is that the bytes are at
their end. -/
def Settled (decoder : Decoder α) : Prop :=
  ∀ bytes, decoder.FailsWith bytes .unexpectedEnd ∨
    ∀ suffix, decoder.read (bytes ++ suffix) =
      ((decoder.read bytes).1, (decoder.read bytes).2 ++ suffix)

theorem settled_pure (value : α) : (pure value : Decoder α).Settled :=
  fun _ => .inr fun _ => rfl

theorem settled_throw (fault : Fault) : (throw fault : Decoder α).Settled :=
  fun _ => .inr fun _ => rfl

theorem settled_bind {decoder : Decoder α} {next : α → Decoder β} (hfirst : decoder.Settled)
    (hnext : ∀ value, (next value).Settled) : (decoder >>= next).Settled := by
  intro bytes
  cases hread : decoder.read bytes with
  | mk outcome rest =>
      cases outcome with
      | error fault =>
          rcases hfirst bytes with hcut | hsame
          · have hkind := (failsWith_iff_of_read_eq_error hread _).mp hcut
            exact .inl ⟨fault, rest, read_bind_error hread, hkind⟩
          · refine .inr fun suffix => ?_
            have hlonger := hsame suffix
            rw [hread] at hlonger
            rw [read_bind_error hlonger, read_bind_error hread]
      | ok value =>
          have hlonger := (hfirst bytes).resolve_left (not_failsWith_of_read_eq_ok hread _)
          rcases hnext value rest with ⟨fault, after, hcut, hkind⟩ | hsame
          · exact .inl ⟨fault, after, (read_bind hread).trans hcut, hkind⟩
          · refine .inr fun suffix => ?_
            have hlonger := hlonger suffix
            rw [hread] at hlonger
            rw [read_bind hlonger, read_bind hread]
            exact hsame suffix

theorem settled_ite {first second : Decoder α} {condition : Prop} [Decidable condition]
    (hfirst : first.Settled) (hsecond : second.Settled) :
    (if condition then first else second).Settled := by
  split
  · exact hfirst
  · exact hsecond

theorem settled_byte : Decoder.byte.Settled := by
  intro bytes
  cases bytes with
  | nil => exact .inl ⟨.endOfInput, [], rfl, rfl⟩
  | cons byte bytes => exact .inr fun _ => rfl

theorem settled_takeOr (count : Nat) {short : Nat → Fault}
    (hshort : ∀ held, (short held).kind = .unexpectedEnd) : (takeOr count short).Settled := by
  intro bytes
  simp only [FailsWith, read_takeOr]
  by_cases hfull : (bytes.take count).length = count
  · have hinside : count ≤ bytes.length := by
      rw [List.length_take] at hfull
      omega
    refine .inr fun suffix => ?_
    rw [List.take_append_of_le_length hinside, List.drop_append_of_le_length hinside,
      if_pos hfull, if_pos hfull]
  · rw [if_neg hfull]
    exact .inl ⟨_, _, rfl, hshort _⟩

theorem settled_times {item : Decoder α} (hitem : item.Settled) (count : Nat) :
    (item.times count).Settled := by
  induction count with
  | zero => exact settled_pure []
  | succ count ih =>
      exact settled_bind hitem fun first => settled_bind ih fun rest => settled_pure (first :: rest)

/-- Of a field that is read, every beginning but the whole is found to be cut. -/
theorem Settled.failsWith_of_cut {decoder : Decoder α} (hsettled : decoder.Settled)
    {field front : Bytes} {value : α} (hreads : decoder.Reads field value)
    (hbegins : front <+: field) (hcut : front ≠ field) :
    decoder.FailsWith front .unexpectedEnd := by
  obtain ⟨back, rfl⟩ := hbegins
  refine (hsettled front).resolve_right fun hsame => hcut ?_
  have hrest : (decoder.read front).2 ++ back = [] :=
    congrArg Prod.snd ((hsame back).symm.trans hreads.of_read_nil)
  rw [(List.append_eq_nil_iff.mp hrest).2, List.append_nil]

end Decoder

open Decoder

theorem Varint.settled_decodeGroups (groups : Nat) : (decodeGroups groups).Settled := by
  induction groups with
  | zero => exact settled_throw _
  | succ groups ih =>
      refine settled_bind settled_byte fun byte => ?_
      refine settled_ite (settled_throw _) (settled_ite (settled_pure _) ?_)
      exact settled_bind ih fun high => settled_pure _

theorem Varint.settled_decode : decode.Settled :=
  settled_decodeGroups maxLength

theorem Records.settled_decodeRecord : decodeRecord.Settled :=
  settled_bind Varint.settled_decode fun length =>
    settled_ite (settled_throw _) (settled_takeOr length fun _ => rfl)

theorem Records.settled_decode : decode.Settled :=
  settled_bind Varint.settled_decode fun count =>
    settled_ite (settled_throw _) (settled_times settled_decodeRecord count)

namespace DataSection

theorem settled_decodeLength : decodeLength.Settled :=
  settled_bind Varint.settled_decode fun _ => settled_ite (settled_pure _) (settled_throw _)

theorem settled_decode : decode.Settled :=
  settled_bind Records.settled_decode fun _ =>
    settled_bind settled_decodeLength fun length =>
      settled_bind (settled_takeOr length fun _ => rfl) fun _ => settled_pure _

/-- A section is read off the front of whatever follows it, and wherever it is cut, it is found
to be cut. -/
theorem decode_reads_and_failsWith_of_cut {content : DataSection} {data : Bytes}
    (hencode : content.encode = .ok data) (hresources : Records.WithinLimits content.resources) :
    decode.Reads data content ∧
      ∀ front, front <+: data → front ≠ data → decode.FailsWith front .unexpectedEnd := by
  have hblock := length_of_encode_eq_ok hencode
  rw [encode_eq_ok content hblock, Except.ok.injEq] at hencode
  have hreads := decode_reads content hblock hresources
  rw [hencode] at hreads
  exact ⟨hreads, fun front => settled_decode.failsWith_of_cut hreads⟩

end DataSection

end ScriptBundle
