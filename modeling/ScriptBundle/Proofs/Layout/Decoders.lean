import Mathlib.Data.List.Basic
import ScriptBundle.Bytes

/-!
# Decoders that read back what was written

A decoder reads a value off some bytes if it gives the value and leaves what
follows them, whatever that is.  Because nothing is asked of what follows, such
facts can be put together like the decoders themselves.
-/

namespace ScriptBundle.Decoder

variable {α β : Type}

@[simp]
theorem read_pure (value : α) (bytes : Bytes) :
    (pure value : Decoder α).read bytes = (.ok value, bytes) := rfl

/-- The second decoder goes on where the first one stops. -/
theorem read_bind {decoder : Decoder α} {next : α → Decoder β} {bytes rest : Bytes} {value : α}
    (hread : decoder.read bytes = (.ok value, rest)) :
    (decoder >>= next).read bytes = (next value).read rest := by
  change (ExceptT.bindCont next (decoder.read bytes).1).run (decoder.read bytes).2 = _
  rw [hread]
  rfl

/-- A chain stops where its first decoder fails. -/
theorem read_bind_error {decoder : Decoder α} {next : α → Decoder β} {bytes rest : Bytes}
    {fault : Fault} (hread : decoder.read bytes = (.error fault, rest)) :
    (decoder >>= next).read bytes = (.error fault, rest) := by
  change (ExceptT.bindCont next (decoder.read bytes).1).run (decoder.read bytes).2 = _
  rw [hread]
  rfl

/-- A chain that gives a value has one from each of its decoders. -/
theorem exists_of_read_bind_eq_ok {decoder : Decoder α} {next : α → Decoder β}
    {bytes rest : Bytes} {result : β}
    (hread : (decoder >>= next).read bytes = (.ok result, rest)) :
    ∃ value middle, decoder.read bytes = (.ok value, middle) ∧
      (next value).read middle = (.ok result, rest) := by
  cases hfirst : decoder.read bytes with
  | mk outcome middle =>
      cases outcome with
      | error fault =>
          rw [read_bind_error hfirst] at hread
          cases hread
      | ok value =>
          rw [read_bind hfirst] at hread
          exact ⟨value, middle, rfl, hread⟩

theorem read_bind_eq_ok_iff {decoder : Decoder α} {next : α → Decoder β} {bytes rest : Bytes}
    {result : β} :
    (decoder >>= next).read bytes = (.ok result, rest) ↔
      ∃ value middle, decoder.read bytes = (.ok value, middle) ∧
        (next value).read middle = (.ok result, rest) := by
  constructor
  · exact exists_of_read_bind_eq_ok
  · rintro ⟨value, middle, hfirst, hnext⟩
    rw [read_bind hfirst, hnext]

/-- The decoder gives `value` on `bytes`, whatever comes after them, and leaves
just that. -/
def Reads (decoder : Decoder α) (bytes : Bytes) (value : α) : Prop :=
  ∀ rest, decoder.read (bytes ++ rest) = (.ok value, rest)

theorem Reads.of_read_nil {decoder : Decoder α} {bytes : Bytes} {value : α}
    (hreads : decoder.Reads bytes value) : decoder.read bytes = (.ok value, []) := by
  simpa using hreads []

theorem reads_pure (value : α) : (pure value : Decoder α).Reads [] value := by
  intro rest
  rfl

theorem reads_bind {decoder : Decoder α} {next : α → Decoder β} {front back : Bytes}
    {value : α} {result : β} (hfirst : decoder.Reads front value)
    (hnext : (next value).Reads back result) :
    (decoder >>= next).Reads (front ++ back) result := by
  intro rest
  rw [List.append_assoc, read_bind (hfirst (back ++ rest))]
  exact hnext rest

theorem reads_map {decoder : Decoder α} (f : α → β) {bytes : Bytes} {value : α}
    (hreads : decoder.Reads bytes value) : (f <$> decoder).Reads bytes (f value) := by
  have hbind : (decoder >>= fun value => pure (f value)).Reads (bytes ++ []) (f value) :=
    reads_bind hreads (reads_pure (f value))
  rw [List.append_nil] at hbind
  exact hbind

/-- A check that the value passes changes nothing. -/
theorem reads_of_check {decoder : Decoder α} {condition : Prop} [Decidable condition]
    {fault : Fault} {bytes : Bytes} {value : α} (hcheck : ¬condition)
    (hreads : decoder.Reads bytes value) :
    (if condition then throw fault else decoder).Reads bytes value := by
  rw [if_neg hcheck]
  exact hreads

@[simp]
theorem read_byte_cons (byte : UInt8) (rest : Bytes) :
    Decoder.byte.read (byte :: rest) = (.ok byte, rest) := rfl

theorem read_takeOr (count : Nat) (short : Nat → Fault) (bytes : Bytes) :
    (takeOr count short).read bytes =
      if (bytes.take count).length = count then (.ok (bytes.take count), bytes.drop count)
      else (.error (short (bytes.take count).length), []) := rfl

theorem reads_takeOr (bytes : Bytes) (short : Nat → Fault) :
    (takeOr bytes.length short).Reads bytes bytes := by
  intro rest
  rw [read_takeOr, List.take_left, List.drop_left, if_pos rfl]

/-- Items written one after the other are read one after the other. -/
theorem reads_times {item : Decoder α} {encode : α → Bytes} (values : List α)
    (hitem : ∀ value ∈ values, item.Reads (encode value) value) :
    (item.times values.length).Reads (values.flatMap encode) values := by
  induction values with
  | nil => exact reads_pure []
  | cons value values ih =>
      have hrest := ih fun other hother => hitem other (List.mem_cons_of_mem _ hother)
      have hfirst := hitem value List.mem_cons_self
      exact reads_bind hfirst (reads_map (value :: ·) hrest)

/-- As many items are read as were asked for. -/
theorem length_of_read_times_eq_ok {item : Decoder α} {count : Nat} {bytes rest : Bytes}
    {values : List α} (hread : (item.times count).read bytes = (.ok values, rest)) :
    values.length = count := by
  induction count generalizing bytes values with
  | zero =>
      rw [times, read_pure] at hread
      cases hread
      rfl
  | succ count ih =>
      rw [times] at hread
      obtain ⟨first, middle, -, hread⟩ := exists_of_read_bind_eq_ok hread
      obtain ⟨others, last, hothers, hread⟩ := exists_of_read_bind_eq_ok hread
      rw [read_pure] at hread
      cases hread
      rw [List.length_cons, ih hothers]

/-- Items are read in two goes as in one. -/
theorem read_times_add_eq_ok_iff {item : Decoder α} {first second : Nat} {bytes rest : Bytes}
    {values : List α} :
    (item.times (first + second)).read bytes = (.ok values, rest) ↔
      ∃ front back middle, (item.times first).read bytes = (.ok front, middle) ∧
        (item.times second).read middle = (.ok back, rest) ∧ values = front ++ back := by
  induction first generalizing bytes rest values with
  | zero => simp [times]
  | succ first ih =>
      rw [Nat.succ_add]
      simp only [times, read_bind_eq_ok_iff, ih, read_pure, Prod.mk.injEq, Except.ok.injEq]
      constructor
      · rintro ⟨value, middle, hvalue, others, last, ⟨front, back, between, hfront, hback, rfl⟩,
          rfl, rfl⟩
        exact ⟨value :: front, back, between, ⟨value, middle, hvalue, front, between, hfront, rfl,
          rfl⟩, hback, rfl⟩
      · rintro ⟨_, back, _, ⟨value, middle, hvalue, front, between, hfront, rfl, rfl⟩, hback, rfl⟩
        exact ⟨value, middle, hvalue, front ++ back, rest, ⟨front, back, between, hfront, hback,
          rfl⟩, rfl, rfl⟩

/-! ## Failures -/

/-- The decoder fails on `bytes`, with a fault of one class. -/
def FailsWith (decoder : Decoder α) (bytes : Bytes) (kind : Fault.Kind) : Prop :=
  ∃ fault rest, decoder.read bytes = (.error fault, rest) ∧ fault.kind = kind

theorem failsWith_iff_of_read_eq_error {decoder : Decoder α} {bytes rest : Bytes} {fault : Fault}
    (hread : decoder.read bytes = (.error fault, rest)) (kind : Fault.Kind) :
    decoder.FailsWith bytes kind ↔ fault.kind = kind := by
  constructor
  · rintro ⟨fault', rest', hread', hkind⟩
    cases hread.symm.trans hread'
    exact hkind
  · intro hkind
    exact ⟨fault, rest, hread, hkind⟩

theorem not_failsWith_of_read_eq_ok {decoder : Decoder α} {bytes rest : Bytes} {value : α}
    (hread : decoder.read bytes = (.ok value, rest)) (kind : Fault.Kind) :
    ¬decoder.FailsWith bytes kind := by
  rintro ⟨fault, rest', hread', -⟩
  cases hread.symm.trans hread'

/-! ## Refusals -/

/-- The decoder fails on `bytes`, whatever comes after them. -/
def Refuses (decoder : Decoder α) (bytes : Bytes) : Prop :=
  ∀ rest, ∃ fault after, decoder.read (bytes ++ rest) = (.error fault, after)

theorem refuses_throw (fault : Fault) (bytes : Bytes) : (throw fault : Decoder α).Refuses bytes :=
  fun rest => ⟨fault, bytes ++ rest, rfl⟩

/-- A chain fails with its first decoder. -/
theorem Refuses.bind {decoder : Decoder α} {front : Bytes} (hrefuses : decoder.Refuses front)
    (next : α → Decoder β) (back : Bytes) : (decoder >>= next).Refuses (front ++ back) := by
  intro rest
  obtain ⟨fault, after, hread⟩ := hrefuses (back ++ rest)
  rw [List.append_assoc]
  exact ⟨fault, after, read_bind_error hread⟩

/-- A chain fails where its second decoder does. -/
theorem refuses_bind {decoder : Decoder α} {next : α → Decoder β} {front back : Bytes} {value : α}
    (hfirst : decoder.Reads front value) (hnext : (next value).Refuses back) :
    (decoder >>= next).Refuses (front ++ back) := by
  intro rest
  obtain ⟨fault, after, hread⟩ := hnext rest
  rw [List.append_assoc, read_bind (hfirst (back ++ rest))]
  exact ⟨fault, after, hread⟩

/-- Items are read up to the first one that is refused. -/
theorem refuses_times {item : Decoder α} {encode : α → Bytes} (values : List α)
    (hitem : ∀ value ∈ values, item.Reads (encode value) value ∨ item.Refuses (encode value))
    (hrefused : ∃ value ∈ values, item.Refuses (encode value)) :
    (item.times values.length).Refuses (values.flatMap encode) := by
  induction values with
  | nil =>
      obtain ⟨value, hvalue, -⟩ := hrefused
      cases hvalue
  | cons value values ih =>
      rw [List.flatMap_cons]
      by_cases hhead : item.Refuses (encode value)
      · exact hhead.bind _ _
      · have hreads := (hitem value List.mem_cons_self).resolve_right hhead
        obtain ⟨other, hother, hrefuses⟩ := hrefused
        have htail : other ∈ values := by
          rcases List.mem_cons.mp hother with rfl | htail
          · exact absurd hrefuses hhead
          · exact htail
        have hrest := ih (fun value hvalue => hitem value (List.mem_cons_of_mem _ hvalue))
          ⟨other, htail, hrefuses⟩
        have hnext := hrest.bind (fun others => pure (value :: others)) []
        rw [List.append_nil] at hnext
        exact refuses_bind hreads hnext

end ScriptBundle.Decoder
