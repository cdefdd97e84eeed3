import ScriptBundle.Proofs.Layout.Groups
import ScriptBundle.Proofs.Script.RoundTrip
import ScriptBundle.Script.Engine

/-!
# What a loader takes from a stream

A loader on bytes in memory gets back a program that was saved, and takes exactly
its bytes.  Streams that hand out the same bytes are alike to a loader, whatever
they count beside.
-/

namespace ScriptBundle

namespace Loader

variable {σ τ α β : Type}

/-! ## Runs -/

@[simp]
theorem runOn_pure (value : α) (stream : Counted σ) :
    (pure value : Loader σ α).runOn stream = (.ok value, stream) := rfl

@[simp]
theorem runOn_throw (fault : LoadFault) (stream : Counted σ) :
    (throw fault : Loader σ α).runOn stream = (.error fault, stream) := rfl

/-- The second loader goes on where the first one stops. -/
theorem runOn_bind {loader : Loader σ α} {next : α → Loader σ β} {stream after : Counted σ}
    {value : α} (hrun : loader.runOn stream = (.ok value, after)) :
    (loader >>= next).runOn stream = (next value).runOn after := by
  change (ExceptT.bindCont next (loader.runOn stream).1).run (loader.runOn stream).2 = _
  rw [hrun]
  rfl

theorem runOn_bind_error {loader : Loader σ α} {next : α → Loader σ β}
    {stream after : Counted σ} {fault : LoadFault}
    (hrun : loader.runOn stream = (.error fault, after)) :
    (loader >>= next).runOn stream = (.error fault, after) := by
  change (ExceptT.bindCont next (loader.runOn stream).1).run (loader.runOn stream).2 = _
  rw [hrun]
  rfl

section Steps

variable [ByteStream σ]

theorem runOn_take (count : Nat) (stream : Counted σ) :
    (take count).runOn stream =
      (if (stream.read count).1.length = count then .ok (stream.read count).1
        else .error .endOfBytecode, (stream.read count).2) := rfl

theorem document_zero : (document 0 : Loader σ Bytes) = pure [] := by
  rw [document, if_pos rfl]

theorem document_of_ne_zero {remaining : Nat} (hremaining : remaining ≠ 0) :
    (document remaining : Loader σ Bytes) = do
      let chunk ← take (min remaining chunkLength)
      let rest ← document (remaining - min remaining chunkLength)
      return chunk ++ rest := by
  rw [document, if_neg hremaining]

/-- Every chunk makes the document shorter. -/
theorem sub_chunk_lt {remaining : Nat} (hremaining : remaining ≠ 0) :
    remaining - min remaining chunkLength < remaining := by
  rw [chunkLength]
  omega

end Steps

/-! ## Bytes in memory -/

/-- The loader gives `value` on `bytes`, whatever comes after them, and counts just
these bytes. -/
def Reads (loader : Loader Bytes α) (bytes : Bytes) (value : α) : Prop :=
  ∀ rest offset, loader.runOn ⟨bytes ++ rest, offset⟩ =
    (.ok value, ⟨rest, offset + bytes.length⟩)

theorem reads_pure (value : α) : (pure value : Loader Bytes α).Reads [] value := by
  intro rest offset
  rfl

theorem reads_bind {loader : Loader Bytes α} {next : α → Loader Bytes β} {front back : Bytes}
    {value : α} {result : β} (hfirst : loader.Reads front value)
    (hnext : (next value).Reads back result) :
    (loader >>= next).Reads (front ++ back) result := by
  intro rest offset
  rw [List.append_assoc, runOn_bind (hfirst (back ++ rest) offset),
    hnext rest (offset + front.length), List.length_append, Nat.add_assoc]

theorem reads_map {loader : Loader Bytes α} (f : α → β) {bytes : Bytes} {value : α}
    (hreads : loader.Reads bytes value) :
    (do return f (← loader)).Reads bytes (f value) := by
  have hbind : (loader >>= fun value => pure (f value)).Reads (bytes ++ []) (f value) :=
    reads_bind hreads (reads_pure (f value))
  rw [List.append_nil] at hbind
  exact hbind

theorem reads_take (bytes : Bytes) : (take bytes.length).Reads bytes bytes := by
  intro rest offset
  have hread : (Counted.mk (bytes ++ rest) offset).read bytes.length =
      (bytes, ⟨rest, offset + bytes.length⟩) := by
    simp only [Counted.read, ByteStream.read, List.take_left, List.drop_left]
  rw [runOn_take, hread, if_pos rfl]

theorem reads_byte (value : UInt8) : (byte : Loader Bytes UInt8).Reads [value] value :=
  reads_map (fun bytes : Bytes => bytes.headD 0) (reads_take [value])

/-- Where groups have room, the low one keeps clear of the higher ones. -/
theorem mod_add_mod_groups {low high shift : Nat} (hlow : low < 128) (hshift : shift + 7 ≤ 64) :
    low * 2 ^ shift % UInt64.size + high * 2 ^ (shift + 7) % UInt64.size =
      (low + 128 * high) * 2 ^ shift % UInt64.size := by
  have hsize : UInt64.size = 2 ^ (shift + 7) * 2 ^ (64 - (shift + 7)) := by
    rw [← Nat.pow_add, Nat.add_sub_cancel' hshift]
  have hpower : 2 ^ (shift + 7) = 128 * 2 ^ shift := by rw [Nat.pow_add, Nat.mul_comm]
  have hroom : low * 2 ^ shift < 2 ^ (shift + 7) := by
    rw [hpower]
    exact Nat.mul_lt_mul_of_pos_right hlow (Nat.pow_pos (by decide))
  have hsplit : (low + 128 * high) * 2 ^ shift = low * 2 ^ shift + 2 ^ (shift + 7) * high := by
    rw [hpower, Nat.add_mul, Nat.mul_right_comm]
  have hsmall : low * 2 ^ shift < UInt64.size :=
    Nat.lt_of_lt_of_le hroom (Nat.pow_le_pow_right (by decide) hshift)
  calc low * 2 ^ shift % UInt64.size + high * 2 ^ (shift + 7) % UInt64.size
    _ = low * 2 ^ shift + 2 ^ (shift + 7) * (high % 2 ^ (64 - (shift + 7))) := by
        rw [Nat.mod_eq_of_lt hsmall, hsize, Nat.mul_comm high, Nat.mul_mod_mul_left]
    _ = (low * 2 ^ shift + 2 ^ (shift + 7) * high) % UInt64.size := by
        rw [hsize, Nat.mod_mul, Nat.add_mul_mod_self_left, Nat.mod_eq_of_lt hroom,
          Nat.add_mul_div_left _ _ (Nat.pow_pos (by decide)), Nat.div_eq_of_lt hroom, Nat.zero_add]
    _ = (low + 128 * high) * 2 ^ shift % UInt64.size := by rw [hsplit]

/-- A length that ends in time is read without the bits that have no room. -/
theorem reads_length {field : Bytes} (groups shift : Nat) (hfield : Varint.Terminated field)
    (hgroups : field.length ≤ groups) (hshift : 7 * groups + shift = 70) :
    (length groups shift).Reads field
      (Varint.groupsValue field * 2 ^ shift % UInt64.size) := by
  induction groups generalizing field shift with
  | zero => exact absurd (List.length_eq_zero_iff.mp (Nat.le_zero.mp hgroups)) hfield.ne_nil
  | succ groups ih =>
      obtain ⟨byte, back, rfl⟩ := List.exists_cons_of_ne_nil hfield.ne_nil
      refine reads_bind (reads_byte byte) ?_
      rcases Varint.terminated_cons_iff.mp hfield with ⟨hlast, rfl⟩ | ⟨hmore, hback⟩
      · simp only [if_pos hlast, Varint.groupsValue, Nat.mul_zero, Nat.add_zero]
        exact reads_pure _
      · have hlength : back.length ≤ groups := Nat.le_of_succ_le_succ hgroups
        have hpos := List.length_pos_iff.mpr hback.ne_nil
        have hrest := reads_map (byte.toNat % 128 * 2 ^ shift % UInt64.size + ·)
          (ih (shift + 7) hback hlength (by omega))
        simp only [mod_add_mod_groups (Nat.mod_lt byte.toNat (by decide : 128 > 0))
          (show shift + 7 ≤ 64 by omega)] at hrest
        simp only [if_neg (Nat.not_lt.mpr hmore)]
        exact hrest

/-- A document is put together from its chunks. -/
theorem reads_document (bytes : Bytes) : (document bytes.length).Reads bytes bytes := by
  induction hlength : bytes.length using Nat.strongRecOn generalizing bytes with
  | ind length ih =>
      by_cases hremaining : length = 0
      · obtain rfl : bytes = [] := List.eq_nil_of_length_eq_zero (hlength.trans hremaining)
        rw [hremaining, document_zero]
        exact reads_pure []
      · rw [document_of_ne_zero hremaining]
        have hchunk : (bytes.take chunkLength).length = min length chunkLength := by
          rw [List.length_take, hlength, Nat.min_comm]
        have hothers : (bytes.drop chunkLength).length = length - min length chunkLength := by
          rw [List.length_drop, hlength]
          omega
        have hsplit := List.take_append_drop chunkLength bytes
        generalize bytes.take chunkLength = front at *
        generalize bytes.drop chunkLength = back at *
        subst hsplit
        have hfirst := reads_take front
        rw [hchunk] at hfirst
        exact reads_bind hfirst
          (reads_map (front ++ ·) (ih _ (sub_chunk_lt hremaining) back hothers))

/-- A saved program is read off the front of a stream. -/
theorem reads_program (saved : Program) (hlength : saved.document.length < UInt64.size) :
    program.Reads saved.encode saved := by
  have hspells := Varint.spells_encode hlength
  have hfront := reads_length Varint.maxLength 0 hspells.terminated hspells.length_le rfl
  rw [Nat.pow_zero, Nat.mul_one, hspells.value_eq, Nat.mod_eq_of_lt hlength] at hfront
  refine reads_bind hfront ?_
  refine Eq.mp (congrArg (Reads _ · saved) (List.append_nil saved.document)) ?_
  refine reads_bind (reads_document saved.document) ?_
  rw [saved.parse?_document]
  exact reads_pure saved

/-! ## Streams that are alike -/

/-- On related streams both loaders have the same outcome, and they leave the
streams related. -/
def Agree (related : Counted σ → Counted τ → Prop) (left : Loader σ α) (right : Loader τ α) :
    Prop :=
  ∀ first second, related first second →
    (left.runOn first).1 = (right.runOn second).1 ∧
      related (left.runOn first).2 (right.runOn second).2

section Agreement

variable {related : Counted σ → Counted τ → Prop}

theorem agree_pure (value : α) : Agree related (pure value) (pure value) :=
  fun _ _ hrelated => ⟨rfl, hrelated⟩

theorem agree_throw (fault : LoadFault) :
    Agree related (throw fault : Loader σ α) (throw fault : Loader τ α) :=
  fun _ _ hrelated => ⟨rfl, hrelated⟩

theorem agree_bind {left : Loader σ α} {right : Loader τ α} {nextLeft : α → Loader σ β}
    {nextRight : α → Loader τ β} (hfirst : Agree related left right)
    (hnext : ∀ value, Agree related (nextLeft value) (nextRight value)) :
    Agree related (left >>= nextLeft) (right >>= nextRight) := by
  intro first second hrelated
  obtain ⟨hsame, hafter⟩ := hfirst first second hrelated
  cases hleft : left.runOn first with
  | mk outcome firstAfter =>
      cases hright : right.runOn second with
      | mk outcome' secondAfter =>
          rw [hleft, hright] at hsame hafter
          obtain rfl : outcome = outcome' := hsame
          cases outcome with
          | error fault =>
              rw [runOn_bind_error hleft, runOn_bind_error hright]
              exact ⟨rfl, hafter⟩
          | ok value =>
              rw [runOn_bind hleft, runOn_bind hright]
              exact hnext value firstAfter secondAfter hafter

variable [ByteStream σ] [ByteStream τ]

/-- Related streams hand out the same bytes and stay related. -/
def HandsOutAlike (related : Counted σ → Counted τ → Prop) : Prop :=
  ∀ count first second, related first second →
    (first.read count).1 = (second.read count).1 ∧
      related (first.read count).2 (second.read count).2

variable (halike : HandsOutAlike related)

include halike

theorem agree_take (count : Nat) : Agree related (take count) (take count) := by
  intro first second hrelated
  obtain ⟨hbytes, hafter⟩ := halike count first second hrelated
  rw [runOn_take, runOn_take, hbytes]
  exact ⟨rfl, hafter⟩

theorem agree_byte : Agree related byte byte :=
  agree_bind (agree_take halike 1) fun bytes => agree_pure (bytes.headD 0)

theorem agree_length (groups shift : Nat) :
    Agree related (length groups shift) (length groups shift) := by
  induction groups generalizing shift with
  | zero => exact agree_bind (agree_byte halike) fun _ => agree_throw .lengthOverflow
  | succ groups ih =>
      refine agree_bind (agree_byte halike) fun byte => ?_
      simp only
      split
      · exact agree_pure _
      · exact agree_bind (ih (shift + 7)) fun high => agree_pure _

theorem agree_document (remaining : Nat) :
    Agree related (document remaining) (document remaining) := by
  induction remaining using Nat.strongRecOn with
  | ind remaining ih =>
      by_cases hremaining : remaining = 0
      · rw [hremaining, document_zero, document_zero]
        exact agree_pure []
      · rw [document_of_ne_zero hremaining, document_of_ne_zero hremaining]
        refine agree_bind (agree_take halike _) fun chunk => ?_
        exact agree_bind (ih _ (sub_chunk_lt hremaining)) fun rest => agree_pure (chunk ++ rest)

/-- What is loaded depends only on the bytes that a stream hands out. -/
theorem agree_program : Agree related program program := by
  refine agree_bind (agree_length halike _ _) fun length => ?_
  refine agree_bind (agree_document halike length) fun document => ?_
  split
  · exact agree_pure _
  · exact agree_throw .invalidProgram

end Agreement

end Loader

end ScriptBundle
