import ScriptBundle.Proofs.Streaming.Mirrors
import ScriptBundle.Streaming.Decoding

/-!
# Decoding from a stream comes to decoding its data

A block reader runs a decoder on all that it holds and blames the stream if the data
ends too early in front of a defect.  A decoder on a stream learns of the defect when
a read brings nothing more.  The two agree on every part of a block, wherever the
defect is, whatever pieces the library moves and in whatever portions the records
are gathered, and so they agree on whole artifacts.
-/

namespace ScriptBundle

variable {τ α β : Type}

/-- A decoder leaves an end of what it is given, also if it fails. -/
def Decoder.Consumes (decoder : Decoder α) : Prop :=
  ∀ bytes, (decoder.read bytes).2 <:+ bytes

namespace Decoder

theorem consumes_bind {decoder : Decoder α} {next : α → Decoder β} (hfirst : decoder.Consumes)
    (hnext : ∀ value, (next value).Consumes) : (decoder >>= next).Consumes := by
  intro bytes
  have hbehind := hfirst bytes
  rcases hread : decoder.read bytes with ⟨fault | value, rest⟩
  · rw [read_bind_error hread]
    rwa [hread] at hbehind
  · rw [read_bind hread]
    rw [hread] at hbehind
    exact (hnext value rest).trans hbehind

theorem consumes_takeOr (count : Nat) (short : Nat → Fault) : (takeOr count short).Consumes := by
  intro bytes
  rw [read_takeOr]
  split
  · exact List.drop_suffix count bytes
  · exact List.nil_suffix

/-- A byte is a field of one byte. -/
theorem byte_eq : byte = (do return (← take 1).headD 0) := by
  funext bytes
  cases bytes with
  | nil => rfl
  | cons byte rest => rfl

end Decoder

namespace BlockReader

theorem decode_of_read_eq_ok {decoder : Decoder α} {reader : BlockReader} {value : α}
    {rest : Bytes} (hread : decoder.read reader.remaining = (.ok value, rest)) :
    reader.decode decoder =
      (.ok value, reader.advance (reader.remaining.length - rest.length) false) := by
  rw [decode, hread]

theorem decode_of_read_eq_error {decoder : Decoder α} {reader : BlockReader} {fault : Fault}
    {rest : Bytes} (hread : decoder.read reader.remaining = (.error fault, rest)) :
    reader.decode decoder =
      (.error (if isShortage fault ∧ reader.damaged then .corruptStream else fault),
        reader.advance (reader.remaining.length - rest.length) (isShortage fault)) := by
  rw [decode, hread]
  cases hshort : isShortage fault <;> simp [hshort]

/-- A reader that hands out all but `rest` has just that left. -/
theorem remaining_advance {reader : BlockReader} {rest : Bytes} (hrest : rest <:+ reader.remaining)
    (short : Bool) :
    (reader.advance (reader.remaining.length - rest.length) short).remaining = rest :=
  (List.suffix_iff_eq_drop.mp hrest).symm

/-- The second of two decoders goes on where the first one stops, and a fault of either
is blamed on the stream alike. -/
theorem decode_bind {decoder : Decoder α} {next : α → Decoder β} (hfirst : decoder.Consumes)
    (hnext : ∀ value, (next value).Consumes) (reader : BlockReader) :
    reader.decode (decoder >>= next) =
      match reader.decode decoder with
      | (.ok value, after) => after.decode (next value)
      | (.error fault, after) => (.error fault, after) := by
  rcases hread : decoder.read reader.remaining with ⟨fault | value, rest⟩
  · rw [decode_of_read_eq_error hread, decode_of_read_eq_error (Decoder.read_bind_error hread)]
  · have hrest : rest <:+ reader.remaining := by
      have hbehind := hfirst reader.remaining
      rwa [hread] at hbehind
    let after := reader.advance (reader.remaining.length - rest.length) false
    have hafter : after.remaining = rest := remaining_advance hrest false
    have hboth : ∀ last short, last <:+ rest →
        after.advance (after.remaining.length - last.length) short =
          reader.advance (reader.remaining.length - last.length) short := by
      intro last short hlast
      have hcount : reader.remaining.length - rest.length + (rest.length - last.length) =
          reader.remaining.length - last.length := by
        have hlength := hrest.length_le
        have hlength' := hlast.length_le
        omega
      rw [hafter, advance_advance, hcount]
    rw [decode_of_read_eq_ok hread]
    have hlast := hnext value rest
    change _ = after.decode (next value)
    rcases hmore : (next value).read rest with ⟨fault | result, last⟩
    · rw [hmore] at hlast
      rw [decode_of_read_eq_error ((Decoder.read_bind hread).trans hmore),
        decode_of_read_eq_error (hafter ▸ hmore), hboth last _ hlast]
      rfl
    · rw [hmore] at hlast
      rw [decode_of_read_eq_ok ((Decoder.read_bind hread).trans hmore),
        decode_of_read_eq_ok (hafter ▸ hmore), hboth last _ hlast]

end BlockReader

namespace StreamDecoder

@[simp]
theorem runOn_pure (value : α) (stream : StreamReader τ) :
    (pure value : StreamDecoder τ α).runOn stream = (.ok value, stream) := rfl

@[simp]
theorem runOn_throw (fault : Fault) (stream : StreamReader τ) :
    (throw fault : StreamDecoder τ α).runOn stream = (.error fault, stream) := rfl

theorem runOn_bind (decoder : StreamDecoder τ α) (next : α → StreamDecoder τ β)
    (stream : StreamReader τ) :
    (decoder >>= next).runOn stream =
      match decoder.runOn stream with
      | (.ok value, after) => (next value).runOn after
      | (.error fault, after) => (.error fault, after) := by
  change (ExceptT.bindCont next (decoder.runOn stream).1).run (decoder.runOn stream).2 = _
  rcases decoder.runOn stream with ⟨fault | value, after⟩ <;> rfl

theorem runOn_takeOr (ask : Nat → Nat) (count : Nat) (short : Nat → Fault)
    (stream : StreamReader τ) :
    (takeOr ask count short).runOn stream =
      match stream.gather ask count with
      | (.error fault, next) => (.error fault, next)
      | (.ok bytes, next) =>
          (if bytes.length = count then .ok bytes else .error (short bytes.length), next) := rfl

/-- On a stream the one decoder answers as the other one does on the data. -/
structure Mirrors (Gives : τ → Bytes → Bool → Prop) (streaming : StreamDecoder τ α)
    (decoder : Decoder α) : Prop where
  consumes : decoder.Consumes
  answers : ∀ {stream block}, StreamReader.Mirrors Gives stream block →
    ∃ next, streaming.runOn stream = ((block.decode decoder).1, next) ∧
      next.Mirrors Gives (block.decode decoder).2

variable {Gives : τ → Bytes → Bool → Prop}

theorem mirrors_pure (value : α) :
    Mirrors Gives (pure value : StreamDecoder τ α) (pure value) where
  consumes _ := List.suffix_rfl
  answers {stream block} hmirrors := by
    rw [BlockReader.decode_of_read_eq_ok (Decoder.read_pure value block.remaining), Nat.sub_self,
      BlockReader.advance_zero]
    exact ⟨stream, rfl, hmirrors⟩

theorem mirrors_throw {fault : Fault} (hfault : BlockReader.isShortage fault = false) :
    Mirrors Gives (throw fault : StreamDecoder τ α) (throw fault) where
  consumes _ := List.suffix_rfl
  answers {stream block} hmirrors := by
    have hread : (throw fault : Decoder α).read block.remaining = (.error fault, block.remaining) :=
      rfl
    rw [BlockReader.decode_of_read_eq_error hread, hfault, Nat.sub_self, BlockReader.advance_zero]
    exact ⟨stream, rfl, hmirrors⟩

theorem mirrors_bind {streaming : StreamDecoder τ α} {decoder : Decoder α}
    {nextStreaming : α → StreamDecoder τ β} {nextDecoder : α → Decoder β}
    (hfirst : Mirrors Gives streaming decoder)
    (hnext : ∀ value, Mirrors Gives (nextStreaming value) (nextDecoder value)) :
    Mirrors Gives (streaming >>= nextStreaming) (decoder >>= nextDecoder) where
  consumes := Decoder.consumes_bind hfirst.consumes fun value => (hnext value).consumes
  answers {stream block} hmirrors := by
    obtain ⟨after, hrun, hafter⟩ := hfirst.answers hmirrors
    rw [runOn_bind, hrun,
      BlockReader.decode_bind hfirst.consumes fun value => (hnext value).consumes]
    rcases hdecode : block.decode decoder with ⟨fault | value, rest⟩
    · rw [hdecode] at hafter
      exact ⟨after, rfl, hafter⟩
    · rw [hdecode] at hafter
      exact (hnext value).answers hafter

theorem mirrors_takeOr (ask : Nat → Nat) (count : Nat) {short : Nat → Fault}
    (hshort : ∀ held, BlockReader.isShortage (short held)) :
    Mirrors Gives (takeOr ask count short : StreamDecoder τ Bytes)
      (Decoder.takeOr count short) where
  consumes := Decoder.consumes_takeOr count short
  answers {stream block} hmirrors := by
    obtain ⟨after, hgather, hafter⟩ := StreamReader.gather_mirrors hmirrors ask count
    rw [BlockReader.decode_takeOr block count hshort]
    refine ⟨after, ?_, hafter⟩
    rw [runOn_takeOr, hgather]
    rcases Nat.lt_or_ge block.remaining.length count with hlength | hlength
    · have hread := BlockReader.read_of_lt hlength
      cases hdamaged : block.damaged <;> simp [hlength, hread, Nat.ne_of_lt hlength]
    · have hread := BlockReader.read_of_le hlength
      simp [hlength, hread, Nat.not_lt.mpr hlength]

theorem mirrors_byte : Mirrors Gives (byte : StreamDecoder τ UInt8) Decoder.byte := by
  rw [Decoder.byte_eq]
  exact mirrors_bind (mirrors_takeOr id 1 fun _ => rfl) fun bytes => mirrors_pure _

theorem mirrors_times {item : StreamDecoder τ α} {decoder : Decoder α}
    (hitem : Mirrors Gives item decoder) (count : Nat) :
    Mirrors Gives (item.times count) (decoder.times count) := by
  induction count with
  | zero => exact mirrors_pure []
  | succ count ih =>
      apply mirrors_bind hitem
      intro first
      exact mirrors_bind ih fun rest => mirrors_pure (first :: rest)

theorem mirrors_groups (count : Nat) :
    Mirrors Gives (groups count : StreamDecoder τ Nat) (Varint.decodeGroups count) := by
  induction count with
  | zero => exact mirrors_throw rfl
  | succ count ih =>
      apply mirrors_bind mirrors_byte
      intro byte
      simp only
      split
      · exact mirrors_throw rfl
      · split
        · exact mirrors_pure _
        · exact mirrors_bind ih fun high => mirrors_pure _

theorem mirrors_varint : Mirrors Gives (varint : StreamDecoder τ Nat) Varint.decode :=
  mirrors_groups Varint.maxLength

theorem mirrors_record (ask : Nat → Nat) :
    Mirrors Gives (record ask : StreamDecoder τ Bytes) Records.decodeRecord := by
  apply mirrors_bind mirrors_varint
  intro length
  split
  · exact mirrors_throw rfl
  · exact mirrors_takeOr ask length fun _ => rfl

theorem mirrors_records (ask : Nat → Nat) :
    Mirrors Gives (records ask : StreamDecoder τ (List Bytes)) Records.decode := by
  apply mirrors_bind mirrors_varint
  intro count
  split
  · exact mirrors_throw rfl
  · exact mirrors_times (mirrors_record ask) count

theorem mirrors_propertyTable (count : Nat) :
    Mirrors Gives (propertyTable count : StreamDecoder τ PropertyTable)
      (PropertyTable.decode count) :=
  mirrors_bind (mirrors_times mirrors_varint count) fun _ => mirrors_pure _

end StreamDecoder

namespace ArtifactReader

variable {inflater : Inflater τ} {Gives : τ → Bytes → Bool → Prop}

/-- The stream of a block opens just as its data does. -/
theorem openStream_mirrors (hinflater : inflater.Decompresses Gives) (ask : Nat → Nat)
    (reader : ArtifactReader) (block : Bytes) (count : Nat) :
    match reader.openBlock block count with
    | .error error => reader.openStream inflater ask block count = .error error
    | .ok opened => ∃ stream, stream.Mirrors Gives opened.block ∧
        reader.openStream inflater ask block count =
          .ok ⟨opened.plugins, opened.properties, stream⟩ := by
  cases hdecrypt : reader.cipher.decrypt block with
  | error error =>
      simp only [openBlock, openStream, BlockReader.ofBlock, StreamReader.ofBlock, hdecrypt,
        mapError_error, error_bind]
  | ok compressed =>
      obtain ⟨data, hdata⟩ : ∃ data, BlockReader.ofBlock reader.cipher block = .ok data :=
        ⟨_, by rw [BlockReader.ofBlock, hdecrypt]⟩
      obtain ⟨stream, hopen, hmirrors⟩ := StreamReader.ofBlock_eq_block hinflater hdata
      obtain ⟨middle, hplugins, hmiddle⟩ := (StreamDecoder.mirrors_records ask).answers hmirrors
      obtain ⟨last, htable, hlast⟩ :=
        (StreamDecoder.mirrors_propertyTable count).answers hmiddle
      simp only [openBlock, openStream, hdata, hopen, mapError_ok, ok_bind, hplugins, htable]
      rcases hrecords : data.decode Records.decode with ⟨fault | plugins, behind⟩
      · simp only [mapError_error, error_bind]
      · rw [hrecords] at hlast
        simp only [mapError_ok, ok_bind]
        rcases hvalues : behind.decode (PropertyTable.decode count) with ⟨fault | table, rest⟩
        · simp only [mapError_error, error_bind]
        · rw [hvalues] at hlast
          exact ⟨last, hlast, rfl⟩

/-- What is decoded from the stream of a block, or refused, is what is decoded from its
data. -/
theorem decodeStream_eq_decode (hinflater : inflater.Decompresses Gives) (ask : Nat → Nat)
    (reader : ArtifactReader) (image : Bytes) (count : Nat) :
    reader.decodeStream inflater ask image count = reader.decode image count := by
  unfold decodeStream decode
  apply bind_congr
  rintro ⟨offset, content⟩
  have hopen := openStream_mirrors hinflater ask reader content.block count
  cases hopened : reader.openBlock content.block count with
  | error error =>
      rw [hopened] at hopen
      simp only [hopen, hopened, error_bind]
  | ok opened =>
      rw [hopened] at hopen
      obtain ⟨stream, hmirrors, hstream⟩ := hopen
      obtain ⟨last, hrest, hlast⟩ := StreamReader.readRemaining_mirrors hmirrors
      simp only [hstream, hopened, ok_bind, hrest, hlast.failed]

end ArtifactReader

end ScriptBundle
