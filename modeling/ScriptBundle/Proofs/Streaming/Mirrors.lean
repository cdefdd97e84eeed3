import ScriptBundle.Proofs.Artifact.Block
import ScriptBundle.Proofs.Streaming.Pieces
import ScriptBundle.Streaming.Reader

/-!
# Streams come to blocks

A block writer holds what it was given and compresses it in one go, and a block
reader holds what can still be handed out.  The streams do neither, but whatever
pieces their library moves, they answer as the block writer and the block reader
do.
-/

namespace ScriptBundle

variable {σ τ : Type}

namespace StreamWriter

/-- A stream whose compressor took what a block writer holds. -/
structure Mirrors (Took : Nat → σ → Bytes → Prop) (stream : StreamWriter σ)
    (block : BlockWriter) : Prop where
  contract : stream.deflater.Contract Took
  level : stream.level = block.level
  cipher : stream.cipher = block.cipher
  took : Took block.level stream.started block.content
  written : stream.written = block.written
  failure : stream.failure = none

variable {Took : Nat → σ → Bytes → Prop} {stream : StreamWriter σ} {block : BlockWriter}

theorem create_mirrors {deflater : Deflater σ} (hcontract : deflater.Contract Took) {level : Nat}
    {cipher : Cipher} (hcreate : BlockWriter.create level cipher = .ok block) :
    ∃ stream, create deflater level cipher = .ok stream ∧ stream.deflater = deflater ∧
      stream.Mirrors Took block := by
  unfold BlockWriter.create at hcreate
  split at hcreate
  · rename_i hlevel
    obtain rfl := Except.ok.inj hcreate
    refine ⟨_, dif_pos hlevel, rfl, hcontract, rfl, rfl, ?_, rfl, rfl⟩
    exact hcontract.start level (Nat.le_of_lt_succ hlevel)
  · cases hcreate

/-- All of the data is taken. -/
theorem accept_mirrors (hmirrors : stream.Mirrors Took block) (data : Bytes) :
    ∃ next, stream.accept data = (data.length, next) ∧ next.deflater = stream.deflater ∧
      next.Mirrors Took (block.write data) := by
  obtain ⟨hcontract, hlevel, hcipher, htook, hwritten, hfailure⟩ := hmirrors
  by_cases hdata : data = []
  · refine ⟨stream, by simp [accept, hdata], rfl, hcontract, hlevel, hcipher, ?_, ?_, hfailure⟩
    · simpa [BlockWriter.write, hdata] using htook
    · simpa [BlockWriter.write, BlockWriter.written, hdata] using hwritten
  · obtain ⟨last, hfeed, hlast⟩ := hcontract.feed htook data
    let next : StreamWriter σ :=
      { stream with encoder := some last, written := stream.written + data.length, failure := none }
    refine ⟨next, by simp [accept, hfailure, hdata, hfeed, next], rfl, hcontract, hlevel, hcipher,
      hlast, ?_, rfl⟩
    simp [next, BlockWriter.write, BlockWriter.written, hwritten]

theorem write_mirrors (hmirrors : stream.Mirrors Took block) (via : Interface) (data : Bytes) :
    ∃ next, stream.write via data = (.ok data.length, next) ∧ next.deflater = stream.deflater ∧
      next.Mirrors Took (block.write data) := by
  obtain ⟨next, haccept, hnext⟩ := accept_mirrors hmirrors data
  refine ⟨next, ?_, hnext⟩
  cases via <;> simp [write, haccept]

/-- Chunks are taken whole, and they come to what the block writer is given. -/
theorem writeAll_mirrors (hmirrors : stream.Mirrors Took block)
    (chunks : List (Interface × Bytes)) :
    ∃ last, stream.writeAll chunks = (chunks.map fun chunk => .ok chunk.2.length, last) ∧
      last.deflater = stream.deflater ∧
      last.Mirrors Took (block.write (chunks.flatMap Prod.snd)) := by
  induction chunks generalizing stream block with
  | nil =>
      refine ⟨stream, rfl, rfl, ?_⟩
      simpa [BlockWriter.write] using hmirrors
  | cons chunk chunks ih =>
      obtain ⟨via, data⟩ := chunk
      obtain ⟨next, hwrite, hnext, hmirrors⟩ := write_mirrors hmirrors via data
      obtain ⟨last, hall, hlast, hmirrors⟩ := ih hmirrors
      refine ⟨last, ?_, hlast.trans hnext, ?_⟩
      · rw [writeAll, hwrite]
        simp only
        rw [hall]
        rfl
      · simpa [BlockWriter.write] using hmirrors

/-- The block that a stream ends with is the encryption of what the compressor
made of everything that was taken. -/
theorem finish_eq (hmirrors : stream.Mirrors Took block) {compressed : Bytes}
    (hfinish : stream.deflater.finish stream.started = .ok compressed) :
    stream.finish = (block.cipher.encrypt compressed).mapError .cipherRejected := by
  rw [finish, hmirrors.failure, hfinish, ← hmirrors.cipher]
  rfl

/-- With the compressor of this library a stream ends with just the block that is
encoded at once. -/
theorem finish_eq_block {size : Nat} {stream : StreamWriter (Nat × Bytes)}
    (hmirrors : stream.Mirrors (fun level state taken => state = (level, taken)) block)
    (hdeflater : stream.deflater = .inPieces size) :
    stream.finish = block.finish := by
  apply finish_eq hmirrors
  rw [hdeflater, hmirrors.took]
  rfl

end StreamWriter

namespace StreamReader

/-- A stream whose decompressor gives what a block reader holds. -/
structure Mirrors (Gives : τ → Bytes → Bool → Prop) (stream : StreamReader τ)
    (block : BlockReader) : Prop where
  contract : stream.inflater.Contract Gives
  gives : stream.failed = false → Gives stream.decoder block.remaining block.damaged
  spent : stream.failed = true → block.remaining = [] ∧ block.damaged = true
  cursor : stream.cursor = block.cursor
  total : stream.total = block.total
  failed : stream.failed = block.failed

variable {Gives : τ → Bytes → Bool → Prop} {stream : StreamReader τ} {block : BlockReader}

theorem ofBlock_mirrors {inflater : Inflater τ} (hcontract : inflater.Contract Gives)
    {cipher : Cipher} {encoded compressed data : Bytes} {damaged : Bool}
    (hdecrypt : cipher.decrypt encoded = .ok compressed)
    (hgives : Gives (inflater.start compressed) data damaged) :
    ∃ stream, ofBlock inflater cipher encoded = .ok stream ∧
      stream.Mirrors Gives
        { remaining := data, damaged, cursor := 0, total := 0, failed := false } := by
  refine ⟨_, by rw [ofBlock, hdecrypt]; rfl, ?_⟩
  exact ⟨hcontract, fun _ => hgives, nofun, rfl, rfl, rfl⟩

/-- A stream opens just as the block does. -/
theorem ofBlock_eq_block {inflater : Inflater τ} (hinflater : inflater.Decompresses Gives)
    {cipher : Cipher} {encoded : Bytes} (hopen : BlockReader.ofBlock cipher encoded = .ok block) :
    ∃ stream, ofBlock inflater cipher encoded = .ok stream ∧ stream.Mirrors Gives block := by
  unfold BlockReader.ofBlock at hopen
  split at hopen
  · rename_i compressed hdecrypt
    obtain rfl := Except.ok.inj hopen
    exact ofBlock_mirrors hinflater.contract hdecrypt (hinflater.start compressed)
  · cases hopen

/-- A request is answered by the loop as it is at once. -/
theorem readBytes_mirrors (hmirrors : stream.Mirrors Gives block) {count : Nat} {bytes : Bytes}
    {next : StreamReader τ} (hread : stream.readBytes count = (bytes, next)) :
    bytes = (block.read count).1 ∧ next.Mirrors Gives (block.read count).2 := by
  obtain ⟨hcontract, hgives, hspent, hcursor, htotal, hfailed⟩ := hmirrors
  unfold readBytes at hread
  split at hread
  · rename_i hstream
    obtain ⟨hremaining, hdamaged⟩ := hspent hstream
    obtain ⟨rfl, rfl⟩ := Prod.mk.inj hread
    refine ⟨?_, hcontract, ?_, ?_, ?_, ?_, ?_⟩
    · simp [BlockReader.read, hremaining]
    · simp [hstream]
    · simp [BlockReader.read, BlockReader.advance, hremaining, hdamaged]
    · simpa [BlockReader.read, BlockReader.advance, hremaining] using hcursor
    · simpa [BlockReader.read, BlockReader.advance, hremaining] using htotal
    · simp [BlockReader.read, BlockReader.advance, ← hfailed, hstream]
  · rename_i hstream
    have hstream := Bool.eq_false_iff.mpr hstream
    obtain ⟨last, failed, hfill, hdefect, hlast⟩ := hcontract.fill (hgives hstream) count
    rw [hfill] at hread
    obtain ⟨rfl, rfl⟩ := Prod.mk.inj hread
    refine ⟨rfl, hcontract, ?_, ?_, ?_, ?_, ?_⟩
    · rwa [BlockReader.remaining_read]
    · intro hmet
      rw [BlockReader.remaining_read]
      simp only [hdefect, Bool.and_eq_true, decide_eq_true_eq] at hmet
      exact ⟨List.drop_eq_nil_of_le (Nat.le_of_lt hmet.2), hmet.1⟩
    · simp only [hcursor, BlockReader.read, BlockReader.advance]
    · simp only [htotal, BlockReader.read, BlockReader.advance]
    · rw [BlockReader.failed_read, ← hfailed, hstream, Bool.false_or]
      exact hdefect

/-- Only input and output report a failure, and only if nothing came before it. -/
theorem read_mirrors (hmirrors : stream.Mirrors Gives block) {via : Interface} {count : Nat}
    {outcome : Except Fault Bytes} {next : StreamReader τ}
    (hread : stream.read via count = (outcome, next)) :
    outcome =
        (if via = .io ∧ count ≠ 0 ∧ block.remaining = [] ∧ block.damaged then .error .corruptStream
        else .ok (block.read count).1) ∧
      next.Mirrors Gives (block.read count).2 := by
  rcases hbytes : stream.readBytes count with ⟨bytes, after⟩
  obtain ⟨rfl, hafter⟩ := readBytes_mirrors hmirrors hbytes
  have hmet : ((block.read count).1 = [] ∧ after.failed ∧ count ≠ 0) ↔
      (count ≠ 0 ∧ block.remaining = [] ∧ block.damaged) := by
    constructor
    · rintro ⟨hnone, hfailed, hcount⟩
      exact ⟨hcount, (List.take_eq_nil_iff.mp hnone).resolve_left hcount, (hafter.spent hfailed).2⟩
    · rintro ⟨hcount, hremaining, hdamaged⟩
      rw [hafter.failed, BlockReader.read_of_nil hremaining hcount]
      exact ⟨rfl, by simp [BlockReader.advance, hdamaged], hcount⟩
  rw [read, hbytes] at hread
  cases via with
  | bytes =>
      obtain ⟨rfl, rfl⟩ := Prod.mk.inj hread
      exact ⟨by simp, hafter⟩
  | stream =>
      obtain ⟨rfl, rfl⟩ := Prod.mk.inj hread
      exact ⟨by simp, hafter⟩
  | io =>
      simp only [hmet] at hread
      obtain ⟨rfl, rfl⟩ := Prod.mk.inj hread
      exact ⟨by simp only [true_and], hafter⟩

theorem resetCursor_mirrors (hmirrors : stream.Mirrors Gives block) :
    stream.resetCursor.Mirrors Gives block.resetCursor :=
  { hmirrors with cursor := rfl }

/-- The rest is drained chunk by chunk. -/
theorem readRemaining_mirrors (hmirrors : stream.Mirrors Gives block) :
    ∃ last, stream.readRemaining = (block.readAll.1, last) ∧
      last.Mirrors Gives block.readAll.2 := by
  fun_induction readRemaining stream generalizing block with
  | case1 stream chunk next hread hshort =>
      obtain ⟨rfl, hnext⟩ := readBytes_mirrors hmirrors hread
      have hremaining : block.remaining.length < BlockReader.chunkLength := by
        rw [BlockReader.read, List.length_take] at hshort
        omega
      rw [BlockReader.readAll_of_lt hremaining]
      exact ⟨next, rfl, hnext⟩
  | case2 stream chunk next hread hfull others last hothers ih =>
      obtain ⟨rfl, hnext⟩ := readBytes_mirrors hmirrors hread
      have hremaining : BlockReader.chunkLength ≤ block.remaining.length := by
        rw [BlockReader.read, List.length_take] at hfull
        omega
      obtain ⟨_, hrest, hlast⟩ := ih hnext
      obtain ⟨rfl, rfl⟩ := Prod.mk.inj (hothers.symm.trans hrest)
      rw [BlockReader.readAll_of_le hremaining]
      exact ⟨last, rfl, hlast⟩

/-- What is gathered in portions is what is read at once, and a defect behind too few
bytes is reported. -/
theorem gather_mirrors (hmirrors : stream.Mirrors Gives block) (ask : Nat → Nat) (count : Nat) :
    ∃ last, stream.gather ask count =
        (if block.damaged ∧ block.remaining.length < count then .error .corruptStream
        else .ok (block.read count).1, last) ∧
      last.Mirrors Gives (block.read count).2 := by
  fun_induction gather stream ask count generalizing block with
  | case1 stream =>
      refine ⟨stream, by simp [BlockReader.read], ?_⟩
      simpa [BlockReader.read, BlockReader.advance_zero] using hmirrors
  | case2 stream count hcount fault next hread =>
      have hportion : min count (ask count + 1) ≠ 0 := by omega
      obtain ⟨hfault, hnext⟩ := read_mirrors hmirrors hread
      split at hfault
      · rename_i hmet
        obtain ⟨-, -, hremaining, hdamaged⟩ := hmet
        rw [BlockReader.read_of_nil hremaining hportion] at hnext
        rw [BlockReader.read_of_nil hremaining hcount]
        refine ⟨next, ?_, hnext⟩
        simp [Except.error.inj hfault, hremaining, hdamaged, Nat.pos_of_ne_zero hcount]
      · cases hfault
  | case3 stream count hcount next hread =>
      have hportion : min count (ask count + 1) ≠ 0 := by omega
      obtain ⟨hnone, hnext⟩ := read_mirrors hmirrors hread
      split at hnone
      · cases hnone
      · rename_i hgoes
        have hremaining : block.remaining = [] :=
          (List.take_eq_nil_iff.mp (Except.ok.inj hnone).symm).resolve_left hportion
        have hdamaged : block.damaged = false := by simpa [hportion, hremaining] using hgoes
        rw [BlockReader.read_of_nil hremaining hportion] at hnext
        rw [BlockReader.read_of_nil hremaining hcount]
        exact ⟨next, by simp [hdamaged], hnext⟩
  | case4 stream count hcount byte piece next hread others last hothers ih =>
      have hportion : min count (ask count + 1) ≤ count := Nat.min_le_left _ _
      obtain ⟨hpiece, hnext⟩ := read_mirrors hmirrors hread
      split at hpiece
      · cases hpiece
      · have hpiece := (Except.ok.inj hpiece).symm
        obtain ⟨_, hrest, hlast⟩ := ih hnext
        obtain ⟨rfl, rfl⟩ := Prod.mk.inj (hothers.symm.trans hrest)
        have hdefect : ((block.read (min count (ask count + 1))).2.damaged ∧
            (block.read (min count (ask count + 1))).2.remaining.length <
              count - (byte :: piece).length) ↔
            (block.damaged ∧ block.remaining.length < count) := by
          refine and_congr_right fun _ => ?_
          rw [← hpiece, BlockReader.remaining_read, BlockReader.read, List.length_take,
            List.length_drop]
          omega
        rw [BlockReader.read_split block hportion, hpiece]
        refine ⟨last, ?_, hlast⟩
        by_cases hmet : block.damaged ∧ block.remaining.length < count
        · rw [if_pos hmet, if_pos (hdefect.mpr hmet)]
          rfl
        · rw [if_neg hmet, if_neg (hdefect.not.mpr hmet)]
          rfl

end StreamReader

end ScriptBundle
