import Mathlib.Data.List.DropRight
import ScriptBundle.Proofs.Crypto.RoundTrip
import ScriptBundle.Proofs.Streaming.Mirrors

/-!
# What is written piece by piece is read piece by piece

How data was cut into chunks when it was written leaves no trace in what a reader
hands out, and how a reader is asked for it neither.  After any requests the reader
stands at a place in the data: what it handed out lies before the place, what it
will hand out lies behind it, and both of its counts tell how far the place is from
where they were started.
-/

namespace ScriptBundle

variable {σ τ : Type}

namespace StreamReader

namespace Reply

/-- The bytes that come with a reply. -/
def handed : Reply → Bytes
  | .bytes (.ok piece) => piece
  | .bytes (.error _) | .reset => []

def isReset : Reply → Bool
  | .reset => true
  | .bytes _ => false

end Reply

/-- The bytes that come with replies, in order. -/
def handedOut (replies : List Reply) : Bytes :=
  replies.flatMap Reply.handed

/-- The replies behind the last reset. -/
def sinceReset (replies : List Reply) : List Reply :=
  replies.rtakeWhile fun reply => !reply.isReset

theorem handedOut_concat (replies : List Reply) (reply : Reply) :
    handedOut (replies ++ [reply]) = handedOut replies ++ reply.handed := by
  rw [handedOut, handedOut, List.flatMap_append, List.flatMap_singleton]

theorem sinceReset_reset (replies : List Reply) : sinceReset (replies ++ [.reset]) = [] :=
  List.rtakeWhile_concat_neg _ _ _ nofun

theorem sinceReset_bytes (replies : List Reply) (outcome : Except Fault Bytes) :
    sinceReset (replies ++ [.bytes outcome]) = sinceReset replies ++ [.bytes outcome] :=
  List.rtakeWhile_concat_pos _ _ _ rfl

/-- Where a reader of `content` stands after it gave `replies`. -/
structure Stands (content : Bytes) (replies : List Reply) (block : BlockReader) : Prop where
  split : content = handedOut replies ++ block.remaining
  answered : ∀ fault, Reply.bytes (.error fault) ∉ replies
  undamaged : block.damaged = false
  sound : block.failed = false
  cursor : block.cursor = (handedOut (sinceReset replies)).length
  total : block.total = (handedOut replies).length

variable {content : Bytes} {replies : List Reply} {block : BlockReader}

theorem stands_start (content : Bytes) :
    Stands content []
      { remaining := content, damaged := false, cursor := 0, total := 0, failed := false } :=
  ⟨rfl, fun _ => List.not_mem_nil, rfl, rfl, rfl, rfl⟩

/-- Handing out what comes next moves the place behind it. -/
theorem Stands.advance (hstands : Stands content replies block) (bytes : Bytes) (short : Bool)
    (hbytes : bytes <+: block.remaining) :
    Stands content (replies ++ [.bytes (.ok bytes)]) (block.advance bytes.length short) where
  split := by
    obtain ⟨rest, hrest⟩ := hbytes
    rw [handedOut_concat, hstands.split, ← hrest, List.append_assoc]
    simp only [BlockReader.advance, Reply.handed, ← hrest, List.drop_left]
  answered fault := by simpa using hstands.answered fault
  undamaged := hstands.undamaged
  sound := by simp [BlockReader.advance, hstands.sound, hstands.undamaged]
  cursor := by
    rw [sinceReset_bytes, handedOut_concat, List.length_append, ← hstands.cursor]
    rfl
  total := by
    rw [handedOut_concat, List.length_append, ← hstands.total]
    rfl

theorem Stands.resetCursor (hstands : Stands content replies block) :
    Stands content (replies ++ [.reset]) block.resetCursor where
  split := by
    rw [handedOut_concat, Reply.handed, List.append_nil]
    exact hstands.split
  answered fault := by simpa using hstands.answered fault
  undamaged := hstands.undamaged
  sound := hstands.sound
  cursor := by
    rw [sinceReset_reset]
    rfl
  total := by
    rw [handedOut_concat, Reply.handed, List.append_nil]
    exact hstands.total

variable {Gives : τ → Bytes → Bool → Prop} {stream : StreamReader τ}

/-- Whoever reads gets as much as was asked for, up to what is left. -/
theorem Stands.read_eq (hstands : Stands content replies block)
    (hmirrors : stream.Mirrors Gives block) (via : Interface) (count : Nat) :
    ∃ next, stream.read via count = (.ok (block.remaining.take count), next) ∧
      next.Mirrors Gives (block.read count).2 := by
  rcases hread : stream.read via count with ⟨outcome, next⟩
  obtain ⟨rfl, hnext⟩ := read_mirrors hmirrors hread
  refine ⟨next, ?_, hnext⟩
  rw [if_neg]
  · rfl
  · simp [hstands.undamaged]

theorem readRemaining_eq (hmirrors : stream.Mirrors Gives block) :
    ∃ last, stream.readRemaining = (block.remaining, last) ∧
      last.Mirrors Gives (block.advance block.remaining.length true) := by
  have hlast := readRemaining_mirrors hmirrors
  rwa [BlockReader.readAll_eq] at hlast

/-- One request moves the place by what it is answered with. -/
theorem Stands.answer (hstands : Stands content replies block)
    (hmirrors : stream.Mirrors Gives block) (request : Request) :
    ∃ reply next block', stream.answer request = (reply, next) ∧ next.Mirrors Gives block' ∧
      Stands content (replies ++ [reply]) block' := by
  cases request with
  | read via count =>
      obtain ⟨next, hread, hnext⟩ := hstands.read_eq hmirrors via count
      refine ⟨.bytes (.ok (block.remaining.take count)), next, (block.read count).2, ?_, hnext, ?_⟩
      · rw [StreamReader.answer, hread]
      · exact hstands.advance _ _ (List.take_prefix _ _)
  | remaining =>
      obtain ⟨last, hread, hlast⟩ := readRemaining_eq hmirrors
      refine ⟨.bytes (.ok block.remaining), last, _, ?_, hlast, ?_⟩
      · rw [StreamReader.answer, hread]
      · exact hstands.advance _ _ List.prefix_rfl
  | reset =>
      exact ⟨.reset, stream.resetCursor, block.resetCursor, rfl, resetCursor_mirrors hmirrors,
        hstands.resetCursor⟩

/-- Requests one after the other move it by all that they are answered with. -/
theorem Stands.serve (hstands : Stands content replies block)
    (hmirrors : stream.Mirrors Gives block) (requests : List Request) :
    ∃ more last block', stream.serve requests = (more, last) ∧ last.Mirrors Gives block' ∧
      Stands content (replies ++ more) block' := by
  induction requests generalizing stream replies block with
  | nil => exact ⟨[], stream, block, rfl, hmirrors, by rwa [List.append_nil]⟩
  | cons request requests ih =>
      obtain ⟨reply, next, block', hanswer, hnext, hstands'⟩ := hstands.answer hmirrors request
      obtain ⟨more, last, block'', hserve, hlast, hstands''⟩ := ih hstands' hnext
      refine ⟨reply :: more, last, block'', ?_, hlast, ?_⟩
      · rw [StreamReader.serve, hanswer]
        simp only
        rw [hserve]
      · rwa [List.append_assoc] at hstands''

/-- Whatever chunks are written through whatever interfaces, each is taken whole,
and a reader of the finished block answers every request: it has handed out a
prefix of what was written, the next read gives as much of the rest as was asked
for, and its counts are those of what it handed out. -/
theorem serve_written {deflater : Deflater σ} {inflater : Inflater τ}
    {Took : Nat → σ → Bytes → Prop} {Gives : τ → Bytes → Bool → Prop}
    (hlibrary : Compression.Contract deflater inflater Took Gives) {level : Nat}
    (hlevel : level ≤ maxLevel) {cipher : Cipher}
    (hcipher : cipher = .transparent ∨ ∃ key nonce, cipher = .authenticated key nonce)
    (chunks : List (Interface × Bytes)) :
    ∃ writer written block reader,
      StreamWriter.create deflater level cipher = .ok writer ∧
      writer.writeAll chunks = (chunks.map fun chunk => .ok chunk.2.length, written) ∧
      written.written = (chunks.flatMap Prod.snd).length ∧
      written.finish = .ok block ∧ ofBlock inflater cipher block = .ok reader ∧
      ∀ requests, ∃ replies after rest,
        reader.serve requests = (replies, after) ∧
        chunks.flatMap Prod.snd = handedOut replies ++ rest ∧
        (∀ fault, Reply.bytes (.error fault) ∉ replies) ∧
        (∀ via count, (after.read via count).1 = .ok (rest.take count)) ∧
        after.readRemaining.1 = rest ∧
        after.cursor = (handedOut (sinceReset replies)).length ∧
        after.total = (handedOut replies).length ∧
        after.failed = false := by
  have hlossless : cipher.Lossless := by
    rcases hcipher with rfl | ⟨key, nonce, rfl⟩
    · exact Cipher.transparent_lossless
    · exact Cipher.authenticated_lossless key nonce
  have hbound := Nat.lt_succ_of_le hlevel
  have hempty : BlockWriter.create level cipher = .ok ⟨⟨level, hbound⟩, cipher, []⟩ :=
    dif_pos hbound
  obtain ⟨writer, hcreate, hdeflater, hstart⟩ :=
    StreamWriter.create_mirrors hlibrary.compresses hempty
  obtain ⟨written, hwritten, hsame, hmirrors⟩ := StreamWriter.writeAll_mirrors hstart chunks
  obtain ⟨compressed, hcompressed, hgives⟩ := hlibrary.undoes hmirrors.took
  obtain ⟨block, hencrypt, hdecrypt⟩ := hlossless compressed
  have hfinish : written.finish = .ok block := by
    rw [StreamWriter.finish_eq hmirrors (by rwa [hsame, hdeflater])]
    exact congrArg (Except.mapError CodecError.cipherRejected) hencrypt
  obtain ⟨reader, hopen, hreader⟩ := ofBlock_mirrors hlibrary.decompresses hdecrypt hgives
  refine ⟨writer, written, block, reader, hcreate, hwritten, hmirrors.written, hfinish, hopen, ?_⟩
  intro requests
  obtain ⟨replies, after, block', hserve, hafter, hstands⟩ :=
    (stands_start (chunks.flatMap Prod.snd)).serve hreader requests
  refine ⟨replies, after, block'.remaining, hserve, hstands.split, hstands.answered, ?_, ?_,
    hafter.cursor.trans hstands.cursor, hafter.total.trans hstands.total,
    hafter.failed.trans hstands.sound⟩
  · intro via count
    obtain ⟨next, hread, -⟩ := hstands.read_eq hafter via count
    rw [hread]
  · obtain ⟨last, hread, -⟩ := readRemaining_eq hafter
    rw [hread]

/-- Five bytes in three chunks, taken by twos and given back one by one. -/
theorem serve_written_fiveBytes :
    ∃ writer written block reader,
      StreamWriter.create (.inPieces 1) 6 (.authenticated Cipher.defaultKey [7]) = .ok writer ∧
      writer.writeAll [(.stream, [1, 2, 3]), (.io, []), (.bytes, [4, 5])] =
        ([.ok 3, .ok 0, .ok 2], written) ∧
      written.finish = .ok block ∧
      ofBlock (.inPieces 0) (.authenticated Cipher.defaultKey [7]) block = .ok reader ∧
      (reader.read .io 4).1 = .ok [1, 2, 3, 4] ∧ reader.readRemaining.1 = [1, 2, 3, 4, 5] := by
  have hlevel : 6 ≤ maxLevel := by decide
  have hcipher : Cipher.authenticated Cipher.defaultKey [7] = .transparent ∨
      ∃ key nonce, Cipher.authenticated Cipher.defaultKey [7] = .authenticated key nonce :=
    .inr ⟨Cipher.defaultKey, [7], rfl⟩
  obtain ⟨writer, written, block, reader, hcreate, hwritten, -, hfinish, hopen, hserve⟩ :=
    serve_written (Compression.inPieces_contract 1 0) hlevel hcipher
      [(.stream, [1, 2, 3]), (.io, []), (.bytes, [4, 5])]
  obtain ⟨replies, after, rest, hnone, hsplit, -, hread, hrest, -⟩ := hserve []
  obtain ⟨rfl, rfl⟩ := Prod.mk.inj hnone
  obtain rfl : [1, 2, 3, 4, 5] = rest := hsplit
  exact ⟨writer, written, block, reader, hcreate, hwritten, hfinish, hopen, hread .io 4, hrest⟩

end StreamReader

end ScriptBundle
