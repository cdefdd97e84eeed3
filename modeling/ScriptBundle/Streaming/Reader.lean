import ScriptBundle.Streaming.Writer

/-!
# Reading a block piece by piece

A reader undoes the cipher at once and asks its decompressor for data until it
has what a request wants.  It counts what it hands out, twice over: in all, and
since the last reset.  After a failed call it hands out nothing more.
-/

namespace ScriptBundle

structure StreamReader (τ : Type) where
  inflater : Inflater τ
  decoder : τ
  /-- The bytes handed out since the last reset. -/
  cursor : Nat
  /-- The bytes handed out in all. -/
  total : Nat
  failed : Bool

namespace StreamReader

variable {τ : Type}

def ofBlock (inflater : Inflater τ) (cipher : Cipher) (block : Bytes) :
    Except CodecError (StreamReader τ) := do
  let stream ← (cipher.decrypt block).mapError .cipherRejected
  return { inflater, decoder := inflater.start stream, cursor := 0, total := 0, failed := false }

/-- As many of `count` bytes as the stream allows. -/
def readBytes (reader : StreamReader τ) (count : Nat) : Bytes × StreamReader τ :=
  if reader.failed then ([], reader)
  else
    let (bytes, decoder, failed) := reader.inflater.fill reader.decoder count
    (bytes,
      { reader with
        decoder
        cursor := reader.cursor + bytes.length
        total := reader.total + bytes.length
        failed })

instance : ByteStream (StreamReader τ) where
  read := readBytes

/-- Reads through one of the interfaces.  Only input and output know errors: they
report a stream that fails before it gives anything. -/
def read (reader : StreamReader τ) (via : Interface) (count : Nat) :
    Except Fault Bytes × StreamReader τ :=
  let (bytes, next) := reader.readBytes count
  match via with
  | .bytes | .stream => (.ok bytes, next)
  | .io => (if bytes = [] ∧ next.failed ∧ count ≠ 0 then .error .corruptStream else .ok bytes, next)

def resetCursor (reader : StreamReader τ) : StreamReader τ :=
  { reader with cursor := 0 }

/-- Everything that is left, in chunks up to the first one that is short. -/
def readRemaining (reader : StreamReader τ) : Bytes × StreamReader τ :=
  match _hread : reader.readBytes BlockReader.chunkLength with
  | (chunk, next) =>
      if chunk.length < BlockReader.chunkLength then (chunk, next)
      else
        let (others, last) := next.readRemaining
        (chunk ++ others, last)
termination_by reader.inflater.pending reader.decoder
decreasing_by
  have hchunk : ¬ chunk.length < BlockReader.chunkLength := ‹_›
  unfold readBytes at _hread
  split at _hread
  · cases _hread
    exact absurd (by decide) hchunk
  · cases _hread
    have hfill := reader.inflater.pending_fill_add_min_le reader.decoder BlockReader.chunkLength
      (Nat.le_of_not_lt hchunk)
    exact Nat.lt_of_lt_of_le (Nat.lt_add_of_pos_right (by decide)) hfill

/-- Asks by input and output for `missing` bytes until they are there or nothing
comes, each time for at most `ask missing + 1` of those that are missing. -/
def gather (reader : StreamReader τ) (ask : Nat → Nat) (missing : Nat) :
    Except Fault Bytes × StreamReader τ :=
  if missing = 0 then (.ok [], reader)
  else
    match reader.read .io (min missing (ask missing + 1)) with
    | (.error fault, next) => (.error fault, next)
    | (.ok [], next) => (.ok [], next)
    | (.ok (byte :: piece), next) =>
        let (others, last) := next.gather ask (missing - (byte :: piece).length)
        (others.map (byte :: piece ++ ·), last)
termination_by missing

/-- What a reader can be asked for. -/
inductive Request where
  | read (via : Interface) (count : Nat)
  | remaining
  | reset
  deriving DecidableEq, Repr

/-- What a request came to. -/
inductive Reply where
  | bytes (outcome : Except Fault Bytes)
  | reset

def answer (reader : StreamReader τ) : Request → Reply × StreamReader τ
  | .read via count =>
      let (outcome, next) := reader.read via count
      (.bytes outcome, next)
  | .remaining =>
      let (bytes, next) := reader.readRemaining
      (.bytes (.ok bytes), next)
  | .reset => (.reset, reader.resetCursor)

/-- Answers requests one after the other. -/
def serve (reader : StreamReader τ) : List Request → List Reply × StreamReader τ
  | [] => ([], reader)
  | request :: requests =>
      let (reply, next) := reader.answer request
      let (replies, last) := next.serve requests
      (reply :: replies, last)

end StreamReader

end ScriptBundle
