import ScriptBundle.Streaming.Library

/-!
# Writing a block piece by piece

A writer starts its compressor with the first byte and offers it what is written
until all is taken.  Once a call has failed the writer takes nothing more, and it
reports the failure when it is finished.
-/

namespace ScriptBundle

/-- The ways in which the data of a block is written and read. -/
inductive Interface where
  /-- The functions of the codec. -/
  | bytes
  /-- The binary streams of the engine. -/
  | stream
  /-- Input and output of the system. -/
  | io
  deriving DecidableEq, Repr

structure StreamWriter (σ : Type) where
  deflater : Deflater σ
  level : Fin (maxLevel + 1)
  cipher : Cipher
  /-- The compressor, once there was something to compress. -/
  encoder : Option σ
  /-- The bytes taken so far. -/
  written : Nat
  failure : Option String

namespace StreamWriter

variable {σ : Type}

def create (deflater : Deflater σ) (level : Nat) (cipher : Cipher) :
    Except CodecError (StreamWriter σ) :=
  if hlevel : level < maxLevel + 1 then
    .ok
      { deflater
        level := ⟨level, hlevel⟩
        cipher
        encoder := none
        written := 0
        failure := none }
  else .error (.invalidLevel level)

/-- The compressor, started if need be. -/
def started (writer : StreamWriter σ) : σ :=
  writer.encoder.getD (writer.deflater.start writer.level)

/-- Takes data and says how many bytes of it.  Fewer than all are a failure. -/
def accept (writer : StreamWriter σ) (data : Bytes) : Nat × StreamWriter σ :=
  if writer.failure.isSome ∨ data = [] then (0, writer)
  else
    let (accepted, encoder, failure) := writer.deflater.feed writer.started data
    (accepted,
      { writer with encoder := some encoder, written := writer.written + accepted, failure })

/-- What is said when nothing of the data is taken. -/
def refusalMessage : String := "bytecode compressor failed"

/-- Takes data through one of the interfaces.  Only input and output know errors. -/
def write (writer : StreamWriter σ) (via : Interface) (data : Bytes) :
    Except String Nat × StreamWriter σ :=
  let (accepted, next) := writer.accept data
  match via with
  | .bytes | .stream => (.ok accepted, next)
  | .io => (if accepted = 0 ∧ data ≠ [] then .error refusalMessage else .ok accepted, next)

/-- Takes chunks one after the other. -/
def writeAll (writer : StreamWriter σ) :
    List (Interface × Bytes) → List (Except String Nat) × StreamWriter σ
  | [] => ([], writer)
  | (via, data) :: chunks =>
      let (outcome, next) := writer.write via data
      let (outcomes, last) := next.writeAll chunks
      (outcome :: outcomes, last)

/-- The block that holds everything written. -/
def finish (writer : StreamWriter σ) : Except CodecError Bytes :=
  match writer.failure with
  | some source => .error (.compress writer.written source)
  | none => do
      let stream ← (writer.deflater.finish writer.started).mapError .finish
      (writer.cipher.encrypt stream).mapError .cipherRejected

/-- Nothing can be read from a writer. -/
instance : ByteStream (StreamWriter σ) where
  read writer _ := ([], writer)

end StreamWriter

end ScriptBundle
