import ScriptBundle.Bytes

/-!
# Byte streams

A stream is asked for a number of bytes and hands out as many of them as it has.
Whoever reads from a stream may keep a count of the bytes it was given; the count
is the reader's own and does not depend on what the stream counts itself.
-/

namespace ScriptBundle

/-- Something that hands out bytes.  Fewer than were asked for are the last
ones. -/
class ByteStream (σ : Type) where
  read : σ → (count : Nat) → Bytes × σ

/-- Bytes in memory. -/
instance : ByteStream Bytes where
  read bytes count := (bytes.take count, bytes.drop count)

/-- A stream, and the number of bytes that were taken from it. -/
structure Counted (σ : Type) where
  inner : σ
  offset : Nat

namespace Counted

/-- A stream that nothing was taken from yet. -/
def start {σ : Type} (inner : σ) : Counted σ :=
  { inner, offset := 0 }

def read {σ : Type} [ByteStream σ] (stream : Counted σ) (count : Nat) : Bytes × Counted σ :=
  let (bytes, inner) := ByteStream.read stream.inner count
  (bytes, { inner, offset := stream.offset + bytes.length })

end Counted

end ScriptBundle
