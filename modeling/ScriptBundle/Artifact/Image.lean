import ScriptBundle.DataSection
import ScriptBundle.Platform
import ScriptBundle.PortableExecutable

/-!
# Artifact images

An artifact is a stub with a data section appended to it.  A Windows loader finds
the section behind the image that the stub's own section table describes, so
nothing may stand between the two.  Elsewhere the last eight bytes of the file
hold the length of the stub.
-/

namespace ScriptBundle.Artifact

open PortableExecutable (ImageError)

/-- A Windows stub with its signature, and with the console subsystem if asked
for.  Its image has to end where the stub does. -/
def prepareStub (console : Bool) (stub : Bytes) : Except ImageError Bytes := do
  let restored := PortableExecutable.restoreSignature stub
  let patched ←
    if console then (·.2) <$> PortableExecutable.setConsoleSubsystem restored
    else pure restored
  let ended ← PortableExecutable.endOfSections patched
  if ended = stub.length then return patched
  else throw (.endMismatch ended stub.length)

/-- The length of the stub as it stands at the end of a file. -/
def trailer (stub : Bytes) : Bytes :=
  littleEndian DataSection.trailerLength stub.length

/-- The bytes of an artifact. -/
def assemble (platform : Platform) (console : Bool) (stub data : Bytes) :
    Except ImageError Bytes :=
  if platform.usesSectionTable then (· ++ data) <$> prepareStub console stub
  else .ok (stub ++ data ++ trailer stub)

/-- Why there is no data section. -/
inductive BoundsError where
  | header (error : ImageError)
  | outOfRange (offset length : Nat)
  deriving DecidableEq, Repr

/-- The last `count` bytes. -/
def lastBytes (count : Nat) (bytes : Bytes) : Bytes :=
  bytes.drop (bytes.length - count)

/-- Where the data section starts, and where it has to end at the latest.  There
is at least one byte between the two. -/
def bounds (platform : Platform) (image : Bytes) : Except BoundsError (Nat × Nat) := do
  let (start, limit) ←
    if platform.usesSectionTable then
      match PortableExecutable.endOfSections image with
      | .ok start => .ok (start, image.length)
      | .error error => .error (.header error)
    else if image.length < DataSection.trailerLength then .error (.outOfRange 0 image.length)
    else
      .ok (littleEndianValue (lastBytes DataSection.trailerLength image),
        image.length - DataSection.trailerLength)
  if start < limit then return (start, limit)
  else throw (.outOfRange start image.length)

end ScriptBundle.Artifact
