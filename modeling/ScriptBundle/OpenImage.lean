import ScriptBundle.PortableExecutable

/-!
# Images that are changed in place

A file that is open for reading and writing has a position, which may be moved to any
place.  Behind the last byte there is nothing to read, and what is written there
fills the gap with zeros.  An editor of an image works on such a file, and what it
has done to it stays done when it fails.
-/

namespace ScriptBundle

open PortableExecutable (ImageError)

/-- The bytes of an image, and where the next of them is read or written. -/
structure OpenImage where
  content : Bytes
  position : Nat
  deriving DecidableEq, Repr

/-- An editor reads and writes an image. -/
abbrev Editor (α : Type) := ExceptT ImageError (StateM OpenImage) α

namespace Editor

/-- The outcome of an editor, and the image as it leaves it. -/
def edit {α : Type} (editor : Editor α) (image : OpenImage) : Except ImageError α × OpenImage :=
  (editor.run).run image

/-- Goes to a place in the file, or behind it. -/
def seek (position : Nat) : Editor Unit := ExceptT.mk fun image =>
  (.ok (), { image with position })

/-- The next `count` bytes, all of them. -/
def read (count : Nat) : Editor Bytes := ExceptT.mk fun image =>
  let taken := (image.content.drop image.position).take count
  let outcome := if taken.length = count then .ok taken else .error .truncated
  (outcome, { image with position := image.position + taken.length })

/-- The next `width` bytes as a little-endian word. -/
def word (width : Nat) : Editor Nat :=
  littleEndianValue <$> read width

/-- Writes over the next bytes. -/
def write (bytes : Bytes) : Editor Unit := ExceptT.mk fun image =>
  (.ok (),
    { content := overwrite image.content image.position bytes
      position := image.position + bytes.length })

/-- Goes behind the signature of the image header, which starts at the outcome. -/
def findHeader : Editor Nat := do
  seek PortableExecutable.headerPointerOffset
  let offset ← word 4
  seek offset
  let found ← word 4
  if found = PortableExecutable.headerSignature then return offset
  else throw (.badSignature offset found)

/-- Puts the file signature back. -/
def restoreSignature : Editor Unit := do
  seek 0
  write PortableExecutable.fileSignature

/-- Switches the subsystem word to console.  The outcome is where it stands. -/
def setConsole : Editor Nat := do
  let field := (← findHeader) + PortableExecutable.subsystemOffset
  seek field
  write (littleEndian 2 PortableExecutable.consoleSubsystem)
  return field

/-- The subsystem word. -/
def subsystem : Editor Nat := do
  seek ((← findHeader) + PortableExecutable.subsystemOffset)
  word 2

end Editor

end ScriptBundle
