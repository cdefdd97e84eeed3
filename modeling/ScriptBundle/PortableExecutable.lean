import ScriptBundle.Bytes
import ScriptBundle.Hexadecimal

/-!
# Headers of Windows stubs

A Windows stub is distributed with its first two bytes cleared.  Packing puts
the signature back and may switch the subsystem word to console; loading walks
the section table to the first byte past the image, where the data section
starts.  Every function works on the bytes of the whole file.
-/

namespace ScriptBundle.PortableExecutable

/-- The signature of an executable file. -/
def fileSignature : Bytes := [0x4D, 0x5A]

/-- Where the file names the offset of its image header. -/
def headerPointerOffset : Nat := 60

/-- The word that starts an image header. -/
def headerSignature : Nat := 0x4550

/-- Offset of the subsystem word from the image header. -/
def subsystemOffset : Nat := 92

/-- The subsystem word of a console program. -/
def consoleSubsystem : Nat := 3

def fileHeaderLength : Nat := 20

def sectionHeaderLength : Nat := 40

/-- What is wrong with an image. -/
inductive ImageError where
  /-- A header lies outside the file. -/
  | truncated
  | badSignature (offset found : Nat)
  | sectionOverflow (index : Nat)
  /-- Data past the last section would hide an appended section. -/
  | endMismatch (imageEnd fileLength : Nat)
  deriving DecidableEq, Repr

namespace ImageError

def message : ImageError → String
  | .truncated => "failed to fill whole buffer"
  | .badSignature offset found =>
      "Missing PE signature at offset " ++ Hexadecimal.render offset ++
        " (found " ++ Hexadecimal.render found 8 ++ ")"
  | .sectionOverflow index => s!"Section {index} ends past the addressable range"
  | .endMismatch imageEnd fileLength =>
      "Image ends at " ++ Hexadecimal.render imageEnd ++
        " but the file is " ++ Hexadecimal.render fileLength ++ " bytes"

end ImageError

/-- The little-endian word of `width` bytes at `offset`. -/
def wordAt (width offset : Nat) (image : Bytes) : Except ImageError Nat :=
  let word := (image.drop offset).take width
  if word.length = width then .ok (littleEndianValue word) else .error .truncated

/-- Puts the file signature back. -/
def restoreSignature (image : Bytes) : Bytes :=
  overwrite image 0 fileSignature

/-- The offset of the image header, once its signature is checked. -/
def headerOffset (image : Bytes) : Except ImageError Nat := do
  let offset ← wordAt 4 headerPointerOffset image
  let found ← wordAt 4 offset image
  if found = headerSignature then return offset
  else throw (.badSignature offset found)

/-- The offset of the subsystem word, and the image with that word switched to
console. -/
def setConsoleSubsystem (image : Bytes) : Except ImageError (Nat × Bytes) := do
  let field := (← headerOffset image) + subsystemOffset
  return (field, overwrite image field (littleEndian 2 consoleSubsystem))

/-- The subsystem word. -/
def subsystem (image : Bytes) : Except ImageError Nat := do
  wordAt 2 ((← headerOffset image) + subsystemOffset) image

/-- The end of the raw data that one section header announces. -/
def sectionEnd (index : Nat) (header : Bytes) : Except ImageError Nat := do
  let size ← wordAt 4 16 header
  let pointer ← wordAt 4 20 header
  if pointer + size < UInt32.size then return pointer + size
  else throw (.sectionOverflow index)

/-- The larger of `reached` and the ends that the next `count` section headers
announce, the first of them having number `index`. -/
def sectionsEnd : (count index reached : Nat) → (headers : Bytes) → Except ImageError Nat
  | 0, _, reached, _ => .ok reached
  | count + 1, index, reached, headers =>
      let header := headers.take sectionHeaderLength
      if header.length < sectionHeaderLength then .error .truncated
      else
        match sectionEnd index header with
        | .error error => .error error
        | .ok ended =>
            sectionsEnd count (index + 1) (max reached ended) (headers.drop sectionHeaderLength)

/-- The first byte past the raw data of every section. -/
def endOfSections (image : Bytes) : Except ImageError Nat := do
  let afterSignature := image.drop ((← headerOffset image) + 4)
  let fileHeader := afterSignature.take fileHeaderLength
  if fileHeader.length < fileHeaderLength then throw .truncated
  let sections ← wordAt 2 2 fileHeader
  let optionalLength ← wordAt 2 16 fileHeader
  sectionsEnd sections 0 0 (afterSignature.drop (fileHeaderLength + optionalLength))

end ScriptBundle.PortableExecutable
