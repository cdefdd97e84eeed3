import ScriptBundle.Varint

/-!
# Record lists

A record list is a count followed by the records, each as its length and its
raw bytes.  The same layout holds the resources of an artifact and, inside the
encoded block, the plugin list.
-/

namespace ScriptBundle.Records

/-- The most records one list may hold. -/
def maxCount : Nat := 65536

/-- The most bytes one record may hold. -/
def maxLength : Nat := 1073741824

def encodeRecord (record : Bytes) : Bytes :=
  Varint.encode record.length ++ record

def encode (records : List Bytes) : Bytes :=
  Varint.encode records.length ++ records.flatMap encodeRecord

def decodeRecord : Decoder Bytes := do
  let length ← Varint.decode
  if maxLength < length then throw (.recordTooLong length)
  else Decoder.takeOr length fun _ => .recordCut

def decode : Decoder (List Bytes) := do
  let count ← Varint.decode
  if maxCount < count then throw (.tooManyRecords count)
  else decodeRecord.times count

end ScriptBundle.Records
