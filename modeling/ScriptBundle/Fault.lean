import ScriptBundle.Hexadecimal
import ScriptBundle.Records

/-!
# The wording of decoding faults
-/

namespace ScriptBundle.Fault

def message : Fault → String
  | .endOfInput => "failed to fill whole buffer"
  | .integerOverflow => "variable-length integer overflows 64 bits"
  | .tooManyRecords count => s!"{count} records exceeds limit of {Records.maxCount}"
  | .recordTooLong length => s!"record of {length} bytes exceeds limit"
  | .recordCut => "unexpected end of file"
  | .lengthOutOfRange stored =>
      "bytecode length prefix " ++ Hexadecimal.render stored ++ " out of range"
  | .blockCut held expected => s!"bytecode block holds {held} of {expected} bytes"
  | .corruptStream => "corrupt bytecode stream"

end ScriptBundle.Fault
