import ScriptBundle.Proofs.Artifact.Ending
import ScriptBundle.Proofs.Artifact.SectionTable

/-!
# Builds that fail

A build that fails counts one error more and tells it to the diagnostics.  It touches no
file but its output, and no file at all if it fails in front of the files.
-/

namespace ScriptBundle

namespace Diagnostics

end Diagnostics

namespace BuildPlan

variable {plan : BuildPlan} {system after : FileSystem} {diagnostics rest : Diagnostics}
  {program : ProgramSource} {script : Path} {error : BuildError}

end BuildPlan

end ScriptBundle
