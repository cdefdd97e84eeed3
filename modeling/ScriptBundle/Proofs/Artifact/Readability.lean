import ScriptBundle.Proofs.Artifact.SlotCount

/-!
# Which artifacts can be read

The writer looks at the length of the block and at the size of the property table.  The
reader also looks at the number of records in a list and at the length of each record.  So
an artifact that was built can be read just if both of its record lists are within the
reader's limits.
-/

namespace ScriptBundle

namespace BuildPlan

variable {plan : BuildPlan} {program : ProgramSource} {system built : FileSystem}
  {script : Path} {report : BuildReport}

end BuildPlan

end ScriptBundle
