import ScriptBundle.Artifact.Reader
import ScriptBundle.Schedule.Runner

/-!
# Launching artifacts

A launch loads an artifact into an engine and runs it.  An artifact that cannot
be loaded is not run at all.
-/

namespace ScriptBundle

/-- What a launch leaves behind. -/
structure Launched where
  exitCode : Int32
  engine : Engine
  diagnostics : Diagnostics

namespace Launched

/-- The exit code of a run. -/
def exitCodeOf : Except RunError RunOutcome → Int32
  | .ok outcome => outcome.exitCode
  | .error error => error.exitCode

end Launched

namespace ArtifactReader

/-- Runs the program that an engine has loaded. -/
def runLoaded (reader : ArtifactReader) (engine : Engine) (clock : Clock) (passes : Nat)
    (diagnostics : Diagnostics) : Except Interruption Launched := do
  let runner : Runner := { session := .ofEngine engine false, clock := clock }
  let ((outcome, diagnostics), runner) ← runner.run passes diagnostics reader.path.text
  return { exitCode := Launched.exitCodeOf outcome, engine := runner.session.engine, diagnostics }

/-- Loads an image into an engine and runs it. -/
def launchImage (reader : ArtifactReader) (image : Bytes) (engine : Engine) (clock : Clock)
    (passes : Nat) (diagnostics : Diagnostics) : Except Interruption Launched :=
  match reader.load image engine with
  | (.error _, engine) => .ok { exitCode := failureExitCode, engine, diagnostics }
  | (.ok _, engine) => reader.runLoaded engine clock passes diagnostics

/-- Launches the artifact that the reader's path leads to. -/
def launch (reader : ArtifactReader) (system : FileSystem) (engine : Engine) (clock : Clock)
    (passes : Nat) (diagnostics : Diagnostics) : Except Interruption Launched :=
  match reader.image system with
  | .error _ => .ok { exitCode := failureExitCode, engine, diagnostics }
  | .ok image => reader.launchImage image engine clock passes diagnostics

end ArtifactReader

end ScriptBundle
