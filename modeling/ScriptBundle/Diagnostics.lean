/-!
# Diagnostics

Messages of the compiler and of the run are collected in three texts: warnings,
errors with a position, and errors without one.  An information message is held
and put in front of the messages that follow it.  A report hands out what was
collected and starts afresh.
-/

namespace ScriptBundle

inductive Severity where
  | error
  | warning
  | information
  deriving DecidableEq, Repr

def Severity.label : Severity → String
  | .error => "ERROR"
  | .warning => "WARNING"
  | .information => "INFO"

structure Message where
  /-- The script the message is about, usually a file name. -/
  source : String
  row : Int
  column : Int
  severity : Severity
  text : String
  deriving DecidableEq, Repr

namespace Message

/-- The shown form; negative positions are shown as zero. -/
def render (message : Message) : String :=
  "file: " ++ message.source ++ "\r\nline: " ++ toString message.row.toNat ++
    " (" ++ toString message.column.toNat ++ ")\r\n" ++ message.severity.label ++ ": " ++
    message.text ++ "\r\n\r\n"

/-- An error without a position. -/
def unpositioned (source text : String) : Message :=
  { source, row := 0, column := 0, severity := .error, text }

end Message

/-- Collected messages, ready to be shown. -/
structure Report where
  title : String
  body : String
  failed : Bool
  deriving DecidableEq, Repr

structure Diagnostics where
  warnings : String := ""
  /-- Errors with a position. -/
  errors : String := ""
  /-- Errors without a position; shown only if there are no others. -/
  unpositioned : String := ""
  /-- The information message that is held. -/
  information : String := ""
  errorCount : Nat := 0
  deriving DecidableEq, Repr, Inhabited

namespace Diagnostics

def push (diagnostics : Diagnostics) (message : Message) : Diagnostics :=
  let text := message.render
  let shown := diagnostics.information ++ text
  match message.severity with
  | .information => { diagnostics with information := text }
  | .warning => { diagnostics with warnings := diagnostics.warnings ++ shown }
  | .error =>
      let counted := { diagnostics with errorCount := diagnostics.errorCount + 1 }
      if message.row = 0 then { counted with unpositioned := counted.unpositioned ++ shown }
      else { counted with errors := counted.errors ++ shown }

/-- Adds an error without a position. -/
def error (diagnostics : Diagnostics) (source text : String) : Diagnostics :=
  diagnostics.push (.unpositioned source text)

/-- Forgets the held information message. -/
def clearInformation (diagnostics : Diagnostics) : Diagnostics :=
  { diagnostics with information := "" }

/-- Moves the held information message to the errors.  It is not counted. -/
def promoteInformation (diagnostics : Diagnostics) : Diagnostics :=
  { diagnostics with
    errors := diagnostics.errors ++ diagnostics.information
    information := "" }

def hasErrors (diagnostics : Diagnostics) : Bool :=
  0 < diagnostics.errorCount

def isEmpty (diagnostics : Diagnostics) : Bool :=
  diagnostics.errors = "" ∧ diagnostics.warnings = "" ∧ diagnostics.unpositioned = ""

/-- The report on everything collected, and the diagnostics without it.  With
errors it holds the errors, and the warnings in front of them if `showWarnings`;
without errors it holds the warnings. -/
def report (diagnostics : Diagnostics) (showWarnings : Bool) : Option Report × Diagnostics :=
  if diagnostics.isEmpty then (none, diagnostics)
  else
    let shown : Report :=
      if diagnostics.hasErrors then
        { title := "Compilation error"
          body := (if showWarnings then diagnostics.warnings else "") ++
            (if diagnostics.errors = "" then diagnostics.unpositioned else diagnostics.errors)
          failed := true }
      else
        { title := "Compilation warnings"
          body := diagnostics.warnings
          failed := false }
    (some shown, { information := diagnostics.information })

end Diagnostics

end ScriptBundle
