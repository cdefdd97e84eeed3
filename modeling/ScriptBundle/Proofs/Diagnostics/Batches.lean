import ScriptBundle.Diagnostics
import Mathlib.Data.List.Induction

/-!
# Diagnostics in batches

Messages are pushed, the information message that is held is forgotten or promoted, and reports
are asked for, in any order.  A report that is given ends a batch.  The collected texts are what
the batch since then has brought, each message behind the information that was held when it was
pushed.
-/

namespace ScriptBundle

/-- The texts that messages are collected in. -/
inductive Buffer where
  | warnings
  | errors
  | unpositioned
  deriving DecidableEq

/-- The text that a message is added to.  Information is held and added to none. -/
def Message.buffer? (message : Message) : Option Buffer :=
  match message.severity with
  | .information => none
  | .warning => some .warnings
  | .error => if message.row = 0 then some .unpositioned else some .errors

namespace Diagnostics

/-- What can be asked of diagnostics. -/
inductive Request where
  | push (message : Message)
  | error (source text : String)
  | clearInformation
  | promoteInformation
  | report (showWarnings : Bool)

namespace Request

def message? : Request → Option Message
  | .push message => some message
  | .error source text => some (.unpositioned source text)
  | _ => none

/-- The information that is held after the request, if the request decides it. -/
def holds? : Request → Option String
  | .push message => if message.severity = .information then some message.render else none
  | .clearInformation | .promoteInformation => some ""
  | _ => none

/-- The errors among the messages that are pushed. -/
def errorsAmong (requests : List Request) : List Message :=
  (requests.filterMap message?).filter (·.severity = .error)

/-- The information message that was pushed last, unless it was cleared or promoted since. -/
def held (requests : List Request) : String :=
  (requests.reverse.findSome? holds?).getD ""

/-- What a request adds to a text while some information is held. -/
def adds (request : Request) (information : String) (buffer : Buffer) : String :=
  match request, request.message? with
  | .promoteInformation, _ => if buffer = .errors then information else ""
  | _, some message => if message.buffer? = some buffer then information ++ message.render else ""
  | _, none => ""

/-- What the requests of a batch add to a text, one after the other, behind those before it. -/
def gathered (buffer : Buffer) : (before batch : List Request) → String
  | _, [] => ""
  | before, request :: batch =>
      request.adds (held before) buffer ++ gathered buffer (before ++ [request]) batch

theorem errorsAmong_append (requests batch : List Request) :
    errorsAmong (requests ++ batch) = errorsAmong requests ++ errorsAmong batch := by
  simp [errorsAmong]

theorem held_concat (requests : List Request) (request : Request) :
    held (requests ++ [request]) = request.holds?.getD (held requests) := by
  rw [held, held, List.reverse_append, List.reverse_singleton, List.singleton_append,
    List.findSome?_cons]
  cases request.holds? <;> rfl

theorem gathered_concat (buffer : Buffer) (before batch : List Request) (request : Request) :
    gathered buffer before (batch ++ [request]) =
      gathered buffer before batch ++ request.adds (held (before ++ batch)) buffer := by
  induction batch generalizing before with
  | nil => simp [gathered]
  | cons first batch ih =>
      rw [List.cons_append, gathered, gathered, ih, String.append_assoc, List.append_assoc,
        List.singleton_append]

end Request

open Request

def text (diagnostics : Diagnostics) : Buffer → String
  | .warnings => diagnostics.warnings
  | .errors => diagnostics.errors
  | .unpositioned => diagnostics.unpositioned

/-- Only a request for a report is answered, and not every one. -/
def handle (diagnostics : Diagnostics) : Request → Option Report × Diagnostics
  | .push message => (none, diagnostics.push message)
  | .error source text => (none, diagnostics.error source text)
  | .clearInformation => (none, diagnostics.clearInformation)
  | .promoteInformation => (none, diagnostics.promoteInformation)
  | .report showWarnings => diagnostics.report showWarnings

/-- The diagnostics after some requests. -/
def after (requests : List Request) : Diagnostics :=
  requests.foldl (fun diagnostics request => (diagnostics.handle request).2) {}

@[simp]
theorem after_concat (requests : List Request) (request : Request) :
    after (requests ++ [request]) = ((after requests).handle request).2 := by
  simp [after]

theorem isEmpty_iff (diagnostics : Diagnostics) :
    diagnostics.isEmpty = true ↔ ∀ buffer, diagnostics.text buffer = "" := by
  rw [isEmpty, decide_eq_true_iff]
  constructor
  · rintro ⟨herrors, hwarnings, hunpositioned⟩ buffer
    cases buffer with
    | warnings => exact hwarnings
    | errors => exact herrors
    | unpositioned => exact hunpositioned
  · intro hempty
    exact ⟨hempty .errors, hempty .warnings, hempty .unpositioned⟩

/-- A report that is not given leaves everything, and one that is given leaves the information. -/
theorem report_cases (diagnostics : Diagnostics) (showWarnings : Bool) :
    diagnostics.isEmpty = true ∧ diagnostics.report showWarnings = (none, diagnostics) ∨
      diagnostics.isEmpty = false ∧ ∃ report,
        diagnostics.report showWarnings =
          (some report, { information := diagnostics.information }) := by
  unfold report
  split
  · rename_i hempty
    exact .inl ⟨hempty, rfl⟩
  · rename_i hempty
    exact .inr ⟨Bool.eq_false_iff.mpr hempty, _, rfl⟩

/-! ## What one request does -/

theorem push_text (diagnostics : Diagnostics) (message : Message) (buffer : Buffer) :
    (diagnostics.push message).text buffer = diagnostics.text buffer ++
      if message.buffer? = some buffer then diagnostics.information ++ message.render else "" := by
  unfold push Message.buffer?
  cases message.severity with
  | information => cases buffer <;> simp [text]
  | warning => cases buffer <;> simp [text]
  | error => by_cases hrow : message.row = 0 <;> cases buffer <;> simp [text, hrow]

theorem push_information (diagnostics : Diagnostics) (message : Message) :
    (diagnostics.push message).information =
      (Request.push message).holds?.getD diagnostics.information := by
  unfold push
  cases hseverity : message.severity with
  | information => simp [holds?, hseverity]
  | warning => simp [holds?, hseverity]
  | error => by_cases hrow : message.row = 0 <;> simp [holds?, hseverity, hrow]

theorem push_errorCount (diagnostics : Diagnostics) (message : Message) :
    (diagnostics.push message).errorCount =
      diagnostics.errorCount + (errorsAmong [.push message]).length := by
  unfold push
  cases hseverity : message.severity with
  | information => simp [errorsAmong, message?, hseverity]
  | warning => simp [errorsAmong, message?, hseverity]
  | error => by_cases hrow : message.row = 0 <;> simp [errorsAmong, message?, hseverity, hrow]

/-- Information outlives reports. -/
theorem handle_information (diagnostics : Diagnostics) (request : Request) :
    (diagnostics.handle request).2.information =
      request.holds?.getD diagnostics.information := by
  cases request with
  | push message => exact push_information diagnostics message
  | error source text => exact push_information diagnostics (.unpositioned source text)
  | clearInformation => rfl
  | promoteInformation => rfl
  | report showWarnings =>
      rcases report_cases diagnostics showWarnings with ⟨-, hreport⟩ | ⟨-, report, hreport⟩ <;>
        rw [handle, hreport] <;> rfl

/-- A request without an answer adds to the texts and to the number of errors. -/
theorem handle_of_unanswered {diagnostics : Diagnostics} {request : Request}
    (hanswer : (diagnostics.handle request).1 = none) :
    (∀ buffer, (diagnostics.handle request).2.text buffer =
      diagnostics.text buffer ++ request.adds diagnostics.information buffer) ∧
      (diagnostics.handle request).2.errorCount =
        diagnostics.errorCount + (errorsAmong [request]).length := by
  cases request with
  | push message => exact ⟨push_text diagnostics message, push_errorCount diagnostics message⟩
  | error source text =>
      exact ⟨push_text diagnostics (.unpositioned source text),
        push_errorCount diagnostics (.unpositioned source text)⟩
  | clearInformation =>
      exact ⟨fun buffer => by cases buffer <;> exact String.append_empty.symm, rfl⟩
  | promoteInformation =>
      exact ⟨fun buffer => by cases buffer <;> simp [handle, promoteInformation, text, adds], rfl⟩
  | report showWarnings =>
      rcases report_cases diagnostics showWarnings with ⟨-, hreport⟩ | ⟨-, report, hreport⟩
      · rw [handle, hreport]
        exact ⟨fun buffer => String.append_empty.symm, rfl⟩
      · rw [handle, hreport] at hanswer
        cases hanswer

/-! ## What a batch does -/

/-- The batch is what was asked since the last report that was given. -/
structure SinceReport (before batch : List Request) : Prop where
  opened : before = [] ∨ ∃ earlier showWarnings, before = earlier ++ [.report showWarnings] ∧
    ((after earlier).report showWarnings).1 ≠ none
  quiet : ∀ earlier showWarnings later, batch = earlier ++ .report showWarnings :: later →
    ((after (before ++ earlier)).report showWarnings).1 = none

/-- The information that is held does not depend on the reports. -/
theorem after_information (requests : List Request) :
    (after requests).information = held requests := by
  induction requests using List.reverseRecOn with
  | nil => rfl
  | append_singleton requests request ih =>
      rw [after_concat, handle_information, held_concat, ih]

/-- Where a batch begins, nothing is collected. -/
theorem SinceReport.fresh {before : List Request} (hbatch : SinceReport before []) :
    after before = { information := held before } := by
  rw [← after_information]
  rcases hbatch.opened with rfl | ⟨earlier, showWarnings, rfl, hgiven⟩
  · rfl
  · rw [after_concat, handle]
    rcases report_cases (after earlier) showWarnings with ⟨-, hreport⟩ | ⟨-, report, hreport⟩
    · exact absurd (congrArg Prod.fst hreport) hgiven
    · rw [hreport]

/-- A batch without its last request, which was not answered with a report. -/
theorem SinceReport.dropLast {before batch : List Request} {request : Request}
    (hbatch : SinceReport before (batch ++ [request])) :
    SinceReport before batch ∧ ((after (before ++ batch)).handle request).1 = none := by
  refine ⟨⟨hbatch.opened, fun earlier showWarnings later hsplit => ?_⟩, ?_⟩
  · exact hbatch.quiet earlier showWarnings (later ++ [request]) (by simp [hsplit])
  · cases request with
    | report showWarnings => exact hbatch.quiet batch showWarnings [] rfl
    | _ => rfl

theorem SinceReport.concat {before batch : List Request} {request : Request}
    (hbatch : SinceReport before batch)
    (hanswer : ((after (before ++ batch)).handle request).1 = none) :
    SinceReport before (batch ++ [request]) := by
  refine ⟨hbatch.opened, fun earlier showWarnings later hsplit => ?_⟩
  rcases List.eq_nil_or_concat later with rfl | ⟨inner, last, rfl⟩
  · obtain ⟨rfl, hrequest⟩ := List.append_inj' hsplit rfl
    cases hrequest
    exact hanswer
  · rw [List.concat_eq_append, ← List.cons_append, ← List.append_assoc] at hsplit
    exact hbatch.quiet earlier showWarnings inner (List.append_inj' hsplit rfl).1

theorem exists_sinceReport (requests : List Request) :
    ∃ before batch, requests = before ++ batch ∧ SinceReport before batch := by
  induction requests using List.reverseRecOn with
  | nil => exact ⟨[], [], rfl, .inl rfl, fun earlier _ _ hsplit => by simp at hsplit⟩
  | append_singleton requests request ih =>
      obtain ⟨before, batch, rfl, hbatch⟩ := ih
      by_cases hanswer : ((after (before ++ batch)).handle request).1 = none
      · exact ⟨before, batch ++ [request], by simp, hbatch.concat hanswer⟩
      · -- Only a report is answered, so that a new batch begins.
        refine ⟨before ++ batch ++ [request], [], by simp, ?_, fun earlier _ _ hsplit => by
          simp at hsplit⟩
        cases request with
        | report showWarnings => exact .inr ⟨before ++ batch, showWarnings, rfl, hanswer⟩
        | _ => exact absurd rfl hanswer

/-- The texts and the number of errors are those of the batch. -/
theorem SinceReport.collected {before batch : List Request} (hbatch : SinceReport before batch) :
    (∀ buffer, (after (before ++ batch)).text buffer = gathered buffer before batch) ∧
      (after (before ++ batch)).errorCount = (errorsAmong batch).length := by
  induction batch using List.reverseRecOn with
  | nil =>
      rw [List.append_nil, hbatch.fresh]
      exact ⟨fun buffer => by cases buffer <;> rfl, rfl⟩
  | append_singleton batch request ih =>
      obtain ⟨hshorter, hanswer⟩ := hbatch.dropLast
      obtain ⟨htexts, hcount⟩ := ih hshorter
      obtain ⟨hadds, hcounts⟩ := handle_of_unanswered hanswer
      rw [← List.append_assoc, after_concat]
      refine ⟨fun buffer => ?_, ?_⟩
      · rw [hadds, htexts, gathered_concat, after_information]
      · rw [hcounts, hcount, errorsAmong_append, List.length_append]

/-- Messages are collected without loss, duplication or reordering.  Since the last report that
was given, each text is made up of the messages of its kind in their order, each behind the
information that was held when it was pushed, and promoted information is among the errors.  The
errors are counted message by message.  Information is held over reports, and a report that is
not given changes nothing. -/
theorem after_batched (requests : List Request) :
    ∃ before batch, requests = before ++ batch ∧ SinceReport before batch ∧
      (∀ buffer, (after requests).text buffer = gathered buffer before batch) ∧
      (after requests).errorCount = (errorsAmong batch).length ∧
      (after requests).information = held requests ∧
      ∀ showWarnings,
        (after requests).report showWarnings = (none, after requests) ∨
          ((after requests).report showWarnings).1 ≠ none := by
  obtain ⟨before, batch, rfl, hbatch⟩ := exists_sinceReport requests
  obtain ⟨htexts, hcount⟩ := hbatch.collected
  refine ⟨before, batch, rfl, hbatch, htexts, hcount, after_information _, fun showWarnings => ?_⟩
  rcases report_cases (after (before ++ batch)) showWarnings with
    ⟨-, hreport⟩ | ⟨-, report, hreport⟩
  · exact .inl hreport
  · exact .inr (by rw [hreport]; exact Option.some_ne_none report)

example :
    (after [.push ⟨"a", 1, 1, .information, "compiling"⟩, .push ⟨"a", -2, 1, .error, "bad"⟩,
      .report false, .push ⟨"a", 5, 1, .warning, "unused"⟩]).warnings =
      Message.render ⟨"a", 1, 1, .information, "compiling"⟩ ++
        Message.render ⟨"a", 5, 1, .warning, "unused"⟩ := by
  decide +kernel

/-! ## What a report shows -/

/-- The errors are shown, or those without a position, if any error was counted. -/
theorem report_of_hasErrors {diagnostics : Diagnostics} (showWarnings : Bool)
    (hfull : diagnostics.isEmpty = false) (hcount : diagnostics.errorCount ≠ 0) :
    (diagnostics.report showWarnings).1 = some
      { title := "Compilation error"
        body := (if showWarnings then diagnostics.warnings else "") ++
          (if diagnostics.errors = "" then diagnostics.unpositioned else diagnostics.errors)
        failed := true } := by
  have herrors : diagnostics.hasErrors = true := by
    simpa [hasErrors] using Nat.pos_of_ne_zero hcount
  simp only [report, hfull, herrors, Bool.false_eq_true, if_false, if_true]

/-- Without a counted error, only the warnings are shown. -/
theorem report_of_not_hasErrors {diagnostics : Diagnostics} (showWarnings : Bool)
    (hfull : diagnostics.isEmpty = false) (hcount : diagnostics.errorCount = 0) :
    (diagnostics.report showWarnings).1 = some
      { title := "Compilation warnings", body := diagnostics.warnings, failed := false } := by
  have herrors : diagnostics.hasErrors = false := by simp [hasErrors, hcount]
  simp only [report, hfull, herrors, Bool.false_eq_true, if_false]

/-- Where there are errors, a report is given.  It is a failure that shows them all just when an
error was pushed since the last report.  Otherwise the errors are promoted information: the report
consists of the warnings and is no failure.  In either case the errors are gone afterwards. -/
theorem report_showsErrors_iff {requests : List Request} (herrors : (after requests).errors ≠ "")
    (showWarnings : Bool) :
    ∃ before batch report, requests = before ++ batch ∧ SinceReport before batch ∧
      (after requests).report showWarnings = (some report, { information := held requests }) ∧
      ((report.failed = true ∧ (after requests).errors.toList <:+: report.body.toList) ↔
        errorsAmong batch ≠ []) ∧
      (errorsAmong batch = [] →
        report = { title := "Compilation warnings", body := (after requests).warnings,
                   failed := false }) := by
  obtain ⟨before, batch, rfl, hbatch⟩ := exists_sinceReport requests
  obtain ⟨-, hcount⟩ := hbatch.collected
  have hfull : (after (before ++ batch)).isEmpty = false := by
    refine Bool.eq_false_iff.mpr fun hempty => herrors ?_
    exact (isEmpty_iff _).mp hempty .errors
  rcases report_cases (after (before ++ batch)) showWarnings with
    ⟨hempty, -⟩ | ⟨-, report, hreport⟩
  · rw [hfull] at hempty
    cases hempty
  have hgiven : ((after (before ++ batch)).report showWarnings).1 = some report := by rw [hreport]
  refine ⟨before, batch, report, rfl, hbatch, by rw [hreport, after_information], ?_⟩
  by_cases hnone : errorsAmong batch = []
  · rw [report_of_not_hasErrors showWarnings hfull (by simp [hcount, hnone])] at hgiven
    cases hgiven
    simp [hnone]
  · rw [report_of_hasErrors showWarnings hfull (by simp [hcount, hnone])] at hgiven
    cases hgiven
    simp only [herrors, if_false, String.toList_append, true_and, hnone, ne_eq, not_false_eq_true,
      false_implies, and_true, iff_true]
    exact (List.suffix_append _ _).isInfix

/-- An information message that is promoted before any error is pushed. -/
def promotedOnly : List Request :=
  [.push ⟨"main.script", 7, 3, .information, "null pointer"⟩, .promoteInformation]

theorem report_showsErrors_promotedOnly :
    (after promotedOnly).errors ≠ "" ∧
      ∃ report, (after promotedOnly).report true =
        (some report, { information := held promotedOnly }) ∧
          ¬ (report.failed = true ∧
            (after promotedOnly).errors.toList <:+: report.body.toList) := by
  have herrors : (after promotedOnly).errors ≠ "" := by decide +kernel
  obtain ⟨before, batch, report, hsplit, -, hreport, hshown, -⟩ :=
    report_showsErrors_iff herrors true
  have hnone : errorsAmong before ++ errorsAmong batch = [] := by
    rw [← errorsAmong_append, ← hsplit]
    rfl
  refine ⟨herrors, report, hreport, fun h => hshown.mp h (List.append_eq_nil_iff.mp hnone).2⟩

end Diagnostics

end ScriptBundle
