import Layering.Catalog
import Layering.Document.Json
import Layering.Violation

/-!
# Reporting

What is shown of violations, of the outcomes of a run and of the rule catalog: tables for a reader,
with marks for style in square brackets, and documents for programs.
-/

namespace Layering

/-- A column of a table. -/
structure Column where
  header : Text
  /-- The cells keep to one line. -/
  noWrap : Bool := false
deriving DecidableEq, Repr

/-- A table. -/
structure Table where
  title : Text
  columns : List Column
  rows : List (List Text)
deriving DecidableEq, Repr

/-- Something shown to a reader. -/
inductive Notice where
  | line (text : Text)
  | table (table : Table)
deriving DecidableEq, Repr

namespace Reporting

/-- Text in some style. -/
def styled (style text : Text) : Text :=
  ("[" : Text) ++ style ++ "]" ++ text ++ "[/" ++ style ++ "]"

/-- The style of a severity. -/
def severityStyle : Severity → Text
  | .error => "bold red"
  | .warning => "yellow"
  | .info => "blue"

/-- The style of a status. -/
def statusStyle : Status → Text
  | .fixed => "green"
  | .planned => "cyan"
  | .skipped => "yellow"
  | .failed => "bold red"

/-- A title with the number of rows. -/
def counted (title : Text) (n : Nat) : Text := title ++ " (" ++ Text.ofNat n ++ ")"

/-- Violations are shown by rule, then by location, then by line. -/
def inOrder (v w : Violation) : Bool :=
  if v.rule ≠ w.rule then Text.inOrder v.rule w.rule
  else if v.location ≠ w.location then Text.inOrder v.location w.location
  else v.line.getD 0 ≤ w.line.getD 0

/-- Violations, one to a row. -/
def violations (vs : List Violation) : List Notice :=
  if vs = [] then [.line (styled "bold green" "No structure violations found.")]
  else [.table {
    title := counted "Structure Violations" vs.length
    columns := [⟨"Rule", true⟩, ⟨"Severity", false⟩, ⟨"Location", false⟩, ⟨"Message", false⟩]
    rows := (vs.mergeSort inOrder).map fun v =>
      [v.rule, styled (severityStyle v.severity) v.severity.name, v.place, v.message] }]

/-- The number of changes that a row shows. -/
def maxDiffs : Nat := 6

/-- The changes of one outcome; of many only the first are shown. -/
def changes (diffs : List Text) : Text :=
  let more : List Text :=
    if diffs.length > maxDiffs then
      ["... and " ++ Text.ofNat (diffs.length - maxDiffs) ++ " more"]
    else []
  let shown := List.intercalate ['\n'] (diffs.take maxDiffs ++ more)
  if shown = [] then ['-'] else shown

/-- The outcomes of a run, one to a row, and the counts. -/
def outcomes (report : Report) (dryRun : Bool) : List Notice :=
  let table : Table := {
    title := counted (if dryRun then "Planned Fixes (dry run)" else "Applied Fixes")
      report.outcomes.length
    columns := [⟨"Rule", true⟩, ⟨"Status", false⟩, ⟨"Location", false⟩, ⟨"Description", false⟩,
      ⟨"Changes", false⟩]
    rows := report.outcomes.map fun o =>
      [o.violation.rule, styled (statusStyle o.status) o.status.name, o.violation.place,
       o.description, changes o.diffs] }
  let stopped : List Notice :=
    if report.abandoned then
      [.line (styled "bold red" "Remediation stopped early: failure threshold reached.")]
    else []
  [.table table, .line report.summary] ++ stopped

/-- The rules in the order of their identifiers. -/
def sorted (catalog : Catalog) : Catalog := catalog.mergeSort fun r s => Text.inOrder r.1 s.1

/-- A text among the facts about a rule. -/
def factOr (fallback name : Text) (facts : Document) : Text :=
  match facts.get? name with
  | some value => value.text?.getD []
  | none => fallback

/-- The rules, one to a row. A fixer is shown for a rule that can be fixed. -/
def rules (catalog : Catalog) : List Notice :=
  [.table {
    title := "Rules"
    columns := [⟨"Rule", true⟩, ⟨"Name", false⟩, ⟨"Category", false⟩, ⟨"Severity", false⟩,
      ⟨"Fixer", false⟩]
    rows := (sorted catalog).map fun (rule, facts) =>
      [rule, factOr [] "display_name" facts, factOr [] "category" facts,
       factOr [] "severity" facts,
       if (facts.get? "fixable").any Document.isTruthy then factOr ['-'] "fixer" facts else ['-']] }]

/-- Violations as a document. -/
def violationsDocument (vs : List Violation) : Document :=
  .record [("total", .int vs.length), ("violations", .list (vs.map (·.toDocument)))]

/-- The outcomes of a run as a document. -/
def outcomesDocument (report : Report) (dryRun : Bool) : Document :=
  .record (("dry_run", .bool dryRun) :: report.fields)

/-- The rules as a document. -/
def rulesDocument (catalog : Catalog) : Document :=
  .record [("rules", .record (sorted catalog))]

end Reporting

end Layering
