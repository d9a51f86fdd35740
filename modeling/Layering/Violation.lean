import Layering.Document
import Layering.Path
import Layering.Text.Case

/-!
# Violations and their repair

A violation says which rule is broken and where; an outcome says what a repair made of it; a report
lists the outcomes of one run.
-/

namespace Layering

/-- How bad a violation is. -/
inductive Severity where
  | error | warning | info
deriving DecidableEq, Repr

/-- The name of a severity. -/
def Severity.name : Severity → Text
  | .error => "error"
  | .warning => "warning"
  | .info => "info"

/-- The severity of a name. -/
def Severity.ofName? (name : Text) : Option Severity :=
  [Severity.error, .warning, .info].find? (·.name = name)

/-- A broken rule. -/
structure Violation where
  /-- The identifier of the rule. -/
  rule : Text
  message : Text := []
  location : Text := []
  /-- The category, if it is not the one that the rule has by its name. -/
  ownCategory : Text := []
  found : Text := []
  expected : Text := []
  suggestion : Text := []
  reference : Text := []
  severity : Severity := .warning
  line : Option Int := none
deriving DecidableEq, Repr

namespace Violation

/-- The category that a rule has by the start of its name, in any case. -/
def categoryOf (rule : Text) : Text :=
  let start := Text.upper (rule.takeWhile (· ≠ '-'))
  if start = "MS" then "ModuleStructure"
  else if start = "MD" then "ModuleDependencies"
  else if start = "AG" then "Aggregator"
  else if start = "PA" then "Parent"
  else if start = "FA" then "FacadeDesign"
  else if start = "FX" then "FixerDesign"
  else if start = "NC" then "NamingConventions"
  else if start = "DP" then "DependencyPatterns"
  else "Other"

/-- The category of a violation. -/
def category (v : Violation) : Text :=
  if v.ownCategory = [] then categoryOf v.rule else v.ownCategory

/-- The location with the line. -/
def place (v : Violation) : Text :=
  match v.line with
  | some n => v.location ++ ':' :: Text.ofInt n
  | none => v.location

/-- A violation as a document. -/
def toDocument (v : Violation) : Document := .record [
  ("rule_id", .text v.rule), ("rule_category", .text v.category), ("message", .text v.message),
  ("location", .text v.location), ("line", (v.line.map Document.int).getD .null),
  ("found", .text v.found), ("expected", .text v.expected),
  ("suggested_fix", .text v.suggestion), ("reference", .text v.reference),
  ("severity", .text v.severity.name)]

end Violation

/-- What became of a violation. -/
inductive Status where
  | fixed | skipped | failed
  /-- A repair was worked out and not applied. -/
  | planned
deriving DecidableEq, Repr

namespace Status

/-- The name of a status. -/
def name : Status → Text
  | .fixed => "fixed"
  | .skipped => "skipped"
  | .failed => "failed"
  | .planned => "dry_run"

/-- Every status. -/
def all : List Status := [.fixed, .skipped, .failed, .planned]

/-- A repair was found. -/
def isSuccess : Status → Bool
  | .fixed | .planned => true
  | _ => false

end Status

/-- The outcome of one repair. -/
structure Outcome where
  violation : Violation
  status : Status
  description : Text
  /-- The files that were changed. -/
  modified : List Path := []
  /-- The files that a full run changes, also when nothing was applied. -/
  planned : List Path := []
  diffs : List Text := []
deriving DecidableEq, Repr

namespace Outcome

/-- A repair that was applied. -/
def fixed (v : Violation) (description : Text) (files : List Path) (diffs : List Text) : Outcome :=
  ⟨v, .fixed, description, files, files, diffs⟩

/-- A repair that was only worked out. -/
def planOnly (v : Violation) (description : Text) (files : List Path) (diffs : List Text) :
    Outcome :=
  ⟨v, .planned, description, [], files, diffs⟩

/-- No repair applies. -/
def skipped (v : Violation) (reason : Text) : Outcome :=
  { violation := v, status := .skipped, description := reason }

/-- The repair failed. -/
def failed (v : Violation) (reason : Text) : Outcome :=
  { violation := v, status := .failed, description := reason }

/-- A repair that was found, and applied unless this is a dry run. -/
def found (v : Violation) (description : Text) (files : List Path) (diffs : List Text)
    (dryRun : Bool) : Outcome :=
  if dryRun then planOnly v description files diffs else fixed v description files diffs

/-- An outcome as a document. -/
def toDocument (o : Outcome) : Document := .record [
  ("violation", o.violation.toDocument), ("status", .text o.status.name),
  ("description", .text o.description), ("modified_files", .texts (o.modified.map (·.text))),
  ("planned_files", .texts (o.planned.map (·.text))), ("diffs", .texts o.diffs)]

end Outcome

/-- The outcomes of one run. -/
structure Report where
  outcomes : List Outcome := []
  /-- The run stopped early because of its failures. -/
  abandoned : Bool := false
deriving DecidableEq, Repr

namespace Report

/-- The number of outcomes with some status. -/
def count (r : Report) (s : Status) : Nat := r.outcomes.countP (·.status = s)

/-- Some repair failed. -/
def hasFailures (r : Report) : Bool := r.outcomes.any (·.status = .failed)

/-- The counts in one line. -/
def summary (r : Report) : Text :=
  "Total: " ++ Text.ofNat r.outcomes.length ++ ", Fixed: " ++ Text.ofNat (r.count .fixed)
    ++ ", Would Fix: " ++ Text.ofNat (r.count .planned) ++ ", Failed: "
    ++ Text.ofNat (r.count .failed) ++ ", Skipped: " ++ Text.ofNat (r.count .skipped)

/-- The entries of a report as a document. -/
def fields (r : Report) : List (Text × Document) :=
  [("summary", .record (Status.all.map fun s => (s.name, .int (r.count s)))),
   ("abandoned", .bool r.abandoned),
   ("results", .list (r.outcomes.map (·.toDocument)))]

end Report

end Layering
