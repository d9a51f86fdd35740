import Layering.Assembly
import Layering.CommandLine.Command
import Layering.Configuration
import Layering.Console
import Layering.Inspection.Rules
import Layering.Inspection.Scan
import Layering.Remediation.Run
import Layering.Reporting

/-!
# Sessions

What a command line does: the text that it writes, the notices and the lines that it shows, and the
code that it ends with.
-/

namespace Layering

/-- What is reported in the end. -/
structure Reported where
  notices : List Notice := []
  /-- The text of the report, where it is written as a document. -/
  text : Text := []
  code : Nat := 0
deriving DecidableEq, Repr

/-- What a session comes to. -/
structure Session where
  /-- The code that it ends with, unless a failure ends it. -/
  exit : Except Failure Nat
  /-- The text that is written. -/
  output : Text := []
  notices : List Notice := []
  /-- The lines on the console. -/
  lines : List Text := []

namespace Session

/-- Something was found or failed. -/
def failureCode : Nat := 1

/-- The command line or the configuration is wrong. -/
def wrongCode : Nat := 2

/-- The line above every report for a reader. -/
def banner : Text := "STRATIFY :: layered module remediation\n"

/-- A report in the format that is asked for. -/
def reported (format : ReportFormat) (notices : List Notice) (d : Document) (failed : Bool) :
    Reported :=
  let code := if failed then failureCode else 0
  match format with
  | .table => { notices, code }
  | .json => { text := Json.render d, code }

/-- The configuration is at fault. -/
def isMisconfiguration : Failure → Bool
  | .unreadableSettings .. | .malformedSettings _ | .settingsNotMap _ => true
  | .unknownStrategy .. | .notAStrategy _ => true
  | _ => false

/-- The directory that a command works on. -/
def target (o : CommandOptions) (s : Site) : Path := s.resolve (o.path.getD s.here)

/-- Looks for violations of the rules that are asked for. -/
def find (o : CommandOptions) (settings : Settings) (target : Path) : Action (List Violation) :=
  let scan : Scan :=
    { detectors := Detector.standard (settings.mappings.map (·.1)), settings, rules := o.rules }
  scan.run target

/-- Scans a directory. -/
def scan (o : CommandOptions) : Action Reported := do
  let target := target o (← get)
  let settings ← Action.ask (Configuration.settings · target)
  let found ← find o settings target
  pure (reported o.format (Reporting.violations found) (Reporting.violationsDocument found)
    (found.any (·.severity = .error)))

/-- The report on a run. -/
def report (o : CommandOptions) (r : Report) : Reported :=
  reported o.format (Reporting.outcomes r !o.isApplied) (Reporting.outcomesDocument r !o.isApplied)
    r.hasFailures

/-- Repairs what was found, and reports on it. -/
def repair (o : CommandOptions) (settings : Settings) (fixers : FixerTable)
    (strategy : SnapshotStrategy) (target : Path) (found : List Violation) : Action Reported := do
  let project ← Action.askFault (Configuration.projectRoot · target)
  Action.say .step ((if o.isApplied then ("Applying" : Text) else "Simulating") ++ " fixes for "
    ++ Text.ofNat found.length ++ " violation(s) (backup: " ++ strategy.name ++ ")")
  let plan : Remediation := { table := fixers, strategy, settings }
  let plan := { plan with
    maxFailures := (o.maxFailures.map Int.ofNat).or plan.maxFailures
    maxWorkers := (o.workers.map Int.ofNat).getD plan.maxWorkers }
  let context : RepairContext :=
    { projectRoot := project, moduleRoot := target, dryRun := !o.isApplied, group := settings.group
      project := settings.project, mappings := settings.mappings }
  let r ← (plan.run context found : StateM Site Report)
  if !o.isApplied then
    Action.say .step "Dry run: no files were changed. Re-run with --apply to write."
  pure (report o r)

/-- Scans a directory and repairs what is found. -/
def fix (o : CommandOptions) (a : Assembly) : Action Reported := do
  let target := target o (← get)
  let settings ← Action.ask (Configuration.settings · target)
  let (_, strategy) ← Action.ask fun _ => (a.strategies.select (some settings.strategy)).1
  let found ← find o settings target
  if found = [] then
    Action.say .step "Nothing to fix."
    pure (match o.format with
      | .table => {}
      | .json => report o {})
  else repair o settings a.fixers strategy target found

/-- A wrong configuration is only mentioned. -/
def mentioningFaults (work : Action Reported) : Action Reported := do
  match ← Action.attempt work with
  | .ok r => pure r
  | .error e =>
    if isMisconfiguration e then
      Action.say .error e.message
      pure { code := wrongCode }
    else throw e

/-- Runs a command with a greeting before it. -/
def greeted (c : Console) (format : ReportFormat) (work : Action Reported) :
    StateM Site Session := do
  modify fun s => { s with messages := [] }
  let result ← (mentioningFaults work).run
  let banner := if format = .table then banner else []
  let lines := c.greeting :: ((← get).messages.filterMap c.line?)
  match result with
  | .ok r => pure ⟨.ok r.code, banner ++ r.text, r.notices, lines⟩
  | .error e => pure ⟨.error e, banner, [], lines⟩

/-- Does what a command line asks for. -/
def run (c : Console) (a : Assembly) : CommandLine → StateM Site Session
  | .help => pure { exit := .ok 0 }
  | .wrong => pure { exit := .ok wrongCode }
  | .command (.scan o) => greeted c o.format (scan o)
  | .command (.fix o) => greeted c o.format (fix o a)
  | .command (.rules o) =>
    let r := reported o.format (Reporting.rules .standard) (Reporting.rulesDocument .standard) false
    pure ⟨.ok r.code, r.text, r.notices, []⟩

end Session

end Layering
