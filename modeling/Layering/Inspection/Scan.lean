import Layering.Inspection.Detector
import Layering.Settings
import Layering.Workspace.Action

/-!
# Scans

A scan puts every module of a project before every detector. It changes nothing.
-/

namespace Layering

/-- What a scan looks for. -/
structure Scan where
  detectors : List Detector
  settings : Settings := {}
  /-- The rules that are asked for; all of them if there are none. -/
  rules : List Text := []

namespace Scan

/-- The rule is asked for. -/
def wants (scan : Scan) (rule : Text) : Bool := scan.rules = [] || scan.rules.contains rule

/-- The detectors that may report a rule that is asked for. -/
def wanted (scan : Scan) : List Detector :=
  scan.detectors.filter fun d => scan.rules = [] || d.rules.any scan.rules.contains

/-- Puts a module before a detector. A failure is only mentioned. -/
def consult (scan : Scan) (m : Module) (d : Detector) : Action (List Violation) := do
  match d.detect (← get) m with
  | .ok found => pure (found.filter fun v => scan.wants v.rule && scan.settings.allowsRule v.rule)
  | .error e =>
    Action.say .warning (d.name ++ " failed on " ++ m.path.text ++ ": " ++ e.message)
    pure []

/-- The violations in one module. -/
def check (scan : Scan) (m : Module) : Action (List Violation) := do
  let found := (← scan.wanted.mapM (scan.consult m)).flatten
  if found ≠ [] then
    Action.say .debug (m.component ++ ": " ++ Text.ofNat found.length ++ " violation(s)")
  pure found

/-- The violations in a project, module by module. -/
def run (scan : Scan) (root : Path) : Action (List Violation) := do
  let modules ← Action.askFault (Module.discover · root)
  Action.say .step ("Scanning " ++ Text.ofNat modules.length ++ " module(s) under " ++ root.text)
  let found := (← modules.mapM scan.check).flatten
  Action.say .step ("Found " ++ Text.ofNat found.length ++ " violation(s)")
  pure found

end Scan

end Layering
