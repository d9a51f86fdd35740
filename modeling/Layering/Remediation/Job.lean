import Layering.Entries
import Layering.Repair.FixerTable

/-!
# Jobs

A job is one violation with the fixers for it. Jobs are planned before any of them is done, and in
groups by rule.
-/

namespace Layering

/-- A violation that is to be repaired. -/
structure Job where
  index : Nat
  violation : Violation
  /-- The fixers that accept the violation, best first. -/
  fixers : List Fixer
  /-- The files that one of the fixers may change, resolved, and each one once. -/
  targets : List Path := []
  /-- Why the files are not known. -/
  planningError : Option Text := none

namespace Job

/-- Violations in groups by rule. Groups and violations keep their order. -/
def byRule (violations : List Violation) : List Violation :=
  (Entries.group Violation.rule violations).flatMap (·.2)

/-- The fixers for a violation: those that the table has for its rule, that the settings allow and
that accept the violation. -/
def candidates (table : FixerTable) (settings : Settings) (v : Violation) : List Fixer :=
  (table.forRule v.rule).filter fun f => settings.allowsFixer f.name && f.accepts v

/-- The files that some fixers may change for a violation. -/
def targetsOf (c : RepairContext) (s : Site) (v : Violation) (fixers : List Fixer) :
    Except Failure (List Path) := do
  let targets ← fixers.mapM fun f => f.targets c v s
  .ok (targets.flatten.map s.resolve).eraseDups

/-- The job of a violation. -/
def plan (c : RepairContext) (s : Site) (index : Nat) (v : Violation) (fixers : List Fixer) : Job :=
  match targetsOf c s v fixers with
  | .ok targets => { index, violation := v, fixers, targets }
  | .error e =>
    { index, violation := v, fixers
      planningError := some ("Could not determine target files: " ++ e.message) }

/-- The jobs for violations of enabled rules. -/
def planAll (table : FixerTable) (settings : Settings) (c : RepairContext) (s : Site)
    (violations : List Violation) : List Job :=
  (byRule (violations.filter fun v => settings.allowsRule v.rule)).mapIdx fun index v =>
    plan c s index v (candidates table settings v)

end Job

end Layering
