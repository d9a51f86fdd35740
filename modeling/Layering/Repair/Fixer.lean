import Layering.Repair.Context

/-!
# Fixers

A fixer repairs violations of its rules. It declares the files that it may change before it changes
any, so that these can be guarded.
-/

namespace Layering

/-- A fixer. -/
structure Fixer where
  name : Text
  description : Text := []
  /-- Fixers of higher priority come first. -/
  priority : Int := 50
  /-- The rules whose violations may be repaired. -/
  rules : List Text
  /-- The violation can be repaired. -/
  accepts : Violation → Bool
  /-- The files that a repair may change. -/
  targets : RepairContext → Violation → Site → Except Failure (List Path)
  /-- Repairs a violation. -/
  repair : RepairContext → Violation → Action Outcome

/-- A repair that was worked out. -/
structure Patch where
  description : Text
  /-- The files that the repair changes. -/
  files : List Path
  diffs : List Text
  /-- What there is to say about the repair, also in a dry run. -/
  remarks : List Text := []
  changes : List Change

/-- What was worked out for a violation. -/
inductive Proposal where
  /-- There is nothing to do. -/
  | nothing (reason : Text)
  | patch (p : Patch)

/-- Applies a patch, unless this is a dry run. -/
def Patch.apply (p : Patch) (c : RepairContext) (v : Violation) : Action Outcome := do
  p.remarks.forM (Action.say .step)
  if !c.dryRun then p.changes.forM c.apply
  pure (.found v p.description p.files p.diffs c.dryRun)

/-- A fixer that first works out what to do. It accepts every violation of its rules. -/
def Fixer.proposing (name description : Text) (priority : Int) (rules : List Text)
    (targets : RepairContext → Violation → Site → Except Failure (List Path))
    (propose : RepairContext → Violation → Site → Except Failure Proposal) : Fixer where
  name := name
  description := description
  priority := priority
  rules := rules
  accepts v := rules.contains v.rule
  targets := targets
  repair c v := do
    if !rules.contains v.rule then
      return .skipped v (name ++ " does not handle rule " ++ v.rule)
    match ← Action.ask (propose c v) with
    | .nothing reason => return .skipped v reason
    | .patch p => p.apply c v

end Layering
