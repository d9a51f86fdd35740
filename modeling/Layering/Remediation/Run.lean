import Layering.Remediation.Lane
import Layering.Snapshot.Transaction

/-!
# Runs

A run repairs violations, each under the guard of a transaction, and reports on every one of them.
It ends early after a number of failures, and it never fails itself.
-/

namespace Layering

/-- How violations are repaired. -/
structure Remediation where
  table : FixerTable
  strategy : SnapshotStrategy
  settings : Settings := {}
  /-- The number of failures after which no more is tried; what is not positive counts as one. -/
  maxFailures : Option Int := settings.maxFailures.map Int.ofNat
  /-- The number of lanes that may be worked on at a time. -/
  maxWorkers : Int := settings.maxWorkers
  /-- What a fixer skips is handed to the next one. -/
  fallthrough : Bool := settings.fallthrough
  /-- The run says what it does. -/
  speaks : Bool := true

/-- How many repairs have failed, and whether no more is tried. -/
structure Progress where
  failures : Nat := 0
  abandoned : Bool := false
deriving DecidableEq, Repr

/-- Records an outcome. -/
def Progress.record (limit : Option Int) (o : Outcome) (p : Progress) : Progress :=
  if o.status = .failed then
    let failures := p.failures + 1
    ⟨failures, p.abandoned || (limit.any fun limit => decide (limit ≤ (failures : Int)))⟩
  else p

/-- How far a run has come: a slot for the outcome of each job, and the failures so far. -/
structure Board where
  slots : List (Option Outcome)
  progress : Progress := {}

namespace Board

/-- The board of a run that has done nothing yet. -/
def blank (jobs : Nat) : Board := { slots := List.replicate jobs none }

/-- Fills the slot of a job. -/
def fill (job : Job) (o : Outcome) (b : Board) : Board :=
  { b with slots := b.slots.set job.index (some o) }

/-- Records an outcome. -/
def record (limit : Option Int) (o : Outcome) (b : Board) : Board :=
  { b with progress := b.progress.record limit o }

/-- The outcomes in the order of their jobs. A slot that was never filled is left out. -/
def report (b : Board) : Report := ⟨b.slots.filterMap id, b.progress.abandoned⟩

end Board

namespace Remediation

/-- Says something about the run itself. -/
def say (r : Remediation) (kind : Message.Kind) (text : Text) : StateM Site Unit :=
  if r.speaks then modify fun s => { s with messages := s.messages ++ [⟨kind, text⟩] } else pure ()

/-- What is said of a violation that could not be repaired. -/
def complaint (v : Violation) (f : Fixer) (e : Failure) : Text :=
  "Failed to fix " ++ v.rule ++ " violation with " ++ f.name ++ ": " ++ e.message

/-- The outcome of a repair. A failure is said aloud. -/
def conclude (r : Remediation) (v : Violation) (f : Fixer) :
    Except Failure Outcome → StateM Site Outcome
  | .ok outcome => pure outcome
  | .error e => do
    r.say .error (complaint v f e)
    pure (.failed v (complaint v f e))

/-- The transaction that guards some files, unless this is a dry run. -/
def guard (r : Remediation) (c : RepairContext) (files : List Path) : Transaction :=
  { strategy := r.strategy, files, project := c.projectRoot, enabled := !c.dryRun }

/-- A repair that says of itself that it failed is taken back. -/
def accepts (o : Outcome) : Bool := o.status ≠ .failed

/-- Lets a fixer repair a violation. If that fails in any way, the files are as before. -/
def repair (r : Remediation) (c : RepairContext) (v : Violation) (f : Fixer) :
    StateM Site Outcome := do
  match f.targets c v (← get) with
  | .error e => r.conclude v f (.error e)
  | .ok files =>
    let ending ← (r.guard c files).run accepts (f.repair c v)
    r.conclude v f ending.result

/-- The next fixer is to be tried as well. -/
def passesOn (r : Remediation) (o : Outcome) : Bool := o.status = .skipped && r.fallthrough

/-- Lets the fixers repair a violation: the first, or, where a skipped violation is handed on, each
one up to the first that does not skip it. -/
def repairWith (r : Remediation) (c : RepairContext) (v : Violation) :
    List Fixer → StateM Site Outcome
  | [] => pure (.skipped v "No fixer applied")
  | [f] => r.repair c v f
  | f :: rest => do
    let outcome ← r.repair c v f
    if r.passesOn outcome then r.repairWith c v rest else pure outcome

/-- The outcome of a violation that no fixer accepts. -/
def unrepaired (v : Violation) : Outcome :=
  .skipped v ("No fixer registered for rule: " ++ v.rule)

/-- Does a job. -/
def perform (r : Remediation) (c : RepairContext) (job : Job) : StateM Site Outcome :=
  match job.planningError with
  | some reason => pure (.failed job.violation reason)
  | none =>
    if job.fixers.isEmpty then pure (unrepaired job.violation)
    else r.repairWith c job.violation job.fixers

/-- The outcome of a violation that is not tried any more. -/
def abandon (failures : Nat) (v : Violation) : Outcome :=
  .skipped v ("Abandoned after " ++ Text.ofNat failures ++ " failures")

/-- Does a job, unless the run is abandoned. -/
def step (r : Remediation) (c : RepairContext) (b : Board) (job : Job) : StateM Site Board :=
  if b.progress.abandoned then pure (b.fill job (abandon b.progress.failures job.violation))
  else do
    let outcome ← r.perform c job
    pure ((b.fill job outcome).record r.maxFailures outcome)

/-- Does the jobs of a lane, one after another. -/
def runLane (r : Remediation) (c : RepairContext) (b : Board) (lane : Lane) : StateM Site Board :=
  lane.foldlM (r.step c) b

/-- The jobs of a run. -/
def jobs (r : Remediation) (c : RepairContext) (s : Site) (violations : List Violation) :
    List Job :=
  Job.planAll r.table r.settings c s violations

/-- Repairs violations, one lane after another. -/
def run (r : Remediation) (c : RepairContext) (violations : List Violation) :
    StateM Site Report := do
  let jobs := r.jobs c (← get) violations
  let board ← (Lane.ofJobs jobs).foldlM (r.runLane c) (.blank jobs.length)
  r.say .step board.report.summary
  pure board.report

end Remediation

end Layering
