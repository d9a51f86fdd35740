import Layering.Remediation.Run

/-!
# Runs with several workers

Workers take lanes from a queue and do their jobs one after another. The steps of different workers
come in any order: a worker reads the progress of the run, takes a snapshot, lets a fixer work, ends
the transaction, and notes the outcome.
-/

namespace Layering

/-- Where the work on a job stands. -/
inductive Stage where
  /-- A fixer is to be tried, and perhaps others after it. -/
  | trying (f : Fixer) (rest : List Fixer)
  /-- The files of the fixer are guarded. -/
  | guarded (f : Fixer) (rest : List Fixer) (t : Transaction)
  /-- The fixer has come to its end, and the transaction has not. -/
  | repaired (f : Fixer) (rest : List Fixer) (t : Transaction) (result : Except Failure Outcome)
  /-- The outcome is known. -/
  | done (o : Outcome)

namespace Stage

/-- The first stage of a job. -/
def first (job : Job) : Stage :=
  match job.planningError, job.fixers with
  | some reason, _ => .done (.failed job.violation reason)
  | none, [] => .done (Remediation.unrepaired job.violation)
  | none, f :: rest => .trying f rest

/-- The stage after the outcome of one fixer. -/
def after (r : Remediation) (o : Outcome) : List Fixer → Stage
  | [] => .done o
  | f :: rest => if r.passesOn o then .trying f rest else .done o

/-- Takes the work on a job one stage further. -/
def advance (r : Remediation) (c : RepairContext) (v : Violation) : Stage → StateM Site Stage
  | .trying f rest => do
    match f.targets c v (← get) with
    | .error e => return after r (← r.conclude v f (.error e)) rest
    | .ok files => match ← (r.guard c files).begin.run with
      | .error e => return after r (← r.conclude v f (.error e)) rest
      | .ok t => return .guarded f rest t
  | .guarded f rest t => return .repaired f rest t (← (f.repair c v).run)
  | .repaired f rest t result => do
    let ending ← t.finish Remediation.accepts result
    return after r (← r.conclude v f ending.result) rest
  | .done o => return .done o

end Stage

/-- What a worker has to do: the job at hand, and the rest of its lane. -/
structure Work where
  current : Option (Job × Stage) := none
  rest : Lane

namespace Work

/-- One step of a worker. The outcome of a job is noted in one step. -/
def next (r : Remediation) (c : RepairContext) (b : Board) : Work → StateM Site (Work × Board)
  | ⟨none, []⟩ => return (⟨none, []⟩, b)
  | ⟨none, job :: rest⟩ =>
    if b.progress.abandoned then
      return (⟨none, rest⟩, b.fill job (Remediation.abandon b.progress.failures job.violation))
    else return (⟨some (job, .first job), rest⟩, b)
  | ⟨some (job, .done o), rest⟩ => return (⟨none, rest⟩, (b.fill job o).record r.maxFailures o)
  | ⟨some (job, stage), rest⟩ => return (⟨some (job, ← stage.advance r c job.violation), rest⟩, b)

/-- The lane is done. -/
def isOver (w : Work) : Bool := w.current.isNone && w.rest.isEmpty

end Work

/-- A run with several workers. -/
structure Pool where
  site : Site
  board : Board
  /-- The lanes that no worker has taken. -/
  waiting : List Lane
  /-- The lanes that have been taken and are not done. -/
  active : List Work := []

namespace Pool

/-- The start of a run. -/
def start (s : Site) (jobs : List Job) : Pool :=
  { site := s, board := .blank jobs.length, waiting := Lane.ofJobs jobs }

/-- Every lane is done. -/
def IsOver (p : Pool) : Prop := p.waiting = [] ∧ p.active = []

/-- The number of workers, of which there is always one. -/
def workers (r : Remediation) : Nat := max 1 r.maxWorkers.toNat

/-- The run after a step of one of the workers. -/
def turn (r : Remediation) (c : RepairContext) (p : Pool) (before : List Work) (w : Work)
    (after : List Work) : Pool :=
  let ((w, board), site) := w.next r c p.board p.site
  { p with site, board, active := before ++ w :: after }

/-- One step of a run. -/
inductive Step (r : Remediation) (c : RepairContext) : Pool → Pool → Prop
  /-- A free worker takes the first lane of the queue. -/
  | take {p : Pool} {lane : Lane} {waiting : List Lane} (free : p.active.length < workers r)
    (queue : p.waiting = lane :: waiting) :
    Step r c p { p with waiting, active := p.active ++ [{ rest := lane }] }
  /-- Some worker goes on. -/
  | work {p : Pool} {before after : List Work} {w : Work} (chosen : p.active = before ++ w :: after)
    (unfinished : w.isOver = false) : Step r c p (p.turn r c before w after)
  /-- Some worker has done its lane. -/
  | leave {p : Pool} {before after : List Work} {w : Work} (chosen : p.active = before ++ w :: after)
    (finished : w.isOver = true) : Step r c p { p with active := before ++ after }

end Pool

end Layering
