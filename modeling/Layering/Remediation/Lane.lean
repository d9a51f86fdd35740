import Layering.Remediation.Forest
import Layering.Remediation.Job

/-!
# Lanes

Jobs that may change the same file stand in one lane, one after another. Jobs of different lanes
have no file in common, not even through other jobs.
-/

namespace Layering

/-- Jobs that are done one after another. -/
abbrev Lane := List Job

namespace Lane

/-- The jobs seen so far as a forest of their indices, with the first job for each file. -/
structure Overlap where
  forest : Forest
  owners : List (Path × Nat) := []

/-- Notes that a job may change a file. Its tree becomes one with that of the first job that may
change the file, if there was one before. -/
def Overlap.visit (index : Nat) (o : Overlap) (file : Path) : Overlap :=
  match Entries.get? file o.owners with
  | some owner => { o with forest := o.forest.join index owner }
  | none => { o with owners := Entries.put file index o.owners }

/-- Which jobs may change the same files. -/
def Overlap.ofJobs (jobs : List Job) : Overlap :=
  jobs.foldl (fun o job => job.targets.foldl (visit job.index) o) { forest := .single jobs.length }

/-- Puts each job behind the others of its tree. The lanes come with the roots of their trees. -/
def collect (f : Forest) (lanes : List (Nat × Lane)) : List Job → List (Nat × Lane)
  | [] => lanes
  | job :: rest =>
    let (f, root) := f.find job.index
    collect f (Entries.add root job lanes) rest

/-- The lanes of some jobs, by their first jobs. -/
def ofJobs (jobs : List Job) : List Lane :=
  (collect (Overlap.ofJobs jobs).forest [] jobs).map (·.2)

end Lane

end Layering
