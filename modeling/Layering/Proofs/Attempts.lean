import Layering.Proofs.Actions
import Layering.Remediation.Pool

/-!
# Attempts

What can come of letting fixers repair a violation, said without the code that does it, and that the
stages of the work on a job stay within that.
-/

namespace Layering

namespace Remediation

variable {r : Remediation} {c : RepairContext} {sites more : List Site} {v : Violation}

/-- What comes of one fixer in a run that passes through some sites: the outcome that it reports, or
that it failed, which it does when it cannot say which files it may change, when these cannot be
guarded, when it raises a failure, and when its transaction fails to end. -/
inductive Attempt (r : Remediation) (c : RepairContext) (sites : List Site) (v : Violation)
    (f : Fixer) : Outcome → Prop
  | untold {s : Site} {e : Failure} (here : s ∈ sites) (refused : f.targets c v s = .error e) :
    Attempt r c sites v f (.failed v (complaint v f e))
  | unguarded {s : Site} {files : List Path} {e : Failure} (here : s ∈ sites)
    (declared : f.targets c v s = .ok files) (refused : (r.guard c files).RefusesStart s e) :
    Attempt r c sites v f (.failed v (complaint v f e))
  | unended {s s' s'' : Site} {files : List Path} {e : Failure} (way : [s, s', s''].Sublist sites)
    (declared : f.targets c v s = .ok files)
    (refused : (r.guard c files).RefusesEnd s''
      (Transaction.isGood accepts (f.repair c v s').1) e) :
    Attempt r c sites v f (.failed v (complaint v f e))
  | raised {s s' s'' : Site} {files : List Path} {e : Failure} (way : [s, s', s''].Sublist sites)
    (declared : f.targets c v s = .ok files) (refused : (f.repair c v s').1 = .error e)
    (ends : ∀ e, ¬(r.guard c files).RefusesEnd s'' false e) :
    Attempt r c sites v f (.failed v (complaint v f e))
  | reported {s s' s'' : Site} {files : List Path} {o : Outcome}
    (way : [s, s', s''].Sublist sites) (declared : f.targets c v s = .ok files)
    (returned : (f.repair c v s').1 = .ok o)
    (ends : ∀ e, ¬(r.guard c files).RefusesEnd s'' (accepts o) e) : Attempt r c sites v f o

/-- The turn is with one of the fixers for a violation: the ones before it were tried, and skipped
the violation in a run that hands on what is skipped. -/
def AtTurn (r : Remediation) (c : RepairContext) (sites : List Site) (v : Violation)
    (fixers : List Fixer) (f : Fixer) (rest : List Fixer) : Prop :=
  ∃ before, fixers = before ++ f :: rest ∧
    ∀ g ∈ before, ∃ o, Attempt r c sites v g o ∧ o.status = .skipped ∧ r.fallthrough = true

/-- What comes of the fixers for a violation: what comes of the first of them or, where skipped
violations are handed on, of the first that does not skip it or else the last. -/
def Tried (r : Remediation) (c : RepairContext) (sites : List Site) (v : Violation)
    (fixers : List Fixer) (o : Outcome) : Prop :=
  ∃ f rest, AtTurn r c sites v fixers f rest ∧ Attempt r c sites v f o ∧
    (rest = [] ∨ o.status ≠ .skipped ∨ r.fallthrough = false)

theorem Attempt.mono {f : Fixer} {o : Outcome} (part : sites.Sublist more)
    (h : Attempt r c sites v f o) : Attempt r c more v f o := by
  cases h with
  | untold here refused => exact .untold (part.subset here) refused
  | unguarded here declared refused => exact .unguarded (part.subset here) declared refused
  | unended way declared refused => exact .unended (way.trans part) declared refused
  | raised way declared refused ends => exact .raised (way.trans part) declared refused ends
  | reported way declared returned ends => exact .reported (way.trans part) declared returned ends

theorem AtTurn.mono {fixers rest : List Fixer} {f : Fixer} (part : sites.Sublist more)
    (h : AtTurn r c sites v fixers f rest) : AtTurn r c more v fixers f rest := by
  obtain ⟨before, split, skipped⟩ := h
  refine ⟨before, split, fun g member => ?_⟩
  obtain ⟨o, attempt, status, handed⟩ := skipped g member
  exact ⟨o, attempt.mono part, status, handed⟩

theorem Tried.mono {fixers : List Fixer} {o : Outcome} (part : sites.Sublist more)
    (h : Tried r c sites v fixers o) : Tried r c more v fixers o := by
  obtain ⟨f, rest, turn, attempt, last⟩ := h
  exact ⟨f, rest, turn.mono part, attempt.mono part, last⟩

theorem passesOn_iff {o : Outcome} :
    r.passesOn o = true ↔ o.status = .skipped ∧ r.fallthrough = true := by
  rw [passesOn, Bool.and_eq_true, decide_eq_true_iff]

end Remediation

namespace Stage

open Remediation

variable {r : Remediation} {c : RepairContext} {sites more : List Site} {job : Job}

/-- What is known of the work on a job that stands at a stage. -/
def Sound (r : Remediation) (c : RepairContext) (sites : List Site) (job : Job) : Stage → Prop
  | .trying f rest => job.planningError = none ∧
    AtTurn r c sites job.violation job.fixers f rest
  | .guarded f rest t => job.planningError = none ∧
    AtTurn r c sites job.violation job.fixers f rest ∧
    ∃ s files handle, [s].Sublist sites ∧ f.targets c job.violation s = .ok files ∧
      t = { r.guard c files with handle, isActive := true }
  | .repaired f rest t result => job.planningError = none ∧
    AtTurn r c sites job.violation job.fixers f rest ∧
    ∃ s s' files handle, [s, s'].Sublist sites ∧ f.targets c job.violation s = .ok files ∧
      t = { r.guard c files with handle, isActive := true } ∧
      (f.repair c job.violation s').1 = result
  | .done o => (∃ reason, job.planningError = some reason ∧ o = .failed job.violation reason) ∨
    (job.planningError = none ∧ job.fixers = [] ∧ o = unrepaired job.violation) ∨
    (job.planningError = none ∧ Tried r c sites job.violation job.fixers o)

theorem Sound.mono {stage : Stage} (part : sites.Sublist more) (h : Sound r c sites job stage) :
    Sound r c more job stage := by
  cases stage with
  | trying f rest => exact ⟨h.1, h.2.mono part⟩
  | guarded f rest t =>
    obtain ⟨planned, turn, s, files, handle, way, known⟩ := h
    exact ⟨planned, turn.mono part, s, files, handle, way.trans part, known⟩
  | repaired f rest t result =>
    obtain ⟨planned, turn, s, s', files, handle, way, known⟩ := h
    exact ⟨planned, turn.mono part, s, s', files, handle, way.trans part, known⟩
  | done o => exact h.imp_right (Or.imp_right (And.imp_right (Tried.mono part)))

theorem sound_first (job : Job) : Sound r c sites job (first job) := by
  unfold first
  cases planned : job.planningError with
  | some reason => exact .inl ⟨reason, planned, rfl⟩
  | none =>
    cases fixers : job.fixers with
    | nil => exact .inr (.inl ⟨planned, fixers, rfl⟩)
    | cons f rest => exact ⟨planned, [], fixers, fun _ member => nomatch member⟩

/-- After an attempt the turn is with the next fixer, or the outcome is known. -/
theorem sound_after {f : Fixer} {rest : List Fixer} {o : Outcome}
    (planned : job.planningError = none)
    (turn : AtTurn r c sites job.violation job.fixers f rest)
    (attempt : Attempt r c sites job.violation f o) : Sound r c sites job (after r o rest) := by
  have finished (last : rest = [] ∨ o.status ≠ .skipped ∨ r.fallthrough = false) :
      Sound r c sites job (.done o) :=
    .inr (.inr ⟨planned, f, rest, turn, attempt, last⟩)
  unfold after
  -- The job ends with this outcome unless it was skipped, falls through and has another fixer.
  -- Then all fixers before that one have been skipped.
  split
  next => exact finished (.inl rfl)
  next next rest =>
    split
    next handed =>
      obtain ⟨before, split, skipped⟩ := turn
      refine ⟨planned, before ++ [f], by rw [split, List.append_assoc]; rfl, ?_⟩
      intro g member
      rcases List.mem_append.mp member with earlier | this
      · exact skipped g earlier
      · rw [List.mem_singleton.mp this]
        exact ⟨o, attempt, passesOn_iff.mp handed⟩
    next kept =>
      refine finished (.inr ?_)
      rw [passesOn_iff, Decidable.not_and_iff_or_not, Bool.not_eq_true] at kept
      exact kept

/-- The end of a transaction settles what comes of its fixer. -/
theorem attempt_finish {f : Fixer} {v : Violation} {s s' s'' : Site} {files : List Path}
    {handle : Option SnapshotHandle} (way : [s, s', s''].Sublist sites)
    (declared : f.targets c v s = .ok files) {t : Transaction}
    (started : t = { r.guard c files with handle, isActive := true }) (last : Site) :
    Attempt r c sites v f
      (r.conclude v f (t.finish accepts (f.repair c v s').1 s'').1.result last).1 := by
  have same {good : Bool} {e : Failure} :
      t.RefusesEnd s'' good e ↔ (r.guard c files).RefusesEnd s'' good e :=
    Transaction.refusesEnd_congr (congrArg (·.strategy) started) (congrArg (·.files) started)
      (congrArg (·.project) started) (congrArg (·.enabled) started)
  have active : t.isActive = true := by rw [started]
  rcases Transaction.finish_cases active accepts (f.repair c v s').1 s'' with
    ⟨fine, ends⟩ | ⟨e, fails, refused⟩
  · rw [fine]
    simp only [same] at ends
    cases returned : (f.repair c v s').1 with
    | ok o =>
      rw [returned] at ends
      exact .reported way declared returned ends
    | error e =>
      rw [returned] at ends
      exact .raised way declared returned ends
  · rw [fails]
    exact .unended way declared (same.mp refused)

/-- One stage further, what is known still holds; the site of the stage is one more that the run
passed through. -/
theorem sound_advance {stage : Stage} (s : Site) (h : Sound r c sites job stage) :
    Sound r c (sites ++ [s]) job (stage.advance r c job.violation s).1 := by
  have here : s ∈ sites ++ [s] := List.mem_append_right sites List.mem_cons_self
  have part : sites.Sublist (sites ++ [s]) := List.sublist_append_left ..
  -- One case for each stage a job can be in: each site it reads is the newest of those passed.
  cases stage with
  | trying f rest =>
    obtain ⟨planned, turn⟩ := h
    have turn := turn.mono part
    simp only [advance, StateM.bind_apply, StateM.get_apply]
    rcases declared : f.targets c job.violation s with e | files
    · exact sound_after planned turn (.untold here declared)
    · simp only [StateM.bind_apply, ExceptT.run]
      rcases (r.guard c files).begin_cases s with ⟨e, fails, refused⟩ | ⟨handle, starts⟩
      · rw [fails]
        exact sound_after planned turn (.unguarded here declared refused)
      · rw [starts]
        have way : [s].Sublist (sites ++ [s]) := List.singleton_sublist.mpr here
        exact ⟨planned, turn, s, files, handle, way, declared, rfl⟩
  | guarded f rest t =>
    obtain ⟨planned, turn, s', files, handle, way, declared, started⟩ := h
    have way : [s', s].Sublist (sites ++ [s]) := way.append (List.Sublist.refl [s])
    exact ⟨planned, turn.mono part, s', s, files, handle, way, declared, started, rfl⟩
  | repaired f rest t result =>
    obtain ⟨planned, turn, s', s'', files, handle, way, declared, started, rfl⟩ := h
    have way : [s', s'', s].Sublist (sites ++ [s]) := way.append (List.Sublist.refl [s])
    exact sound_after planned (turn.mono part) (attempt_finish way declared started _)
  | done o => exact Sound.mono part h

end Stage

end Layering
