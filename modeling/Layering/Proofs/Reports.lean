import Layering.Assembly
import Layering.Proofs.Ranking
import Layering.Proofs.Schedules

/-!
# Reports

A report accounts for every violation of an enabled rule, in groups by rule, whatever the fixers and
the strategy do and in whatever order several workers take their steps.
-/

namespace Layering

namespace Job

/-- What planning finds out about a job: the fixers for its violation, and the first of them that
cannot say which files it may change. -/
structure Planned (table : FixerTable) (settings : Settings) (c : RepairContext) (s : Site)
    (job : Job) : Prop where
  fixers : job.fixers = candidates table settings job.violation
  known : job.planningError = none →
    ∀ f ∈ job.fixers, ∃ files, f.targets c job.violation s = .ok files
  unknown : ∀ reason, job.planningError = some reason → ∃ before f after e,
    job.fixers = before ++ f :: after ∧
    (∀ g ∈ before, ∃ files, g.targets c job.violation s = .ok files) ∧
    f.targets c job.violation s = .error e ∧
    reason = "Could not determine target files: " ++ e.message

/-- Asking one after another ends at the first that fails. -/
theorem mapM_cases {α β ε : Type} (ask : α → Except ε β) (xs : List α) :
    (∃ ys, xs.mapM ask = .ok ys ∧ ∀ x ∈ xs, ∃ y, ask x = .ok y) ∨
      ∃ before x after e, xs = before ++ x :: after ∧ xs.mapM ask = .error e ∧
        (∀ y ∈ before, ∃ b, ask y = .ok b) ∧ ask x = .error e := by
  induction xs with
  | nil => exact .inl ⟨[], rfl, nofun⟩
  | cons x rest ih =>
    rw [List.mapM_cons]
    cases answer : ask x with
    | error e => exact .inr ⟨[], x, rest, e, rfl, rfl, nofun, answer⟩
    | ok y =>
      rcases ih with ⟨ys, fine, all⟩ | ⟨before, z, after, e, split, fails, all, refused⟩
      · refine .inl ⟨y :: ys, by rw [fine]; rfl, fun z member => ?_⟩
        rcases List.mem_cons.mp member with rfl | later
        · exact ⟨y, answer⟩
        · exact all z later
      · refine .inr ⟨x :: before, z, after, e, by rw [split]; rfl, by rw [fails]; rfl, ?_, refused⟩
        intro w member
        rcases List.mem_cons.mp member with rfl | later
        · exact ⟨y, answer⟩
        · exact all w later

theorem index_plan (c : RepairContext) (s : Site) (index : Nat) (v : Violation)
    (fixers : List Fixer) : (plan c s index v fixers).index = index := by
  unfold plan
  split <;> rfl

theorem violation_plan (c : RepairContext) (s : Site) (index : Nat) (v : Violation)
    (fixers : List Fixer) : (plan c s index v fixers).violation = v := by
  unfold plan
  split <;> rfl

theorem planned_plan (table : FixerTable) (settings : Settings) (c : RepairContext) (s : Site)
    (index : Nat) (v : Violation) :
    Planned table settings c s (plan c s index v (candidates table settings v)) := by
  unfold plan targetsOf
  rcases mapM_cases (fun f : Fixer => f.targets c v s) (candidates table settings v) with
    ⟨files, fine, all⟩ | ⟨before, f, after, e, split, fails, all, refused⟩
  · rw [fine]
    exact ⟨rfl, fun _ => all, nofun⟩
  · rw [fails]
    refine ⟨rfl, nofun, ?_⟩
    rintro _ ⟨⟩
    exact ⟨before, f, after, e, split, all, refused, rfl⟩

variable (table : FixerTable) (settings : Settings) (c : RepairContext) (s : Site)
  (violations : List Violation)

theorem planned_of_mem_planAll {job : Job} (member : job ∈ planAll table settings c s violations) :
    Planned table settings c s job := by
  obtain ⟨i, inside, rfl⟩ := List.mem_mapIdx.mp member
  exact planned_plan table settings c s i _

theorem violations_planAll :
    (planAll table settings c s violations).map (·.violation) =
      (Entries.groups Violation.rule
        (violations.filter fun v => settings.allowsRule v.rule)).flatten := by
  rw [planAll, byRule, List.flatMap_def, Entries.map_snd_group]
  refine List.ext_getElem? fun i => ?_
  simp [Function.comp_def, violation_plan]

theorem numbered_planAll : Lane.Numbered (planAll table settings c s violations) := by
  refine List.ext_getElem (by simp) fun i first second => ?_
  simp [planAll, index_plan]

end Job

/-- A fixer reports on the violation that it was given. -/
def Fixer.Answers (f : Fixer) : Prop :=
  ∀ c v s o, (f.repair c v s).1 = .ok o → o.violation = v

theorem Patch.violation_apply {p : Patch} {c : RepairContext} {v : Violation} {s : Site}
    {o : Outcome} (h : (p.apply c v s).1 = .ok o) : o.violation = v := by
  have found : (Outcome.found v p.description p.files p.diffs c.dryRun).violation = v := by
    unfold Outcome.found
    split <;> rfl
  rw [apply, Action.bind_apply] at h
  split at h
  next s' _ =>
    split at h
    · rw [Action.bind_apply] at h
      split at h
      · exact Except.ok.inj h ▸ found
      · exact nomatch h
    · exact Except.ok.inj h ▸ found
  next => exact nomatch h

theorem Fixer.answers_proposing (name description : Text) (priority : Int) (rules : List Text)
    (targets : RepairContext → Violation → Site → Except Failure (List Path))
    (propose : RepairContext → Violation → Site → Except Failure Proposal) :
    (proposing name description priority rules targets propose).Answers := by
  intro c v s o h
  simp only [proposing] at h
  split at h
  · exact Except.ok.inj h ▸ rfl
  · rw [Action.bind_apply] at h
    split at h
    next proposal _ _ =>
      cases proposal with
      | nothing reason => exact Except.ok.inj h ▸ rfl
      | patch p => exact Patch.violation_apply h
    next => exact nomatch h

namespace Remediation

/-- What a report may say of a violation, in a run from one site through others. -/
inductive Result (r : Remediation) (c : RepairContext) (first : Site) (sites : List Site)
    (failures : Nat) (v : Violation) : Outcome → Prop
  /-- The run was abandoned at its limit of failures. -/
  | abandoned {n : Nat} {limit : Int} (bounded : r.maxFailures = some limit) (some : 0 < n)
    (reached : limit ≤ n) (counted : n ≤ failures) :
    Result r c first sites failures v
      (.skipped v ("Abandoned after " ++ Text.ofNat n ++ " failures"))
  /-- Some candidate could not say at first which files it may change. -/
  | unknown {before after : List Fixer} {f : Fixer} {e : Failure}
    (candidates : Job.candidates r.table r.settings v = before ++ f :: after)
    (known : ∀ g ∈ before, ∃ files, g.targets c v first = .ok files)
    (refused : f.targets c v first = .error e) :
    Result r c first sites failures v
      (.failed v ("Could not determine target files: " ++ e.message))
  /-- There is no candidate. -/
  | unclaimed (candidates : Job.candidates r.table r.settings v = []) :
    Result r c first sites failures v (.skipped v ("No fixer registered for rule: " ++ v.rule))
  /-- The candidates were tried. -/
  | tried {o : Outcome}
    (known : ∀ f ∈ Job.candidates r.table r.settings v, ∃ files, f.targets c v first = .ok files)
    (came : Tried r c sites v (Job.candidates r.table r.settings v) o) :
    Result r c first sites failures v o

/-- A report has a result for every violation of an enabled rule, in groups by rule, and says
whether the failures reached the limit. -/
structure Accounts (r : Remediation) (c : RepairContext) (first : Site) (violations : List Violation)
    (sites : List Site) (report : Report) : Prop where
  results : List.Forall₂
    (fun v o => o.violation = v ∧ Result r c first sites (report.count .failed) v o)
    (Entries.groups Violation.rule
      (violations.filter fun v => r.settings.allowsRule v.rule)).flatten report.outcomes
  abandoned : report.abandoned = true ↔ ∃ limit, r.maxFailures = some limit ∧
    0 < report.count .failed ∧ limit ≤ report.count .failed

variable {r : Remediation} {c : RepairContext} {first : Site} {sites : List Site} {failures : Nat}

/-- What the slot of a planned job holds is a result for its violation. -/
theorem result_of_settles {job : Job} {o : Outcome}
    (planned : Job.Planned r.table r.settings c first job)
    (settles : Settles r c sites failures job o) :
    Result r c first sites failures job.violation o := by
  have fixers := planned.fixers
  cases settles with
  | abandoned bounded some reached counted => exact .abandoned bounded some reached counted
  | done sound =>
    rcases sound with ⟨reason, unknown, rfl⟩ | ⟨_, none, rfl⟩ | ⟨known, came⟩
    · obtain ⟨before, f, after, e, split, known, refused, rfl⟩ := planned.unknown reason unknown
      exact .unknown (fixers ▸ split) known refused
    · exact .unclaimed (fixers ▸ none)
    · exact .tried (fixers ▸ planned.known known) (fixers ▸ came)

theorem violation_of_attempt {v : Violation} {f : Fixer} {o : Outcome} (answers : f.Answers)
    (h : Attempt r c sites v f o) : o.violation = v := by
  cases h with
  | untold => rfl
  | unguarded => rfl
  | unended => rfl
  | raised => rfl
  | reported way declared returned => exact answers _ _ _ _ returned

theorem violation_of_result {v : Violation} {o : Outcome}
    (answers : ∀ f ∈ r.table.fixers, f.Answers) (h : Result r c first sites failures v o) :
    o.violation = v := by
  cases h with
  | abandoned => rfl
  | unknown => rfl
  | unclaimed => rfl
  | tried known came =>
    obtain ⟨f, rest, ⟨before, split, _⟩, attempt, _⟩ := came
    refine violation_of_attempt (answers f ?_) attempt
    have member : f ∈ Job.candidates r.table r.settings v := split ▸ by simp
    rw [Job.candidates_eq] at member
    exact List.mem_of_mem_filter member

/-- Whatever steps the workers took, the report at the end accounts for the violations. -/
theorem accounts_of_passes (answers : ∀ f ∈ r.table.fixers, f.Answers) {violations : List Violation}
    {p : Pool} (way : Pool.Passes r c (.start first (r.jobs c first violations)) sites p)
    (finished : p.IsOver) : Accounts r c first violations sites p.board.report := by
  have numbered := Job.numbered_planAll r.table r.settings c first violations
  have invariant := Pool.invariant_of_passes numbered way
  obtain ⟨outcomes, slots, settles⟩ := invariant.outcomes numbered finished
  have reported : p.board.report.outcomes = outcomes := by
    simp [Board.report, slots]
  have failures : p.board.progress.failures = p.board.report.count .failed := by
    rw [invariant.counts.failures, Report.count, reported, slots, List.countP_map]
    rfl
  rw [failures] at settles
  constructor
  · rw [reported, ← Job.violations_planAll, List.forall₂_map_left_iff]
    have planned : ∀ job ∈ r.jobs c first violations, job.Planned r.table r.settings c first :=
      fun _ => Job.planned_of_mem_planAll r.table r.settings c first violations
    refine ((List.forall₂_and_left _ _).mpr ⟨planned, settles⟩).imp fun job o both => ?_
    have result := result_of_settles both.1 both.2
    exact ⟨violation_of_result answers result, result⟩
  · have flag := invariant.counts.abandoned
    rw [failures] at flag
    exact flag

end Remediation

/-- No violation is lost, repeated or put in the wrong place, and no failure ends a run: whatever
steps the workers take, they come to an end, can always go on until then, and leave a report that
accounts for the violations. The candidates for a violation are ranked, and the run that takes one
lane after another reports in the same way. -/
theorem Remediation.every_violation_reported (r : Remediation) {kept : List Fixer}
    (holds : r.table.Holds kept) (answers : ∀ f ∈ kept, f.Answers) (c : RepairContext) (s : Site)
    (violations : List Violation) :
    (∀ v, FixerTable.Ranked (Job.candidates r.table r.settings v)
      (kept.filter (Job.eligible r.table r.settings v))) ∧
    (∃ bound, ∀ sites p, Pool.Passes r c (.start s (r.jobs c s violations)) sites p →
      sites.length ≤ bound ∧ (p.IsOver ∨ ∃ q, Pool.Step r c p q) ∧
      (p.IsOver → Accounts r c s violations sites p.board.report)) ∧
    ∃ sites p, Pool.Passes r c (.start s (r.jobs c s violations)) sites p ∧ p.IsOver ∧
      (r.run c violations s).1 = p.board.report := by
  have answers : ∀ f ∈ r.table.fixers, f.Answers :=
    fun f member => answers f (holds.ranked.mem_iff.mp member)
  refine ⟨Job.ranked_candidates holds r.settings, ?_, ?_⟩
  · refine ⟨(Pool.start s (r.jobs c s violations)).load, fun sites p way => ⟨?_, ?_, ?_⟩⟩
    · exact Nat.le_of_add_right_le way.length_le
    · exact (Classical.em p.IsOver).imp_right Pool.exists_step
    · exact accounts_of_passes answers way
  · exact Pool.exists_passes_run s violations

theorem holds_bundled : FixerTable.Holds (.ofList bundledFixers {}) bundledFixers :=
  .register WrapperFiles.fixer (.register ReturnTypes.fixer (.register Scaffolding.fixer
    (.empty {})))

theorem answers_bundled : ∀ f ∈ bundledFixers, f.Answers := by
  intro f member
  simp only [bundledFixers, List.mem_cons, List.not_mem_nil, or_false] at member
  rcases member with rfl | rfl | rfl
  all_goals exact Fixer.answers_proposing _ _ _ _ _ _

/-- Two workers, three rules of which one is disabled, and an end after the first failure. -/
theorem Remediation.bundled_violations_reported :
    let r : Remediation := { table := .ofList bundledFixers {}, strategy := InMemory.strategy,
                             settings := { disabledRules := ["PA-001"] }, maxFailures := some 1,
                             maxWorkers := 2, fallthrough := true }
    let c : RepairContext := { projectRoot := "/p", moduleRoot := "/p/shop" }
    let violations : List Violation := [{ rule := "MS-001" }, { rule := "PA-001" },
      { rule := "FX-001" }, { rule := "MS-001", location := "/p/other" }]
    r.table.Holds bundledFixers ∧ (∀ f ∈ bundledFixers, f.Answers) ∧
      ∃ sites p, Pool.Passes r c (.start {} (r.jobs c {} violations)) sites p ∧ p.IsOver ∧
        (r.run c violations {}).1 = p.board.report ∧
        Accounts r c {} violations sites p.board.report := by
  intro r c violations
  have reported := r.every_violation_reported holds_bundled answers_bundled c {} violations
  obtain ⟨_, ⟨_, all⟩, sites, p, way, finished, same⟩ := reported
  exact ⟨holds_bundled, answers_bundled, sites, p, way, finished, same, (all sites p way).2.2 finished⟩

end Layering
