import Layering.Proofs.Workers

/-!
# Schedules

Workers never wait for each other, so that a run can always go on until every lane is done; and each
step leaves less to do. Taking one lane after another is one way to run.
-/

namespace Layering

variable {r : Remediation} {c : RepairContext}

/-- The number of steps that a job may still take at a stage. -/
def Stage.load : Stage → Nat
  | .trying _ rest => 3 * rest.length + 5
  | .guarded _ rest _ => 3 * rest.length + 4
  | .repaired _ rest _ _ => 3 * rest.length + 3
  | .done _ => 1

/-- The number of steps that a job may take. -/
def Job.load (job : Job) : Nat := 3 * job.fixers.length + 3

/-- The number of steps that the jobs of a lane may take. -/
def Lane.load (lane : Lane) : Nat := (lane.map Job.load).sum

/-- The number of steps that a worker may still take. -/
def Work.load (w : Work) : Nat := (w.current.map (·.2.load)).getD 0 + Lane.load w.rest

/-- The number of steps that a run may still take. A lane also counts when it is taken and left. -/
def Pool.load (p : Pool) : Nat :=
  (p.active.map (·.load + 1)).sum + (p.waiting.map (Lane.load · + 2)).sum

namespace Stage

theorem load_first (job : Job) : (first job).load < job.load := by
  unfold first Job.load
  split
  next => simp only [load]; omega
  next none => simp only [load]; omega
  next f rest _ split =>
    simp only [load, split, List.length_cons]
    omega

theorem load_after (r : Remediation) (o : Outcome) (rest : List Fixer) :
    (after r o rest).load < 3 * rest.length + 3 := by
  unfold after
  split
  next => simp [load]
  next f rest =>
    split
    next => simp only [load, List.length_cons]; omega
    next => simp only [load]; omega

/-- A stage is left for one with less to do. -/
theorem load_advance (v : Violation) {stage : Stage} (s : Site) (undone : ∀ o, stage ≠ .done o) :
    (stage.advance r c v s).1.load < stage.load := by
  cases stage with
  | trying f rest =>
    simp only [advance, StateM.bind_apply, StateM.get_apply]
    rcases f.targets c v s with e | files
    · exact Nat.lt_of_lt_of_le (load_after ..) (by simp only [load]; omega)
    · simp only [StateM.bind_apply, ExceptT.run]
      rcases ((r.guard c files).begin s).1 with e | t
      · exact Nat.lt_of_lt_of_le (load_after ..) (by simp only [load]; omega)
      · exact Nat.lt_succ_self _
  | guarded f rest t => exact Nat.lt_succ_self _
  | repaired f rest t result => exact load_after ..
  | done o => exact absurd rfl (undone o)

end Stage

/-- Each step of a worker leaves it less to do. -/
theorem Work.load_next {w : Work} (b : Board) (s : Site) (unfinished : w.isOver = false) :
    (w.next r c b s).1.1.load < w.load := by
  obtain ⟨current, rest⟩ := w
  match current, rest with
  | none, [] => simp [isOver] at unfinished
  | none, job :: rest =>
    have first := Stage.load_first job
    rw [next]
    split
    next => simp only [StateM.pure_apply, load, Lane.load, Option.map_none, Option.getD_none,
      List.map_cons, List.sum_cons]; omega
    next => simp only [StateM.pure_apply, load, Lane.load, Option.map_none, Option.getD_none,
      Option.map_some, Option.getD_some, List.map_cons, List.sum_cons]; omega
  | some (job, stage), rest =>
    by_cases done : ∃ o, stage = .done o
    · obtain ⟨o, rfl⟩ := done
      exact Nat.add_lt_add_right Nat.zero_lt_one _
    · rw [next_stage (not_exists.mp done)]
      exact Nat.add_lt_add_right (Stage.load_advance job.violation s (not_exists.mp done)) _

namespace Pool

variable {p q : Pool}

theorem Step.load_lt (h : Step r c p q) : q.load < p.load := by
  cases h with
  | take free queue =>
    simp only [load, queue, Work.load, List.map_append, List.map_cons, List.map_nil,
      List.sum_append, List.sum_cons, List.sum_nil, Option.map_none, Option.getD_none]
    omega
  | leave chosen finished =>
    simp only [load, chosen, List.map_append, List.map_cons, List.sum_append, List.sum_cons]
    omega
  | @work before after w chosen unfinished =>
    have less := Work.load_next (r := r) (c := c) p.board p.site unfinished
    have active : (p.turn r c before w after).active =
        before ++ (w.next r c p.board p.site).1.1 :: after := rfl
    have waiting : (p.turn r c before w after).waiting = p.waiting := rfl
    simp only [load, active, waiting, chosen, List.map_append, List.map_cons, List.sum_append,
      List.sum_cons]
    omega

/-- A run takes no more steps than there is to do. -/
theorem Passes.length_le {first : Pool} {sites : List Site} (way : Passes r c first sites p) :
    sites.length + p.load ≤ first.load := by
  induction way with
  | here => simp
  | step _ step ih =>
    have less := step.load_lt
    rw [List.length_append, List.length_singleton]
    omega

/-- A run that is not over can go on. -/
theorem exists_step (unfinished : ¬p.IsOver) : ∃ q, Step r c p q := by
  cases active : p.active with
  | cons w rest =>
    have chosen : p.active = [] ++ w :: rest := active
    cases finished : w.isOver with
    | true => exact ⟨_, .leave chosen finished⟩
    | false => exact ⟨_, .work chosen finished⟩
  | nil =>
    cases waiting : p.waiting with
    | nil => exact absurd ⟨waiting, active⟩ unfinished
    | cons lane rest =>
      refine ⟨_, .take ?_ waiting⟩
      rw [active, workers]
      exact Nat.lt_of_lt_of_le Nat.zero_lt_one (Nat.le_max_left ..)

/-- Some number of steps. -/
abbrev Steps (r : Remediation) (c : RepairContext) : Pool → Pool → Prop :=
  Relation.ReflTransGen (Step r c)

/-- A run can be brought to its end. -/
theorem exists_isOver (r : Remediation) (c : RepairContext) (p : Pool) :
    ∃ q, Steps r c p q ∧ q.IsOver := by
  induction less : p.load using Nat.strong_induction_on generalizing p with
  | _ n ih =>
    by_cases finished : p.IsOver
    · exact ⟨p, .refl, finished⟩
    · obtain ⟨q, step⟩ := exists_step (r := r) (c := c) finished
      obtain ⟨last, steps, ended⟩ := ih q.load (less ▸ step.load_lt) q rfl
      exact ⟨last, .head step steps, ended⟩

theorem Steps.passes {first : Pool} (h : Steps r c first p) : ∃ sites, Passes r c first sites p := by
  induction h with
  | refl => exact ⟨[], .here⟩
  | tail _ step ih =>
    obtain ⟨sites, way⟩ := ih
    exact ⟨_, way.step step⟩

theorem Passes.steps {first : Pool} {sites : List Site} (h : Passes r c first sites p) :
    Steps r c first p := by
  induction h with
  | here => exact .refl
  | step _ step ih => exact ih.tail step

/-- A run with one worker. -/
def alone (waiting : List Lane) (s : Site) (b : Board) (w : Work) : Pool :=
  { site := s, board := b, waiting, active := [w] }

variable (waiting : List Lane) (s : Site) (b : Board)

theorem step_alone {w : Work} (unfinished : w.isOver = false) :
    Step r c (alone waiting s b w) (alone waiting (w.next r c b s).2 (w.next r c b s).1.2
      (w.next r c b s).1.1) := by
  have chosen : (alone waiting s b w).active = [] ++ w :: [] := rfl
  exact .work chosen unfinished

theorem leave_alone {w : Work} (finished : w.isOver = true) :
    Step r c (alone waiting s b w) { alone waiting s b w with active := [] } := by
  have chosen : (alone waiting s b w).active = [] ++ w :: [] := rfl
  exact .leave chosen finished

theorem step_stage (stage : Stage) (undone : ∀ o, stage ≠ .done o) (job : Job) (lane : Lane) :
    Step r c (alone waiting s b ⟨some (job, stage), lane⟩)
      (alone waiting (stage.advance r c job.violation s).2 b
        ⟨some (job, (stage.advance r c job.violation s).1), lane⟩) := by
  have step := step_alone (r := r) (c := c) waiting s b (w := ⟨some (job, stage), lane⟩) rfl
  rwa [Work.next_stage undone] at step

/-- Stage by stage, a worker does what trying one fixer does. -/
theorem steps_repair (job : Job) (f : Fixer) (rest : List Fixer) (lane : Lane) :
    Steps r c (alone waiting s b ⟨some (job, .trying f rest), lane⟩)
      (alone waiting (r.repair c job.violation f s).2 b
        ⟨some (job, .after r (r.repair c job.violation f s).1 rest), lane⟩) := by
  have first := step_stage (r := r) (c := c) waiting s b (.trying f rest) (by simp) job lane
  simp only [Stage.advance, StateM.bind_apply, StateM.get_apply] at first
  simp only [Remediation.repair, StateM.bind_apply, StateM.get_apply]
  cases declared : f.targets c job.violation s with
  | error e =>
    simp only [declared] at first
    exact .single first
  | ok files =>
    simp only [declared, Transaction.run, StateM.bind_apply, ExceptT.run] at first ⊢
    rcases begins : (r.guard c files).begin s with ⟨e | t, s'⟩
    · simp only [begins] at first
      exact .single first
    · simp only [begins] at first
      have second := step_stage (r := r) (c := c) waiting s' b (.guarded f rest t) (by simp) job lane
      have third := step_stage (r := r) (c := c) waiting (f.repair c job.violation s').2 b
        (.repaired f rest t (f.repair c job.violation s').1) (by simp) job lane
      exact .head first (.head second (.single third))

/-- Stage by stage, a worker does what trying all fixers does. -/
theorem steps_repairWith (job : Job) (f : Fixer) (rest : List Fixer) (lane : Lane) :
    Steps r c (alone waiting s b ⟨some (job, .trying f rest), lane⟩)
      (alone waiting (r.repairWith c job.violation (f :: rest) s).2 b
        ⟨some (job, .done (r.repairWith c job.violation (f :: rest) s).1), lane⟩) := by
  induction rest generalizing f s with
  | nil => exact steps_repair waiting s b job f [] lane
  | cons g rest ih =>
    refine (steps_repair waiting s b job f (g :: rest) lane).trans ?_
    rw [Remediation.repairWith, StateM.bind_apply, Stage.after]
    split
    next => exact ih _ g
    next => exact .refl
    nofun

/-- Stage by stage, a worker does what doing one job does. -/
theorem steps_step (job : Job) (lane : Lane) :
    Steps r c (alone waiting s b ⟨none, job :: lane⟩)
      (alone waiting (r.step c b job s).2 (r.step c b job s).1 ⟨none, lane⟩) := by
  have first := step_alone (r := r) (c := c) waiting s b (w := ⟨none, job :: lane⟩) rfl
  have last (s : Site) (o : Outcome) := step_alone (r := r) (c := c) waiting s b
    (w := ⟨some (job, .done o), lane⟩) rfl
  rw [Work.next] at first
  unfold Remediation.step Remediation.perform
  split at first
  next ended =>
    rw [if_pos ended]
    exact .single first
  next going =>
    rw [if_neg going]
    refine .head first ?_
    unfold Stage.first
    cases job.planningError with
    | some reason => exact .single (last _ _)
    | none =>
      cases fixers : job.fixers with
      | nil => exact .single (last _ _)
      | cons f rest => exact (steps_repairWith waiting s b job f rest lane).tail (last _ _)

theorem steps_runLane (lane : Lane) :
    Steps r c (alone waiting s b ⟨none, lane⟩)
      (alone waiting (r.runLane c b lane s).2 (r.runLane c b lane s).1 ⟨none, []⟩) := by
  induction lane generalizing s b with
  | nil => exact .refl
  | cons job lane ih => exact (steps_step waiting s b job lane).trans (ih _ _)

/-- Taking one lane after another is one way to run. -/
theorem steps_lanes (lanes : List Lane) :
    Steps r c { site := s, board := b, waiting := lanes }
      { site := (lanes.foldlM (r.runLane c) b s).2, board := (lanes.foldlM (r.runLane c) b s).1,
        waiting := [] } := by
  induction lanes generalizing s b with
  | nil => exact .refl
  | cons lane lanes ih =>
    have free : 0 < workers r := Nat.lt_of_lt_of_le Nat.zero_lt_one (Nat.le_max_left ..)
    refine .head (.take free rfl) ((steps_runLane lanes s b lane).trans ?_)
    exact .head (leave_alone lanes _ _ rfl) (ih _ _)

/-- The end of the run that takes one lane after another. -/
def serial (r : Remediation) (c : RepairContext) (s : Site) (jobs : List Job) : Pool :=
  let (board, site) := (Lane.ofJobs jobs).foldlM (r.runLane c) (.blank jobs.length) s
  { site, board, waiting := [] }

theorem steps_serial (s : Site) (jobs : List Job) :
    Steps r c (start s jobs) (serial r c s jobs) :=
  steps_lanes s (.blank jobs.length) (Lane.ofJobs jobs)

theorem isOver_serial (s : Site) (jobs : List Job) : (serial r c s jobs).IsOver := ⟨rfl, rfl⟩

/-- The run of a remediation reports what some run of the workers reports. -/
theorem exists_passes_run (violations : List Violation) :
    ∃ sites p, Passes r c (start s (r.jobs c s violations)) sites p ∧ p.IsOver ∧
      (r.run c violations s).1 = p.board.report := by
  obtain ⟨sites, way⟩ := (steps_serial (r := r) (c := c) s (r.jobs c s violations)).passes
  exact ⟨sites, _, way, isOver_serial s _, rfl⟩

/-- A single worker has no choice. -/
theorem Step.unique {q' : Pool} (single : workers r = 1) (few : p.active.length ≤ 1)
    (h : Step r c p q) (h' : Step r c p q') : q = q' := by
  have one {before after before' after' : List Work} {w w' : Work}
      (chosen : p.active = before ++ w :: after) (chosen' : p.active = before' ++ w' :: after') :
      (before = before' ∧ after = after') ∧ w = w' := by
    rw [chosen, List.length_append, List.length_cons] at few
    obtain rfl : before = [] := List.length_eq_zero_iff.mp (by omega)
    obtain rfl : after = [] := List.length_eq_zero_iff.mp (by omega)
    rw [chosen, List.nil_append] at chosen'
    obtain ⟨rfl, same⟩ | ⟨_, _, impossible⟩ := List.cons_eq_append_iff.mp chosen'
    · obtain ⟨rfl, rfl⟩ := List.cons.inj same
      exact ⟨⟨rfl, rfl⟩, rfl⟩
    · simp at impossible
  -- With one worker no work is taken on while there is some, so only one kind of step is open.
  have busy {before after : List Work} {w : Work} (chosen : p.active = before ++ w :: after) :
      ¬p.active.length < workers r := by
    rw [single, chosen, List.length_append, List.length_cons]
    omega
  cases h with
  | take free queue =>
    cases h' with
    | take free' queue' =>
      obtain ⟨rfl, rfl⟩ := List.cons.inj (queue.symm.trans queue')
      rfl
    | work chosen => exact absurd free (busy chosen)
    | leave chosen => exact absurd free (busy chosen)
  | work chosen unfinished =>
    cases h' with
    | take free => exact absurd free (busy chosen)
    | work chosen' =>
      obtain ⟨⟨rfl, rfl⟩, rfl⟩ := one chosen chosen'
      rfl
    | leave chosen' finished =>
      obtain ⟨_, rfl⟩ := one chosen chosen'
      exact nomatch unfinished.symm.trans finished
  | leave chosen finished =>
    cases h' with
    | take free => exact absurd free (busy chosen)
    | work chosen' unfinished =>
      obtain ⟨_, rfl⟩ := one chosen chosen'
      exact nomatch unfinished.symm.trans finished
    | leave chosen' =>
      obtain ⟨⟨rfl, rfl⟩, _⟩ := one chosen chosen'
      rfl

/-- A step leaves no more lanes taken than there are workers. -/
theorem Step.few (few : p.active.length ≤ workers r) (h : Step r c p q) :
    q.active.length ≤ workers r := by
  cases h with
  | take free =>
    rw [List.length_append, List.length_singleton]
    exact free
  | @work before after w chosen =>
    have active : (p.turn r c before w after).active =
        before ++ (w.next r c p.board p.site).1.1 :: after := rfl
    rw [chosen] at few
    rw [active]
    simpa using few
  | leave chosen =>
    rw [chosen] at few
    simp only [List.length_append, List.length_cons] at few ⊢
    omega

theorem Passes.few {s : Site} {sites : List Site} {jobs : List Job}
    (way : Passes r c (start s jobs) sites p) : p.active.length ≤ workers r := by
  induction way with
  | here => exact Nat.zero_le _
  | step _ step ih => exact step.few ih

theorem IsOver.no_step (h : p.IsOver) : ¬Step r c p q := by
  intro step
  cases step with
  | take _ queue => simp [h.1] at queue
  | work chosen => simp [h.2] at chosen
  | leave chosen => simp [h.2] at chosen

/-- A single worker comes to one end. -/
theorem Steps.unique {first : Pool} (single : workers r = 1) (few : first.active.length ≤ 1)
    (h : Steps r c first p) (finished : p.IsOver) (h' : Steps r c first q)
    (finished' : q.IsOver) : p = q := by
  induction h using Relation.ReflTransGen.head_induction_on with
  | refl =>
    rcases h'.cases_head with same | ⟨_, step, _⟩
    · exact same
    · exact absurd step finished.no_step
  | head step _ ih =>
    rcases h'.cases_head with rfl | ⟨_, step', rest⟩
    · exact absurd step finished'.no_step
    · rw [step'.unique single few step] at rest
      exact ih (single ▸ step.few (single ▸ few)) rest

/-- A single worker does what taking one lane after another does. -/
theorem Steps.eq_serial {s : Site} {jobs : List Job} (single : workers r = 1)
    (h : Steps r c (start s jobs) p) (finished : p.IsOver) : p = serial r c s jobs :=
  h.unique single (Nat.zero_le _) finished (steps_serial s jobs) (isOver_serial s jobs)

end Pool

end Layering
