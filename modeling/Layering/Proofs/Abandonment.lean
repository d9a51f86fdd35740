import Layering.Proofs.Reports
import Layering.Proofs.Traces

/-!
# Runs with a limit of failures

A run is abandoned when its failures reach the limit. The flag is read when a job is begun, and the
failure of a job is counted when it is over, so that workers which are still busy may add failures
beyond the limit: at most one each.
-/

namespace Layering

open Remediation (abandon)

/-- What may come after an event: once a job was passed over no job is begun, and all that happens
to jobs of its lane is that they are passed over too. -/
def Event.Allows (lanes : List Lane) (e later : Event) : Prop :=
  ∀ job n, e = .passed job n → (∀ other, later ≠ .begun other) ∧
    ∀ lane ∈ lanes, job ∈ lane → later.job ∈ lane → ∃ n, later = .passed later.job n

namespace Progress

variable {o : Outcome} (bound : Option Int) (p : Progress)

theorem record_of_failed (failed : o.status = .failed) : p.record bound o =
    ⟨p.failures + 1, p.abandoned || bound.any fun n => decide (n ≤ ((p.failures + 1 : Nat) : Int))⟩ :=
  if_pos failed

theorem record_of_not_failed (other : o.status ≠ .failed) : p.record bound o = p := if_neg other

/-- Without a limit nothing is abandoned. -/
theorem abandoned_record_none : (p.record none o).abandoned = p.abandoned := by
  unfold record
  split
  next => exact Bool.or_false _
  next => rfl

end Progress

/-- Where there is a limit, the flag says whether the failures have reached it. -/
theorem Board.Counts.flag {r : Remediation} {b : Board} (h : b.Counts r.maxFailures) {limit : Int}
    (bounded : r.maxFailures = some limit) (positive : 1 ≤ limit) :
    b.progress.abandoned = true ↔ limit ≤ b.progress.failures := by
  rw [h.abandoned, bounded]
  constructor
  · rintro ⟨_, ⟨⟩, _, reached⟩
    exact reached
  · exact fun reached => ⟨limit, rfl, by omega, reached⟩

namespace Work

variable {r : Remediation} {b b' : Board} {e : Event} {w w' : Work}

theorem Does.failures_eq (h : Does r b e w w' b') :
    b'.progress.failures = b.progress.failures + if e.isFailure then 1 else 0 := by
  cases h with
  | begins => rfl
  | passes => rfl
  | advances => rfl
  | notes =>
    simp only [Board.record, Progress.record, Event.isFailure, decide_eq_true_eq]
    split <;> rfl

theorem Does.still_abandoned (h : Does r b e w w' b') (ended : b.progress.abandoned = true) :
    b'.progress.abandoned = true := by
  cases h with
  | begins => exact ended
  | passes => exact ended
  | advances => exact ended
  | notes =>
    simp only [Board.record, Progress.record, Board.fill]
    split
    next => rw [ended, Bool.true_or]
    next => exact ended

end Work

namespace Pool

/-- The number of workers that have a job in hand. -/
def busy (p : Pool) : Nat := p.active.countP (·.current.isSome)

/-- What holds all through a run with a limit of failures. -/
structure Tallies (r : Remediation) (limit : Int) (lanes : List Lane) (trace : List Event)
    (taken : List (Lane × Work)) (p : Pool) : Prop where
  crew : Crew lanes taken p
  failures : p.board.progress.failures = trace.countP Event.isFailure
  bounded : (p.board.progress.failures : Int) + p.busy + 1 ≤ limit + workers r
  passed : ∀ job (n : Nat), .passed job n ∈ trace →
    p.board.progress.abandoned = true ∧ limit ≤ n ∧ n ≤ p.board.progress.failures
  resting : ∀ job n, .passed job n ∈ trace → ∀ pair ∈ taken, job ∈ pair.1 → pair.2.current = none
  untouched : ∀ e ∈ trace, ∀ lane ∈ p.waiting, e.job ∉ lane
  order : trace.Pairwise (Event.Allows lanes)

variable {r : Remediation} {c : RepairContext} {limit : Int} {lanes : List Lane}
  {trace : List Event} {taken : List (Lane × Work)} {p : Pool}

theorem tallies_start (positive : 1 ≤ limit) (s : Site) (jobs : List Job) :
    Tallies r limit (Lane.ofJobs jobs) [] [] (start s jobs) where
  crew := .start s jobs
  failures := rfl
  bounded := by
    have some : 1 ≤ workers r := Nat.le_max_left ..
    simp only [start, Board.blank, busy, List.countP_nil]
    omega
  passed _ _ member := absurd member List.not_mem_nil
  resting _ _ member := absurd member List.not_mem_nil
  untouched _ member := absurd member List.not_mem_nil
  order := .nil

theorem Tallies.take (h : Tallies r limit lanes trace taken p) {lane : Lane}
    {waiting : List Lane} (queue : p.waiting = lane :: waiting) :
    Tallies r limit lanes trace (taken ++ [(lane, { rest := lane })])
      { p with waiting, active := p.active ++ [{ rest := lane }] } where
  crew := h.crew.take queue
  failures := h.failures
  bounded := by
    have idle : List.countP (·.current.isSome) [({ rest := lane } : Work)] = 0 := rfl
    simp only [busy, List.countP_append, idle]
    exact h.bounded
  passed := h.passed
  resting job n member pair inside inLane := by
    rcases List.mem_append.mp inside with old | new
    · exact h.resting job n member pair old inLane
    · rw [List.mem_singleton.mp new]
  untouched e member other inside :=
    h.untouched e member other (queue ▸ List.mem_cons_of_mem _ inside)
  order := h.order

theorem Tallies.leave {first last : List (Lane × Work)} {lane : Lane} {w : Work}
    (h : Tallies r limit lanes trace (first ++ (lane, w) :: last) p)
    (chosen : p.active = first.map (·.2) ++ w :: last.map (·.2)) :
    Tallies r limit lanes trace (first ++ last)
      { p with active := first.map (·.2) ++ last.map (·.2) } where
  crew := h.crew.leave
  failures := h.failures
  bounded := by
    have bounded := h.bounded
    rw [busy, chosen] at bounded
    simp only [busy, List.countP_append, List.countP_cons] at bounded ⊢
    omega
  passed := h.passed
  resting job n member pair inside := h.resting job n member pair <| by
    rcases List.mem_append.mp inside with left | right
    · exact List.mem_append_left _ left
    · exact List.mem_append_right _ (List.mem_cons_of_mem _ right)
  untouched := h.untouched
  order := h.order

/-- A failure takes the place of the job that was in hand, and a job is begun only by a worker that
was not busy, before the limit is reached. -/
theorem Tallies.bounded_work {first last : List (Lane × Work)} {lane : Lane} {w w' : Work}
    {e : Event} {site : Site} {board : Board}
    (h : Tallies r limit lanes trace (first ++ (lane, w) :: last) p)
    (few : p.active.length ≤ workers r)
    (flag : p.board.progress.abandoned = true ↔ limit ≤ p.board.progress.failures)
    (does : Work.Does r p.board e w w' board)
    (chosen : p.active = first.map (·.2) ++ w :: last.map (·.2)) :
    (board.progress.failures : Int) +
        busy { p with site, board, active := first.map (·.2) ++ w' :: last.map (·.2) } + 1 ≤
      limit + workers r := by
  have failures := does.failures_eq
  have bounded := h.bounded
  have rest (works : List Work) : works.countP (·.current.isSome) ≤ works.length :=
    List.countP_le_length
  have left := rest (first.map (·.2))
  have right := rest (last.map (·.2))
  rw [busy, chosen] at bounded
  rw [chosen] at few
  simp only [busy, List.countP_append, List.countP_cons, List.length_append, List.length_cons]
    at bounded few ⊢
  cases does with
  -- Only this step makes a lane busy. The run is not abandoned, so the limit is not reached,
  -- and there are at most as many lanes as workers.
  | begins going =>
    have below : ¬limit ≤ p.board.progress.failures := fun reached =>
      Bool.false_ne_true (going.symm.trans (flag.mpr reached))
    simp only [Option.isSome_some, Option.isSome_none, if_true] at bounded ⊢
    omega
  | passes => exact bounded
  | advances => exact bounded
  -- A failure that is noted counts once, and its lane is busy no more.
  | notes =>
    simp only [Option.isSome_some, Option.isSome_none, if_true, Bool.false_eq_true, if_false]
      at bounded ⊢
    split at failures <;> omega

section

variable {first last : List (Lane × Work)} {lane : Lane} {w w' : Work} {e : Event} {board : Board}
variable (h : Tallies r limit lanes trace (first ++ (lane, w) :: last) p)
variable (does : Work.Does r p.board e w w' board)
include h does

/-- A step of a worker is about a job of its lane. -/
theorem Tallies.job_mem : e.job ∈ lane := by
  obtain ⟨rest, pending⟩ := does.pending_eq
  have own := h.crew.own _ (List.mem_append_right first List.mem_cons_self)
  exact own.subset (pending ▸ List.mem_cons_self)

/-- A worker whose lane has a job that was passed over does not go back to work. -/
theorem Tallies.stays {job : Job} {n : Nat} (member : .passed job n ∈ trace) (same : job ∈ lane) :
    (∃ n, e = .passed e.job n) ∧ w'.current = none := by
  have here : (lane, w) ∈ first ++ (lane, w) :: last :=
    List.mem_append_right _ List.mem_cons_self
  have idle := h.resting job n member _ here same
  have ended := (h.passed job n member).1
  cases does with
  | begins going => exact absurd (going.symm.trans ended) Bool.false_ne_true
  | passes => exact ⟨⟨_, rfl⟩, rfl⟩
  | advances => exact nomatch idle
  | notes => exact nomatch idle

/-- The counts at which jobs were passed over are up to date. -/
theorem Tallies.passed_work
    (flag : p.board.progress.abandoned = true ↔ limit ≤ p.board.progress.failures) {job : Job}
    {n : Nat} (member : .passed job n ∈ trace ++ [e]) :
    board.progress.abandoned = true ∧ limit ≤ n ∧ n ≤ board.progress.failures := by
  rcases List.mem_append.mp member with old | new
  · obtain ⟨ended, reached, counted⟩ := h.passed job n old
    refine ⟨does.still_abandoned ended, reached, ?_⟩
    simp only [does.failures_eq]
    omega
  · cases List.mem_singleton.mp new
    cases does with
    | passes ended => exact ⟨ended, flag.mp ended, Nat.le_refl _⟩

variable (apart : lanes.Pairwise List.Disjoint)
include apart

/-- Whoever has passed over a job of its lane is idle. -/
theorem Tallies.resting_work {job : Job} {n : Nat} (member : .passed job n ∈ trace ++ [e])
    {pair : Lane × Work} (inside : pair ∈ first ++ (lane, w') :: last) (same : job ∈ pair.1) :
    pair.2.current = none := by
  obtain ⟨others, _⟩ := h.crew.disjoint apart
  have inLane := h.job_mem does
  rcases List.mem_append.mp member with old | new
  · rcases List.mem_append.mp inside with left | right
    · exact h.resting job n old pair (List.mem_append_left _ left) same
    rcases List.mem_cons.mp right with rfl | right
    · exact (h.stays does old same).2
    · exact h.resting job n old pair (List.mem_append_right _ (List.mem_cons_of_mem _ right)) same
  · cases List.mem_singleton.mp new
    rcases List.mem_append.mp inside with left | right
    · exact absurd same (others pair (List.mem_append_left _ left) inLane)
    rcases List.mem_cons.mp right with rfl | right
    · cases does with
      | passes => rfl
    · exact absurd same (others pair (List.mem_append_right _ right) inLane)

/-- Every event so far allows the one of the step. -/
theorem Tallies.allows_work {old : Event} (member : old ∈ trace) :
    Event.Allows lanes old e := by
  rintro job n rfl
  constructor
  · rintro other rfl
    cases does with
    | begins going => exact absurd (going.symm.trans (h.passed job n member).1) Bool.false_ne_true
  · -- The lane of both jobs is the one that the worker has taken.
    intro lane' listed inside inside'
    have same : lane' = lane := by
      by_contra other
      have taken := h.crew.mem_lanes (List.mem_append_right first List.mem_cons_self)
      have : Std.Symm (@List.Disjoint Job) := ⟨fun _ _ => List.Disjoint.symm⟩
      exact apart.forall listed taken other inside' (h.job_mem does)
    subst same
    exact (h.stays does member inside).1

/-- A step of a worker keeps the tallies, and its event comes last. -/
theorem Tallies.work {site : Site} (few : p.active.length ≤ workers r)
    (flag : p.board.progress.abandoned = true ↔ limit ≤ p.board.progress.failures)
    (chosen : p.active = first.map (·.2) ++ w :: last.map (·.2)) :
    Tallies r limit lanes (trace ++ [e]) (first ++ (lane, w') :: last)
      { p with site, board, active := first.map (·.2) ++ w' :: last.map (·.2) } where
  crew := h.crew.work does.pending_suffix
  failures := by
    rw [List.countP_append, ← h.failures, does.failures_eq]
    simp [List.countP_cons]
  bounded := h.bounded_work few flag does chosen
  passed _ _ member := h.passed_work does flag member
  resting _ _ member _ inside same := h.resting_work does apart member inside same
  untouched e' member other waits := by
    rcases List.mem_append.mp member with old | new
    · exact h.untouched e' old other waits
    · rw [List.mem_singleton.mp new]
      exact (h.crew.disjoint apart).2 other waits (h.job_mem does)
  order := by
    -- What was told before is in order already, so only the new event is compared with each.
    refine List.pairwise_append.mpr ⟨h.order, List.pairwise_singleton _ _, ?_⟩
    intro old earlier new member
    rw [List.mem_singleton.mp member]
    exact h.allows_work does apart earlier

end

/-- Whatever steps were taken, the tallies hold. -/
theorem tallies_of_traces {jobs : List Job} (numbered : Lane.Numbered jobs)
    (bounded : r.maxFailures = some limit) (positive : 1 ≤ limit) {s : Site}
    (way : Traces r c (start s jobs) trace p) :
    ∃ taken, Tallies r limit (Lane.ofJobs jobs) trace taken p := by
  -- Along the trace. The lanes that were taken go with it, since the pool keeps only their
  -- works.
  induction way with
  | here => exact ⟨[], tallies_start positive s jobs⟩
  | take _ _ queue ih =>
    obtain ⟨taken, tallies⟩ := ih
    exact ⟨_, tallies.take queue⟩
  | leave _ chosen finished ih =>
    obtain ⟨taken, tallies⟩ := ih
    obtain ⟨first, lane, last, rfl, rfl, rfl⟩ := tallies.crew.split chosen
    exact ⟨_, tallies.leave chosen⟩
  | @work trace p before after w way chosen unfinished ih =>
    obtain ⟨taken, tallies⟩ := ih
    obtain ⟨first, lane, last, rfl, rfl, rfl⟩ := tallies.crew.split chosen
    obtain ⟨sites, passes⟩ := way.passes
    have counts := (invariant_of_passes numbered passes).counts
    obtain ⟨e, event, does⟩ := Work.does_next p.board p.site unfinished
    rw [event]
    have flag := counts.flag bounded positive
    exact ⟨_, tallies.work does numbered.disjoint passes.few flag chosen⟩

/-- The outcome of a job came of an event for it. -/
def Yields (trace : List Event) (job : Job) (o : Outcome) : Prop :=
  .noted job o ∈ trace ∨ ∃ n, .passed job n ∈ trace ∧ o = abandon n job.violation

theorem Yields.mono {trace more : List Event} (part : trace ⊆ more) {job : Job} {o : Outcome}
    (h : Yields trace job o) : Yields more job o := by
  rcases h with noted | ⟨n, passed, same⟩
  · exact .inl (part noted)
  · exact .inr ⟨n, part passed, same⟩

/-- What is in the slots came of events, and a job that could not be planned fails. -/
structure Records (jobs : List Job) (trace : List Event) (p : Pool) : Prop where
  slots : ∀ job ∈ jobs, ∀ o, p.board.slots[job.index]? = some (some o) → Yields trace job o
  planned : ∀ job o, .noted job o ∈ trace → ∀ reason, job.planningError = some reason →
    o = .failed job.violation reason

theorem Records.work {jobs : List Job} {sites : List Site} (numbered : Lane.Numbered jobs)
    (h : Records jobs trace p) (invariant : Invariant r c jobs sites p) {before after : List Work}
    {w w' : Work} {e : Event} {site : Site} {board : Board}
    (chosen : p.active = before ++ w :: after) (does : Work.Does r p.board e w w' board) :
    Records jobs (trace ++ [e]) { p with site, board, active := before ++ w' :: after } := by
  have here : w ∈ p.active := chosen ▸ List.mem_append_right _ List.mem_cons_self
  have sound := invariant.sound w here
  have inside : e.job ∈ jobs := by
    obtain ⟨rest, pending⟩ := does.pending_eq
    refine invariant.member _ (List.mem_append_left _ (List.mem_flatMap.mpr ⟨w, here, ?_⟩))
    rw [pending]
    exact List.mem_cons_self
  have part : trace ⊆ trace ++ [e] := List.subset_append_left ..
  have last : e ∈ trace ++ [e] := List.mem_append_right _ List.mem_cons_self
  have still (job : Job) (member : job ∈ jobs) (o : Outcome)
      (slot : p.board.slots[job.index]? = some (some o)) : Yields (trace ++ [e]) job o :=
    (h.slots job member o slot).mono part
  -- A slot that is filled is that of the job of the event.
  have filled (o' : Outcome) (yields : Yields (trace ++ [e]) e.job o') (job : Job)
      (member : job ∈ jobs) (o : Outcome)
      (slot : (p.board.slots.set e.job.index (some o'))[job.index]? = some (some o)) :
      Yields (trace ++ [e]) job o := by
    rw [List.getElem?_set] at slot
    split at slot
    next same =>
      have equal := numbered.index_inj inside member same
      split at slot
      next =>
        cases slot
        exact equal ▸ yields
      next => exact nomatch slot
    next => exact still job member o slot
  constructor
  · cases does with
    | begins => exact still
    | advances => exact still
    | passes => exact filled _ (.inr ⟨_, last, rfl⟩)
    | notes => exact filled _ (.inl last)
  · intro job o member reason unknown
    rcases List.mem_append.mp member with old | new
    · exact h.planned job o old reason unknown
    · cases List.mem_singleton.mp new
      cases does with
      | notes =>
        rcases sound _ _ rfl with ⟨_, known, rfl⟩ | ⟨known, _⟩ | ⟨known, _⟩
        · rw [Option.some.inj (unknown.symm.trans known)]
        · exact nomatch unknown.symm.trans known
        · exact nomatch unknown.symm.trans known

theorem records_of_traces {jobs : List Job} (numbered : Lane.Numbered jobs) {s : Site}
    (way : Traces r c (start s jobs) trace p) : Records jobs trace p := by
  -- Only work fills a slot or tells of a plan; a lane that is taken or left changes neither.
  induction way with
  | here =>
    refine ⟨fun job _ o slot => ?_, fun _ _ member => absurd member List.not_mem_nil⟩
    have empty := List.getElem?_eq_some_iff.mp slot
    simp [start, Board.blank] at empty
  | take _ _ _ ih => exact ⟨ih.slots, ih.planned⟩
  | leave _ _ _ ih => exact ⟨ih.slots, ih.planned⟩
  | @work trace p before after w way chosen unfinished ih =>
    obtain ⟨sites, passes⟩ := way.passes
    obtain ⟨e, event, does⟩ := Work.does_next p.board p.site unfinished
    rw [event]
    exact ih.work numbered (invariant_of_passes numbered passes) chosen does

end Pool

/-- A report counts the failures that the run has counted. -/
theorem Board.Counts.count_report {b : Board} {bound : Option Int} (h : b.Counts bound) :
    b.report.count .failed = b.progress.failures := by
  rw [h.failures, Report.count, Board.report, List.countP_filterMap]
  congr
  funext slot
  cases slot <;> rfl

namespace Remediation

/-- The same run without a limit of failures. -/
def unlimited (r : Remediation) : Remediation := { r with maxFailures := none }

variable {r : Remediation} {c : RepairContext} {limit : Int}

theorem repairWith_unlimited (v : Violation) (fixers : List Fixer) :
    r.unlimited.repairWith c v fixers = r.repairWith c v fixers := by
  induction fixers with
  | nil => rfl
  | cons f rest ih =>
    cases rest with
    | nil => rfl
    | cons g rest =>
      -- The limit is read nowhere on the way, so the bodies agree up to the rest of the fixers.
      change (do
        let outcome ← r.repair c v f
        if r.passesOn outcome then r.unlimited.repairWith c v (g :: rest) else pure outcome) = _
      rw [ih]
      rfl

theorem perform_unlimited (job : Job) : r.unlimited.perform c job = r.perform c job := by
  unfold perform
  rw [repairWith_unlimited]

/-- How a run with a limit stands to the same run without: it has come as far, or it has ended at
the limit while the other has gone on. -/
inductive Follows (limit : Int) : Board × Site → Board × Site → Prop
  | abreast {b u : Board} {s : Site} (going : b.progress.abandoned = false)
    (running : u.progress.abandoned = false) (below : (b.progress.failures : Int) < limit)
    (same : b.progress.failures = u.progress.failures) : Follows limit (b, s) (u, s)
  | ended {b u : Board} {s s' : Site} (abandoned : b.progress.abandoned = true)
    (running : u.progress.abandoned = false) (reached : (b.progress.failures : Int) = limit)
    (beyond : limit ≤ u.progress.failures) : Follows limit (b, s) (u, s')

variable {x y : Board × Site}

theorem Follows.running (h : Follows limit x y) : y.1.progress.abandoned = false := by
  cases h <;> assumption

/-- The failures of a run with a limit are those of the run without, but no more than the limit. -/
theorem Follows.failures_eq (h : Follows limit x y) :
    (x.1.progress.failures : Int) = min limit y.1.progress.failures := by
  cases h with
  | abreast _ _ below same => rw [← same, min_eq_right (Int.le_of_lt below)]
  | ended _ _ reached beyond => rw [reached, min_eq_left beyond]

/-- The progress after a job of a run that is not abandoned. -/
theorem progress_step {b : Board} (going : b.progress.abandoned = false) (job : Job) (s : Site) :
    (r.step c b job s).1.progress = b.progress.record r.maxFailures (r.perform c job s).1 ∧
      (r.step c b job s).2 = (r.perform c job s).2 := by
  rw [step, if_neg (by simp [going])]
  exact ⟨rfl, rfl⟩

/-- Where both runs have come as far, the same outcome is recorded in both of them: a failure that
reaches the limit ends the one run and not the other. -/
theorem Follows.of_record {b u b' u' : Board} {o : Outcome} {s : Site}
    (h : Follows limit (b, s) (u, s)) (going : b.progress.abandoned = false)
    (own : b'.progress = b.progress.record (some limit) o)
    (other : u'.progress = u.progress.record none o) (s' : Site) :
    Follows limit (b', s') (u', s') := by
  have still : u'.progress.abandoned = false := by
    rw [other]
    exact (Progress.abandoned_record_none _).trans h.running
  cases h with
  | ended abandoned => exact nomatch going.symm.trans abandoned
  | abreast _ running below same =>
    by_cases failed : o.status = .failed
    · rw [Progress.record_of_failed _ _ failed] at own other
      -- The two go on abreast, unless the failure reaches the limit and ends the first.
      by_cases more : (b.progress.failures : Int) + 1 < limit
      · refine .abreast ?_ still ?_ ?_
        · rw [own, going]
          simp only [Option.any_some, Bool.false_or, decide_eq_false_iff_not]
          omega
        · rw [own]
          exact more
        · rw [own, other, same]
      · refine .ended ?_ still ?_ ?_
        · rw [own, going]
          simp only [Option.any_some, Bool.false_or, decide_eq_true_iff]
          omega
        · rw [own]
          simp only
          omega
        · rw [other]
          simp only
          omega
    · rw [Progress.record_of_not_failed _ _ failed] at own other
      refine .abreast (own ▸ going) still ?_ ?_
      · rw [own]
        exact below
      · rw [own, other, same]

theorem Follows.step (bounded : r.maxFailures = some limit) (h : Follows limit x y) (job : Job) :
    Follows limit (r.step c x.1 job x.2) (r.unlimited.step c y.1 job y.2) := by
  obtain ⟨other, site'⟩ := progress_step (r := r.unlimited) (c := c) h.running job y.2
  rw [perform_unlimited] at other site'
  change _ = Progress.record none _ _ at other
  -- Once the limited run has ended its board stays, and the unlimited one can only add
  -- failures. Until then both record the same outcome.
  cases h with
  | @ended b u s s' abandoned running reached beyond =>
    have same : r.step c b job s = (b.fill job (abandon b.progress.failures job.violation), s) := by
      rw [Remediation.step, if_pos abandoned]
      rfl
    have grows : u.progress.failures ≤ (u.progress.record none (r.perform c job s').1).failures := by
      rw [Progress.record]
      split
      next => exact Nat.le_succ _
      next => exact Nat.le_refl _
    rcases second : r.unlimited.step c u job s' with ⟨u', s''⟩
    rw [second] at other
    rw [same]
    refine .ended abandoned ?_ reached ?_
    · rw [other]
      exact (Progress.abandoned_record_none _).trans running
    · rw [other]
      exact beyond.trans (Int.ofNat_le.mpr grows)
  | @abreast b u s going running below same =>
    obtain ⟨own, site⟩ := progress_step (r := r) (c := c) going job s
    have together : (r.step c b job s).2 = (r.unlimited.step c u job s).2 := site.trans site'.symm
    rcases first : r.step c b job s with ⟨b', s'⟩
    rcases second : r.unlimited.step c u job s with ⟨u', _⟩
    rw [first, second] at together
    cases together
    rw [first, bounded] at own
    rw [second] at other
    exact (Follows.abreast (s := s) going running below same).of_record going own other s'

theorem Follows.runLane (bounded : r.maxFailures = some limit) (h : Follows limit x y)
    (lane : Lane) :
    Follows limit (r.runLane c x.1 lane x.2) (r.unlimited.runLane c y.1 lane y.2) := by
  induction lane generalizing x y with
  | nil => exact h
  | cons job lane ih => exact ih (h.step bounded job)

theorem Follows.lanes (bounded : r.maxFailures = some limit) (h : Follows limit x y)
    (lanes : List Lane) :
    Follows limit (lanes.foldlM (r.runLane c) x.1 x.2)
      (lanes.foldlM (r.unlimited.runLane c) y.1 y.2) := by
  induction lanes generalizing x y with
  | nil => exact h
  | cons lane lanes ih => exact ih (h.runLane bounded lane)

theorem counts_serial (r : Remediation) {jobs : List Job} (numbered : Lane.Numbered jobs)
    (s : Site) : (Pool.serial r c s jobs).board.Counts r.maxFailures := by
  obtain ⟨sites, way⟩ := (Pool.steps_serial (r := r) (c := c) s jobs).passes
  exact (Pool.invariant_of_passes numbered way).counts

/-- Taking one lane after another, the run ends at the limit. -/
theorem failures_serial (bounded : r.maxFailures = some limit) (positive : 1 ≤ limit) (s : Site)
    (jobs : List Job) :
    ((Pool.serial r c s jobs).board.progress.failures : Int) =
      min limit (Pool.serial r.unlimited c s jobs).board.progress.failures := by
  have first : Follows limit (.blank jobs.length, s) (.blank jobs.length, s) :=
    .abreast rfl rfl positive rfl
  exact (first.lanes (c := c) bounded (Lane.ofJobs jobs)).failures_eq

end Remediation

/-- How a run with a limit of failures stands after some events. -/
structure Pool.Stands (r : Remediation) (limit : Int) (jobs : List Job) (trace : List Event)
    (p : Pool) : Prop where
  failures : p.board.progress.failures = trace.countP Event.isFailure
  abandoned : p.board.progress.abandoned = true ↔ limit ≤ trace.countP Event.isFailure
  bounded : (trace.countP Event.isFailure : Int) ≤ limit + workers r - 1
  passed : ∀ job (n : Nat), .passed job n ∈ trace → limit ≤ n ∧ n ≤ trace.countP Event.isFailure
  order : trace.Pairwise (Event.Allows (Lane.ofJobs jobs))
  planned : ∀ job o, .noted job o ∈ trace → ∀ reason, job.planningError = some reason →
    o = .failed job.violation reason

/-- What a report tells of a run with a limit of failures after all its events. -/
structure Report.Tells (r : Remediation) (limit : Int) (jobs : List Job) (trace : List Event)
    (report : Report) : Prop where
  outcomes : List.Forall₂ (Pool.Yields trace) jobs report.outcomes
  failures : report.count .failed = trace.countP Event.isFailure
  within : (report.count .failed : Int) ≤ limit + Pool.workers r - 1
  abandoned : report.abandoned = true ↔ limit ≤ report.count .failed

section

variable {r : Remediation} {c : RepairContext} {limit : Int} {jobs : List Job} {s : Site}
  {trace : List Event} {p : Pool}

theorem Pool.stands_of_traces (numbered : Lane.Numbered jobs)
    (bounded : r.maxFailures = some limit) (positive : 1 ≤ limit)
    (way : Traces r c (start s jobs) trace p) : p.Stands r limit jobs trace := by
  obtain ⟨sites, passes⟩ := way.passes
  obtain ⟨taken, tallies⟩ := tallies_of_traces numbered bounded positive way
  have flag := (invariant_of_passes numbered passes).counts.flag bounded positive
  have within := tallies.bounded
  have failures := tallies.failures
  refine ⟨failures, failures ▸ flag, by omega, ?_, tallies.order, ?_⟩
  · exact fun job n member => failures ▸ (tallies.passed job n member).2
  · exact (records_of_traces numbered way).planned

theorem Pool.tells_of_traces (numbered : Lane.Numbered jobs)
    (bounded : r.maxFailures = some limit) (positive : 1 ≤ limit)
    (way : Traces r c (start s jobs) trace p) (finished : p.IsOver) :
    p.board.report.Tells r limit jobs trace := by
  obtain ⟨sites, passes⟩ := way.passes
  have invariant := invariant_of_passes numbered passes
  have reported := invariant.counts.count_report
  obtain ⟨outcomes, slots, settled⟩ := invariant.outcomes numbered finished
  have same : p.board.report.outcomes = outcomes := by simp [Board.report, slots]
  have records := records_of_traces numbered way
  have stands := stands_of_traces numbered bounded positive way
  have failures := reported.trans stands.failures
  refine ⟨?_, failures, failures ▸ stands.bounded, ?_⟩
  · rw [same]
    refine List.forall₂_iff_get.mpr ⟨settled.length_eq, fun i inside inside' => ?_⟩
    refine records.slots _ (List.get_mem _ _) _ ?_
    rw [List.get_eq_getElem, numbered.index_getElem inside, slots]
    simp [inside']
  · rw [reported]
    exact invariant.counts.flag bounded positive

/-- Taking one lane after another, the run fails as often as without the limit, but no more than
that. -/
theorem Remediation.count_serial (numbered : Lane.Numbered jobs)
    (bounded : r.maxFailures = some limit) (positive : 1 ≤ limit) :
    ((Pool.serial r c s jobs).board.report.count .failed : Int) =
      min limit ((Pool.serial r.unlimited c s jobs).board.report.count .failed) := by
  rw [(r.counts_serial numbered s).count_report, (r.unlimited.counts_serial numbered s).count_report]
  exact failures_serial bounded positive s jobs

end

/-- Whatever steps the workers take in a run with a limit of failures, the failures noted so far are
the failures counted, the run is abandoned when they reach the limit, they stay within the limit and
one more for each further worker, and every job that is passed over says a number of failures between
the limit and the last count; after it no job of its lane is worked on. A single worker, or taking
one lane after another, fails as often as without the limit, but no more than the limit. -/
theorem Remediation.failures_within_limit (r : Remediation) (c : RepairContext) (s : Site)
    (violations : List Violation) {limit : Int} (bounded : r.maxFailures = some limit)
    (positive : 1 ≤ limit) :
    (∀ trace p, Pool.Traces r c (.start s (r.jobs c s violations)) trace p →
      p.Stands r limit (r.jobs c s violations) trace ∧
      (p.IsOver → p.board.report.Tells r limit (r.jobs c s violations) trace) ∧
      (p.IsOver → Pool.workers r = 1 → (p.board.report.count .failed : Int) =
        min limit ((r.unlimited.run c violations s).1.count .failed))) ∧
    ((r.run c violations s).1.count .failed : Int) =
      min limit ((r.unlimited.run c violations s).1.count .failed) := by
  have numbered : Lane.Numbered (r.jobs c s violations) :=
    Job.numbered_planAll r.table r.settings c s violations
  refine ⟨fun trace p way => ⟨?_, ?_, fun finished single => ?_⟩, ?_⟩
  · exact Pool.stands_of_traces numbered bounded positive way
  · exact Pool.tells_of_traces numbered bounded positive way
  · obtain ⟨sites, passes⟩ := way.passes
    rw [passes.steps.eq_serial single finished]
    exact count_serial numbered bounded positive
  · exact count_serial numbered bounded positive

/-- A fixer that fails for each of three files, with two workers and an end after the first
failure. -/
theorem Remediation.failing_failures_within_limit :
    let f : Fixer := { name := "none", rules := ["MS-001"], accepts := fun _ => true,
                       targets := fun _ v _ => .ok [Path.ofText v.location],
                       repair := fun _ _ => throw (.reported "no") }
    let r : Remediation := { table := { fixers := [f] }, strategy := InMemory.strategy,
                             maxFailures := some 1, maxWorkers := 2 }
    let c : RepairContext := { projectRoot := "/p", moduleRoot := "/p" }
    let violations : List Violation := [{ rule := "MS-001", location := "/p/a" },
      { rule := "MS-001", location := "/p/b" }, { rule := "MS-001", location := "/p/c" }]
    r.maxFailures = some 1 ∧
      (∃ trace p, Pool.Traces r c (.start {} (r.jobs c {} violations)) trace p ∧ p.IsOver ∧
        p.Stands r 1 (r.jobs c {} violations) trace ∧
        p.board.report.Tells r 1 (r.jobs c {} violations) trace) ∧
      ((r.run c violations {}).1.count .failed : Int) =
        min 1 ((r.unlimited.run c violations {}).1.count .failed : Int) := by
  intro f r c violations
  have bounded : r.maxFailures = some ((1 : Nat) : Int) := rfl
  have limited := r.failures_within_limit c {} violations bounded (by decide)
  obtain ⟨sites, p, way, finished, _⟩ := Pool.exists_passes_run (r := r) (c := c) {} violations
  obtain ⟨trace, traces⟩ := way.traces
  obtain ⟨stands, tells, _⟩ := limited.1 trace p traces
  exact ⟨rfl, ⟨trace, p, traces, finished, stands, tells finished⟩, limited.2⟩

end Layering
