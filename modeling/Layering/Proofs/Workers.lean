import Layering.Proofs.Attempts
import Layering.Proofs.Lanes

/-!
# Runs of workers

Whatever the order in which the workers take their steps, a run comes to its end, and then the slot
of every job holds what came of it. The run that takes one lane after another is one of these.
-/

namespace Layering

open Remediation (abandon Attempt Tried AtTurn)

/-- The jobs that a worker has still to do. -/
def Work.pending (w : Work) : List Job := (w.current.map (·.1)).toList ++ w.rest

/-- What is known of the job at hand. -/
def Work.Sound (r : Remediation) (c : RepairContext) (sites : List Site) (w : Work) : Prop :=
  ∀ job stage, w.current = some (job, stage) → stage.Sound r c sites job

/-- What the slot of a job holds in the end. -/
inductive Settles (r : Remediation) (c : RepairContext) (sites : List Site) (failures : Nat)
    (job : Job) : Outcome → Prop
  | done {o : Outcome} (sound : Stage.Sound r c sites job (.done o)) :
    Settles r c sites failures job o
  | abandoned {n : Nat} {limit : Int} (bounded : r.maxFailures = some limit) (some : 0 < n)
    (reached : limit ≤ n) (counted : n ≤ failures) :
    Settles r c sites failures job (abandon n job.violation)

/-- What one step of a worker does: it goes on with its lane, it passes over a job because the run
is abandoned, or it notes the outcome of a job. -/
inductive Work.Advances (r : Remediation) (c : RepairContext) (sites : List Site)
    (b : Board) (w w' : Work) (b' : Board) : Prop
  | onward (same : w'.pending = w.pending) (board : b' = b)
  | passed {job : Job} (pending : w.pending = job :: w'.pending)
    (ended : b.progress.abandoned = true)
    (board : b' = b.fill job (abandon b.progress.failures job.violation))
  | settled {job : Job} {o : Outcome} (pending : w.pending = job :: w'.pending)
    (sound : Stage.Sound r c sites job (.done o))
    (board : b' = (b.fill job o).record r.maxFailures o)

section

variable {r : Remediation} {c : RepairContext} {sites more : List Site}

theorem Work.Sound.mono {w : Work} (part : sites.Sublist more) (h : w.Sound r c sites) :
    w.Sound r c more :=
  fun job stage current => (h job stage current).mono part

theorem Settles.mono {failures failures' : Nat} {job : Job} {o : Outcome} (part : sites.Sublist more)
    (fewer : failures ≤ failures') (h : Settles r c sites failures job o) :
    Settles r c more failures' job o := by
  cases h with
  | done sound => exact .done (sound.mono part)
  | abandoned bounded some reached counted =>
    exact .abandoned bounded some reached (Nat.le_trans counted fewer)

/-- Work that is not done goes on to the next stage. -/
theorem Work.next_stage {stage : Stage} (undone : ∀ o, stage ≠ .done o) (job : Job) (rest : Lane)
    (b : Board) (s : Site) :
    Work.next r c b ⟨some (job, stage), rest⟩ s =
      ((⟨some (job, (stage.advance r c job.violation s).1), rest⟩, b),
        (stage.advance r c job.violation s).2) := by
  cases stage with
  | trying f fixers => rfl
  | guarded f fixers t => rfl
  | repaired f fixers t result => rfl
  | done o => exact absurd rfl (undone o)

/-- Every step of a worker is one of the three, and what is known of its job still holds. -/
theorem Work.next_cases {w : Work} (b : Board) (s : Site)
    (sound : w.Sound r c sites) :
    (w.next r c b s).1.1.Sound r c (sites ++ [s]) ∧
      Work.Advances r c (sites ++ [s]) b w (w.next r c b s).1.1 (w.next r c b s).1.2 := by
  have idle (rest : Lane) : Work.Sound r c (sites ++ [s]) ⟨none, rest⟩ :=
    fun _ _ current => nomatch current
  have busy {job : Job} {stage : Stage} {rest : Lane}
      (known : stage.Sound r c (sites ++ [s]) job) :
      Work.Sound r c (sites ++ [s]) ⟨some (job, stage), rest⟩ := by
    rintro _ _ ⟨⟩
    exact known
  obtain ⟨current, rest⟩ := w
  match current, rest with
  | none, [] => exact ⟨idle [], .onward rfl rfl⟩
  | none, job :: rest =>
    rw [next]
    split
    next ended => exact ⟨idle rest, .passed rfl ended rfl⟩
    next => exact ⟨busy (Stage.sound_first job), .onward rfl rfl⟩
  | some (job, stage), rest =>
    by_cases done : ∃ o, stage = .done o
    · obtain ⟨o, rfl⟩ := done
      have known := (sound job _ rfl).mono (List.sublist_append_left sites [s])
      exact ⟨idle rest, .settled rfl known rfl⟩
    · rw [next_stage (not_exists.mp done)]
      exact ⟨busy (Stage.sound_advance s (sound _ _ rfl)), .onward rfl rfl⟩

end

namespace Board

/-- A slot holds the outcome of a failed repair. -/
def holdsFailure (slot : Option Outcome) : Bool := slot.any (·.status = .failed)

/-- The failures are those in the slots, and the run is abandoned when they reach the limit. -/
structure Counts (limit : Option Int) (b : Board) : Prop where
  failures : b.progress.failures = b.slots.countP holdsFailure
  abandoned : b.progress.abandoned = true ↔
    ∃ n, limit = some n ∧ 0 < b.progress.failures ∧ n ≤ b.progress.failures

theorem counts_blank (limit : Option Int) (jobs : Nat) : (blank jobs).Counts limit where
  failures := by simp [blank, List.countP_replicate, holdsFailure]
  abandoned := by simp [blank]

/-- Filling an empty slot adds one failure or none. -/
theorem countP_fill {b : Board} {job : Job} {o : Outcome}
    (empty : b.slots[job.index]? = some none) :
    (b.fill job o).slots.countP holdsFailure =
      b.slots.countP holdsFailure + if o.status = .failed then 1 else 0 := by
  obtain ⟨inside, empty⟩ := List.getElem?_eq_some_iff.mp empty
  rw [fill, List.countP_set inside, empty]
  simp [holdsFailure]

theorem Counts.pass {limit : Option Int} {b : Board} (h : b.Counts limit) {job : Job}
    (empty : b.slots[job.index]? = some none) (n : Nat) :
    (b.fill job (abandon n job.violation)).Counts limit where
  failures := by
    rw [countP_fill empty, if_neg (by simp [abandon, Outcome.skipped])]
    exact h.failures
  abandoned := h.abandoned

theorem Counts.settle {limit : Option Int} {b : Board} (h : b.Counts limit) {job : Job}
    (empty : b.slots[job.index]? = some none) (o : Outcome) :
    ((b.fill job o).record limit o).Counts limit := by
  have filled := countP_fill (o := o) empty
  unfold record Progress.record
  split
  next failed =>
    rw [if_pos failed] at filled
    refine ⟨by rw [filled, ← h.failures]; rfl, ?_⟩
    have before := h.abandoned
    simp only [fill, Bool.or_eq_true, before, Option.any_eq_true]
    constructor
    · rintro (⟨n, bounded, some, reached⟩ | ⟨n, bounded, reached⟩)
      · exact ⟨n, bounded, by omega, by omega⟩
      · exact ⟨n, bounded, by omega, of_decide_eq_true reached⟩
    · rintro ⟨n, bounded, _, reached⟩
      exact .inr ⟨n, bounded, decide_eq_true reached⟩
  next other =>
    rw [if_neg other] at filled
    exact ⟨h.failures.trans filled.symm, h.abandoned⟩

end Board

namespace Pool

/-- The jobs that are not done. -/
def pending (p : Pool) : List Job := p.active.flatMap Work.pending ++ p.waiting.flatten

/-- What holds all through a run over some jobs: a job that is not done has an empty slot, and the
slot of any other job holds what came of it. -/
structure Invariant (r : Remediation) (c : RepairContext) (jobs : List Job) (sites : List Site)
    (p : Pool) : Prop where
  size : p.board.slots.length = jobs.length
  distinct : p.pending.Pairwise fun job other => job.index ≠ other.index
  member : ∀ job ∈ p.pending, job ∈ jobs
  empty : ∀ job ∈ p.pending, p.board.slots[job.index]? = some none
  settled : ∀ job ∈ jobs, job ∈ p.pending ∨ ∃ o, p.board.slots[job.index]? = some (some o) ∧
    Settles r c sites p.board.progress.failures job o
  counts : p.board.Counts r.maxFailures
  sound : ∀ w ∈ p.active, w.Sound r c sites

variable {r : Remediation} {c : RepairContext} {jobs : List Job} {sites : List Site}
  {p q : Pool}

/-- A step that does no job keeps the invariant. -/
theorem Invariant.onward (h : Invariant r c jobs sites p) (board : q.board = p.board)
    (pending : q.pending.Perm p.pending) {more : List Site} (part : sites.Sublist more)
    (sound : ∀ w ∈ q.active, w.Sound r c more) : Invariant r c jobs more q where
  size := by rw [board, h.size]
  distinct := h.distinct.perm pending.symm fun differ => differ.symm
  member job waits := h.member job (pending.mem_iff.mp waits)
  empty job waits := by rw [board, h.empty job (pending.mem_iff.mp waits)]
  settled job inside := by
    rw [board, pending.mem_iff]
    refine (h.settled job inside).imp_right fun ⟨o, slot, settles⟩ => ?_
    exact ⟨o, slot, settles.mono part (Nat.le_refl _)⟩
  counts := board ▸ h.counts
  sound := sound

/-- A step that does a job keeps the invariant, if what it puts into the slot came of the job. -/
theorem Invariant.fill (h : Invariant r c jobs sites p) {job : Job} {o : Outcome}
    (numbered : Lane.Numbered jobs)
    (slots : q.board.slots = (p.board.fill job o).slots)
    (pending : p.pending.Perm (job :: q.pending)) {more : List Site} (part : sites.Sublist more)
    (settles : Settles r c more q.board.progress.failures job o)
    (grows : p.board.progress.failures ≤ q.board.progress.failures)
    (counts : q.board.Counts r.maxFailures) (sound : ∀ w ∈ q.active, w.Sound r c more) :
    Invariant r c jobs more q := by
  have here : job ∈ p.pending := pending.mem_iff.mpr List.mem_cons_self
  have still {other : Job} (waits : other ∈ q.pending) : other ∈ p.pending :=
    pending.mem_iff.mpr (List.mem_cons_of_mem _ waits)
  have apart := h.distinct.perm pending fun differ => differ.symm
  obtain ⟨others, distinct⟩ := List.pairwise_cons.mp apart
  have filled (i : Nat) : q.board.slots[i]? =
      if job.index = i then some (some o) else p.board.slots[i]? := by
    have inside := (List.getElem?_eq_some_iff.mp (h.empty job here)).1
    rw [slots, Board.fill, List.getElem?_set]
    grind
  refine ⟨?_, distinct, fun other waits => h.member other (still waits), ?_, ?_, counts, sound⟩
  · rw [slots, Board.fill, List.length_set, h.size]
  · intro other waits
    rw [filled, if_neg (others other waits)]
    exact h.empty other (still waits)
  · intro other inside
    by_cases same : job.index = other.index
    · -- Indices tell jobs apart, so that this is the job that was done.
      have equal := numbered.index_inj (h.member job here) inside same
      subst equal
      exact .inr ⟨o, by rw [filled, if_pos rfl], settles⟩
    · rcases h.settled other inside with waits | ⟨o', slot, settles'⟩
      · refine .inl ((List.mem_cons.mp (pending.mem_iff.mp waits)).resolve_left ?_)
        rintro rfl
        exact same rfl
      · refine .inr ⟨o', ?_, settles'.mono part grows⟩
        rw [filled, if_neg same, slot]

theorem pending_take (p : Pool) {lane : Lane} {waiting : List Lane}
    (queue : p.waiting = lane :: waiting) :
    ({ p with waiting, active := p.active ++ [{ rest := lane }] } : Pool).pending.Perm p.pending := by
  simp [pending, queue, Work.pending]

theorem pending_leave {before after : List Work} {w : Work}
    (chosen : p.active = before ++ w :: after) (finished : w.isOver = true) :
    ({ p with active := before ++ after } : Pool).pending = p.pending := by
  obtain ⟨⟨⟩ | _, _ | _⟩ := w <;> simp_all [Work.isOver, pending, Work.pending]

theorem pending_work {before after : List Work} {w w' : Work} {site : Site} {board : Board}
    (chosen : p.active = before ++ w :: after) (jobs : List Job)
    (here : w.pending = jobs ++ w'.pending) :
    p.pending.Perm (jobs ++
      ({ p with site, board, active := before ++ w' :: after } : Pool).pending) := by
  simp only [pending, chosen, List.flatMap_append, List.flatMap_cons, here, List.append_assoc]
  exact List.perm_append_comm_assoc _ _ _

/-- A step of one worker keeps the invariant. -/
theorem Invariant.work (numbered : Lane.Numbered jobs) (h : Invariant r c jobs sites p)
    {before after : List Work} {w w' : Work} {board : Board} (site : Site)
    (chosen : p.active = before ++ w :: after) {more : List Site} (part : sites.Sublist more)
    (sound : w'.Sound r c more) (advances : Work.Advances r c more p.board w w' board) :
    Invariant r c jobs more { p with site, board, active := before ++ w' :: after } := by
  have sounds : ∀ w'' ∈ before ++ w' :: after, w''.Sound r c more := by
    have still : ∀ w'' ∈ p.active, w''.Sound r c more :=
      fun w'' member => (h.sound w'' member).mono part
    rw [chosen] at still
    intro w'' member
    rcases List.mem_append.mp member with old | new
    · exact still w'' (List.mem_append_left _ old)
    · rcases List.mem_cons.mp new with rfl | old
      · exact sound
      · exact still w'' (List.mem_append_right _ (List.mem_cons_of_mem _ old))
  -- The slot of a job that is pending is empty until the job ends.
  have waits {job : Job} {rest : List Job} (pending : w.pending = job :: rest) :
      p.board.slots[job.index]? = some none := by
    refine h.empty job (List.mem_append_left _ (List.mem_flatMap.mpr ⟨w, ?_, ?_⟩))
    · rw [chosen]
      exact List.mem_append_right _ List.mem_cons_self
    · rw [pending]
      exact List.mem_cons_self
  cases advances with
  | onward same board =>
    exact h.onward board (pending_work chosen [] same.symm).symm part sounds
  | @passed job pending ended board =>
    subst board
    obtain ⟨limit, bounded, some, reached⟩ := h.counts.abandoned.mp ended
    exact h.fill numbered rfl (pending_work chosen [job] pending) part
      (.abandoned bounded some reached (Nat.le_refl _)) (Nat.le_refl _)
      (h.counts.pass (waits pending) _) sounds
  | @settled job o pending sound board =>
    subst board
    refine h.fill numbered rfl (pending_work chosen [job] pending) part (.done sound) ?_
      (h.counts.settle (waits pending) o) sounds
    simp only [Board.record, Progress.record]
    split
    next => exact Nat.le_succ _
    next => exact Nat.le_refl _

/-- Every step keeps the invariant; its site is one more that the run passed through. -/
theorem Invariant.step (numbered : Lane.Numbered jobs) (h : Invariant r c jobs sites p)
    (step : Step r c p q) : Invariant r c jobs (sites ++ [p.site]) q := by
  have part : sites.Sublist (sites ++ [p.site]) := List.sublist_append_left ..
  have still : ∀ w ∈ p.active, w.Sound r c (sites ++ [p.site]) :=
    fun w member => (h.sound w member).mono part
  cases step with
  | take free queue =>
    refine h.onward ?_ (pending_take p queue) part fun w member => ?_
    · rfl
    · rcases List.mem_append.mp member with old | new
      · exact still w old
      · rw [List.mem_singleton.mp new]
        exact fun _ _ current => nomatch current
  | leave chosen finished =>
    refine h.onward ?_ (.of_eq (pending_leave chosen finished)) part fun w member => ?_
    · rfl
    · rw [chosen] at still
      exact still w (by grind)
  | @work before after w chosen unfinished =>
    have known := h.sound w (chosen ▸ List.mem_append_right _ List.mem_cons_self)
    obtain ⟨sound, advances⟩ := Work.next_cases p.board p.site known
    exact h.work numbered _ chosen part sound advances

theorem invariant_start (numbered : Lane.Numbered jobs) (s : Site) :
    Invariant r c jobs [] (start s jobs) := by
  have whole : (start s jobs).pending.Perm jobs := numbered.components.partition
  have apart := numbered.pairwise.imp fun {a b : Job} below => Nat.ne_of_lt below
  refine ⟨?_, apart.perm whole.symm fun differ => differ.symm, ?_, ?_, ?_, ?_, ?_⟩
  · exact List.length_replicate
  · exact fun job member => whole.mem_iff.mp member
  · intro job member
    exact List.getElem?_replicate_of_lt (numbered.index_lt (whole.mem_iff.mp member))
  · exact fun job member => .inl (whole.mem_iff.mpr member)
  · exact Board.counts_blank _ _
  · exact fun w member => nomatch member

/-- A run passes through some sites, one for each step. -/
inductive Passes (r : Remediation) (c : RepairContext) (first : Pool) : List Site → Pool → Prop
  | here : Passes r c first [] first
  | step {sites : List Site} {p q : Pool} (way : Passes r c first sites p) (step : Step r c p q) :
    Passes r c first (sites ++ [p.site]) q

/-- Whatever steps were taken, the invariant holds. -/
theorem invariant_of_passes (numbered : Lane.Numbered jobs) {s : Site}
    (way : Passes r c (start s jobs) sites p) : Invariant r c jobs sites p := by
  induction way with
  | here => exact invariant_start numbered s
  | step _ step ih => exact ih.step numbered step

/-- At the end of a run every slot holds what came of its job. -/
theorem Invariant.outcomes (numbered : Lane.Numbered jobs) (h : Invariant r c jobs sites p)
    (finished : p.IsOver) :
    ∃ outcomes, p.board.slots = outcomes.map some ∧
      List.Forall₂ (Settles r c sites p.board.progress.failures) jobs outcomes := by
  have nothing : p.pending = [] := by simp [pending, finished.1, finished.2]
  have filled : List.Forall₂ (fun job slot => ∃ o, slot = some o ∧
      Settles r c sites p.board.progress.failures job o) jobs p.board.slots := by
    refine List.forall₂_iff_get.mpr ⟨h.size.symm, fun i first second => ?_⟩
    have index : (jobs.get ⟨i, first⟩).index = i := numbered.index_getElem first
    rcases h.settled _ (List.get_mem jobs ⟨i, first⟩) with waits | ⟨o, slot, settles⟩
    · rw [nothing] at waits
      contradiction
    · rw [index, List.getElem?_eq_getElem second] at slot
      exact ⟨o, Option.some.inj slot, settles⟩
  clear h numbered
  generalize p.board.slots = slots at filled ⊢
  induction filled with
  | nil => exact ⟨[], rfl, .nil⟩
  | cons head _ ih =>
    obtain ⟨o, rfl, settles⟩ := head
    obtain ⟨outcomes, rfl, rest⟩ := ih
    exact ⟨o :: outcomes, rfl, .cons settles rest⟩

end Pool

end Layering
