import Layering.Proofs.Abandonment
import Layering.Proofs.ConfinedRepairs

/-!
# Lanes by themselves

Where repairs are confined to the files that their fixers declare, a lane cannot tell whether others are
worked on at the same time: step by step, its worker does what it would do if it had the files for
itself. So in whatever order the workers take their steps, a lane comes to the same end.
-/

namespace Layering

open Site

/-! ### One lane -/

/-- A lane that is worked on by itself. -/
structure Solo where
  work : Work
  board : Board
  site : Site

namespace Solo

variable {r : Remediation} {c : RepairContext} {x x' : Solo} {k k' : Nat}

def start (s : Site) (jobs : Nat) (lane : Lane) : Solo := ⟨{ rest := lane }, .blank jobs, s⟩

/-- One step of the worker. -/
def next (r : Remediation) (c : RepairContext) (x : Solo) : Solo :=
  let ((work, board), site) := x.work.next r c x.board x.site
  ⟨work, board, site⟩

theorem next_of_isOver (finished : x.work.isOver = true) : x.next r c = x := by
  obtain ⟨⟨current, rest⟩, board, site⟩ := x
  match current, rest with
  | none, [] => rfl
  | none, job :: rest => cases finished
  | some turn, rest => cases finished

/-- A lane that is worked on by itself comes to one end. -/
theorem unique {first : Solo} (reached : (next r c)^[k] first = x) (finished : x.work.isOver = true)
    (reached' : (next r c)^[k'] first = x') (finished' : x'.work.isOver = true) : x = x' := by
  -- The end does not change any more, so the longer of two runs ends where the shorter one did.
  have onward {n m : Nat} {y y' : Solo} (fewer : n ≤ m) (reached : (next r c)^[n] first = y)
      (finished : y.work.isOver = true) (reached' : (next r c)^[m] first = y') : y = y' := by
    have fixed : (next r c)^[m - n] y = y := Function.iterate_fixed (next_of_isOver finished) _
    rw [← reached', ← Nat.sub_add_cancel fewer, Function.iterate_add_apply, reached, fixed]
  rcases Nat.le_total k k' with fewer | fewer
  · exact onward fewer reached finished reached'
  · exact (onward fewer reached' finished' reached).symm

end Solo

namespace Work

variable {r : Remediation} {c : RepairContext} {due own : Location → Prop} {before s s' : Site}
variable {w : Work} {b b' : Board} {sites : List Site}

/-- A step of a worker comes to the same at sites that show the same of its files, and concerns no
others. -/
theorem twins_next (memory : r.strategy = InMemory.strategy)
    (straight : upName ∉ before.workingDirectory) (level : Level due before)
    (inside : ∀ l, own l → due l)
    (apt : ∀ job stage, w.current = some (job, stage) →
      job.Confined c due before ∧ job.KnownTo c before own)
    (visited : ∀ s ∈ sites, Within due before s) (sound : w.Sound r c sites)
    (pace : b'.progress.abandoned = b.progress.abandoned) (twins : Twins due own before s s') :
    (w.next r c b' s').1.1 = (w.next r c b s).1.1 ∧
      Twins due own before (w.next r c b s).2 (w.next r c b' s').2 ∧
      SameBeside own s (w.next r c b s).2 := by
  obtain ⟨current, rest⟩ := w
  match current, rest with
  | none, [] => exact ⟨rfl, twins, .refl own s⟩
  | none, job :: rest =>
    rw [next, next, pace]
    split
    next => exact ⟨rfl, twins, .refl own s⟩
    next => exact ⟨rfl, twins, .refl own s⟩
  | some (job, stage), rest =>
    by_cases done : ∃ o, stage = .done o
    · obtain ⟨o, rfl⟩ := done
      exact ⟨rfl, twins, .refl own s⟩
    · obtain ⟨confined, known⟩ := apt job stage rfl
      obtain ⟨same, after⟩ := Stage.twins_advance memory straight level inside confined known visited
        (sound job stage rfl) twins
      rw [next_stage (not_exists.mp done), next_stage (not_exists.mp done), same]
      exact ⟨rfl, after⟩

theorem mem_pending {job : Job} {stage : Stage} (turn : w.current = some (job, stage)) :
    job ∈ w.pending := by
  simp [pending, turn]

/-- A step fills the same slot of two boards. -/
theorem slots_next (calm : b.progress.abandoned = false) (calm' : b'.progress.abandoned = false)
    {i : Nat} (same : b'.slots[i]? = b.slots[i]?) :
    (w.next r c b' s').1.2.slots[i]? = (w.next r c b s).1.2.slots[i]? := by
  obtain ⟨current, rest⟩ := w
  match current, rest with
  | none, [] => exact same
  | none, job :: rest =>
    rw [next, next, if_neg (by simp [calm']), if_neg (by simp [calm])]
    exact same
  | some (job, stage), rest =>
    by_cases done : ∃ o, stage = .done o
    · obtain ⟨o, rfl⟩ := done
      have filled : (b'.slots.set job.index (some o))[i]? = (b.slots.set job.index (some o))[i]? := by
        rw [List.getElem?_set', List.getElem?_set', same]
      exact filled
    · rw [next_stage (not_exists.mp done), next_stage (not_exists.mp done)]
      exact same

/-- A step fills no slot but that of the job at hand. -/
theorem slots_next_of_ne {i : Nat} (other : ∀ job ∈ w.pending, job.index ≠ i) :
    (w.next r c b s).1.2.slots[i]? = b.slots[i]? := by
  obtain ⟨current, rest⟩ := w
  match current, rest with
  | none, [] => rfl
  | none, job :: rest =>
    have differ := other job List.mem_cons_self
    rw [next]
    split
    next => exact List.getElem?_set_ne differ
    next => rfl
  | some (job, stage), rest =>
    have differ := other job List.mem_cons_self
    by_cases done : ∃ o, stage = .done o
    · obtain ⟨o, rfl⟩ := done
      exact List.getElem?_set_ne differ
    · rw [next_stage (not_exists.mp done)]

/-- Without a limit no run is abandoned. -/
theorem calm_next (unlimited : r.maxFailures = none) (calm : b.progress.abandoned = false) :
    (w.next r c b s).1.2.progress.abandoned = false := by
  obtain ⟨current, rest⟩ := w
  match current, rest with
  | none, [] => exact calm
  | none, job :: rest =>
    rw [next, if_neg (by simp [calm])]
    exact calm
  | some (job, stage), rest =>
    by_cases done : ∃ o, stage = .done o
    · obtain ⟨o, rfl⟩ := done
      have recorded : (b.progress.record r.maxFailures o).abandoned = false := by
        rw [unlimited, Progress.abandoned_record_none, calm]
      exact recorded
    · rw [next_stage (not_exists.mp done)]
      exact calm

end Work

/-! ### Lanes of a run -/

/-- A lane has a job that may change a file at a location. -/
def Lane.Owns (lane : Lane) (l : Location) : Prop := ∃ job ∈ lane, job.Owns l

namespace Lane.Numbered

variable {jobs : List Job} (numbered : Lane.Numbered jobs) {lane other : Lane}
variable (one : lane ∈ Lane.ofJobs jobs) (another : other ∈ Lane.ofJobs jobs)
include numbered

theorem mem_of_lane (one : lane ∈ Lane.ofJobs jobs) {job : Job} (inside : job ∈ lane) : job ∈ jobs :=
  numbered.components.partition.subset (List.mem_flatten_of_mem one inside)

theorem exists_lane {job : Job} (member : job ∈ jobs) : ∃ lane ∈ Lane.ofJobs jobs, job ∈ lane := by
  have whole := numbered.components.partition.mem_iff.mpr member
  exact List.mem_flatten.mp whole

include one another

/-- A job stands in one lane. -/
theorem lane_unique {job : Job} (inside : job ∈ lane) (inside' : job ∈ other) : lane = other := by
  by_contra differ
  have symm : Std.Symm (List.Disjoint (α := Job)) := ⟨fun _ _ => List.Disjoint.symm⟩
  exact numbered.disjoint.forall one another differ inside inside'

/-- Lanes have no file in common. -/
theorem not_owns (differ : lane ≠ other) {l : Location} (here : lane.Owns l) : ¬other.Owns l := by
  rintro ⟨b, inside', there⟩
  obtain ⟨a, inside, here⟩ := here
  have first := numbered.mem_of_lane one inside
  have second := numbered.mem_of_lane another inside'
  -- Jobs with a file in common are linked, and linked jobs stand in one lane.
  have linked : Job.Linked jobs a b := .single ⟨first, second, _, here, there⟩
  obtain ⟨both, is, ina, inb⟩ := (numbered.components.together a first b second).mpr linked
  refine differ ?_
  rw [numbered.lane_unique one is inside ina, numbered.lane_unique another is inside' inb]

theorem index_ne (differ : lane ≠ other) {a b : Job} (inside : a ∈ lane) (inside' : b ∈ other) :
    a.index ≠ b.index := by
  intro same
  obtain rfl := numbered.index_inj (numbered.mem_of_lane one inside)
    (numbered.mem_of_lane another inside') same
  exact differ (numbered.lane_unique one another inside inside')

end Lane.Numbered

/-- Some job may change a file at a location. -/
def Job.Due (jobs : List Job) (l : Location) : Prop := ∃ job ∈ jobs, job.Owns l

theorem Lane.Numbered.due {jobs : List Job} {lane : Lane} {l : Location} (numbered : Numbered jobs)
    (one : lane ∈ Lane.ofJobs jobs) (here : lane.Owns l) : Job.Due jobs l := by
  obtain ⟨job, inLane, owns⟩ := here
  exact ⟨job, numbered.mem_of_lane one inLane, owns⟩

/-- Jobs whose repairs are confined to the files that their fixers declare, of which none lies on the way
to another. -/
structure Job.Separate (c : RepairContext) (s : Site) (jobs : List Job) : Prop where
  sound : s.tree.Sound
  straight : upName ∉ s.workingDirectory
  level : Level (Job.Due jobs) s
  confined : ∀ job ∈ jobs, job.Confined c (Job.Due jobs) s

namespace Pool

variable {r : Remediation} {c : RepairContext} {s : Site} {jobs : List Job} {lane : Lane}
variable {w : Work} {p q : Pool}

/-- The worker of a lane in a run has come as far as one that has the lane for itself. -/
structure Shows (s : Site) (jobs : List Job) (lane : Lane) (x : Solo) (w : Work) (p : Pool) : Prop where
  work : x.work = w
  calm : x.board.progress.abandoned = false
  twins : Twins (Job.Due jobs) lane.Owns s x.site p.site
  slots : ∀ job ∈ lane, p.board.slots[job.index]? = x.board.slots[job.index]?

/-- A worker has come to some point of a lane that it might have come to alone. -/
def Follows (r : Remediation) (c : RepairContext) (s : Site) (jobs : List Job) (lane : Lane) (w : Work)
    (p : Pool) : Prop :=
  ∃ k x, (Solo.next r c)^[k] (.start s jobs.length lane) = x ∧ Shows s jobs lane x w p

/-- What holds all through a run: every lane that is taken is as it would be alone. -/
structure Parallel (r : Remediation) (c : RepairContext) (s : Site) (jobs : List Job)
    (taken : List (Lane × Work)) (p : Pool) : Prop where
  sited : ∃ sites, Passes r c (start s jobs) sites p ∧ ∀ t ∈ sites, Within (Job.Due jobs) s t
  fares : Fares (Job.Due jobs) s p.site
  calm : p.board.progress.abandoned = false
  crew : Crew (Lane.ofJobs jobs) taken p
  waiting : ∀ lane ∈ p.waiting, Follows r c s jobs lane { rest := lane } p
  busy : ∀ pair ∈ taken, Follows r c s jobs pair.1 pair.2 p
  left : ∀ lane ∈ Lane.ofJobs jobs, lane ∉ p.waiting → lane ∉ taken.map (·.1) →
    ∃ w, w.isOver = true ∧ Follows r c s jobs lane w p

theorem Follows.congr (follows : Follows r c s jobs lane w p) (site : q.site = p.site)
    (board : q.board = p.board) : Follows r c s jobs lane w q := by
  obtain ⟨k, x, reached, work, calm, twins, slots⟩ := follows
  exact ⟨k, x, reached, work, calm, site ▸ twins, board ▸ slots⟩

theorem parallel_start (sound : s.tree.Sound) (empty : s.held = []) :
    Parallel r c s jobs [] (start s jobs) where
  sited := ⟨[], .here, fun _ member => absurd member List.not_mem_nil⟩
  fares := .start sound empty
  calm := rfl
  crew := .start s jobs
  waiting lane _ := by
    refine ⟨0, .start s jobs.length lane, rfl, rfl, rfl, ?_, fun job _ => rfl⟩
    exact Twins.refl (.start sound empty) lane.Owns
  busy _ member := absurd member List.not_mem_nil
  left lane one gone := by
    have waits : (start s jobs).waiting = Lane.ofJobs jobs := rfl
    rw [waits] at gone
    exact absurd one gone

variable {taken : List (Lane × Work)}

theorem Parallel.sited_step (parallel : Parallel r c s jobs taken p) (step : Step r c p q) :
    ∃ sites, Passes r c (start s jobs) sites q ∧ ∀ t ∈ sites, Within (Job.Due jobs) s t := by
  obtain ⟨sites, way, visited⟩ := parallel.sited
  refine ⟨_, way.step step, fun t member => ?_⟩
  rcases List.mem_append.mp member with old | new
  · exact visited t old
  · rw [List.mem_singleton.mp new]
    exact parallel.fares.toWithin

theorem Parallel.take (parallel : Parallel r c s jobs taken p) {waiting : List Lane}
    (free : p.active.length < workers r) (queue : p.waiting = lane :: waiting) :
    Parallel r c s jobs (taken ++ [(lane, { rest := lane })])
      { p with waiting, active := p.active ++ [{ rest := lane }] } where
  sited := parallel.sited_step (.take free queue)
  fares := parallel.fares
  calm := parallel.calm
  crew := parallel.crew.take queue
  waiting other waits :=
    (parallel.waiting other (queue ▸ List.mem_cons_of_mem _ waits)).congr rfl rfl
  busy pair member := by
    rcases List.mem_append.mp member with old | new
    · exact (parallel.busy pair old).congr rfl rfl
    · rw [List.mem_singleton.mp new]
      exact (parallel.waiting lane (queue ▸ List.mem_cons_self)).congr rfl rfl
  left other one gone untaken := by
    rw [List.map_append, List.mem_append, not_or] at untaken
    have differ : other ≠ lane := fun same => untaken.2 (List.mem_singleton.mpr same)
    have gone' : other ∉ p.waiting := by
      rw [queue, List.mem_cons, not_or]
      exact ⟨differ, gone⟩
    obtain ⟨w, finished, follows⟩ := parallel.left other one gone' untaken.1
    exact ⟨w, finished, follows.congr rfl rfl⟩

theorem Parallel.leave (parallel : Parallel r c s jobs taken p) {before after : List Work}
    (chosen : p.active = before ++ w :: after) (finished : w.isOver = true) :
    ∃ left, Parallel r c s jobs left { p with active := before ++ after } := by
  obtain ⟨first, lane, last, rfl, rfl, rfl⟩ := parallel.crew.split chosen
  refine ⟨first ++ last, ⟨parallel.sited_step (.leave chosen finished), parallel.fares, parallel.calm,
    parallel.crew.leave, ?_, ?_, ?_⟩⟩
  · exact fun other waits => (parallel.waiting other waits).congr rfl rfl
  · intro pair member
    have old := List.perm_middle.mem_iff.mpr (List.mem_cons_of_mem (lane, w) member)
    exact (parallel.busy pair old).congr rfl rfl
  · intro other one gone untaken
    by_cases same : other = lane
    · subst same
      have follows := parallel.busy (other, w) (List.mem_append_right _ List.mem_cons_self)
      exact ⟨w, finished, follows.congr rfl rfl⟩
    · have untaken' : other ∉ (first ++ (lane, w) :: last).map (·.1) := by
        simp only [List.map_append, List.map_cons, List.mem_append, List.mem_cons, not_or]
          at untaken ⊢
        exact ⟨untaken.1, same, untaken.2⟩
      obtain ⟨w', finished', follows⟩ := parallel.left other one gone untaken'
      exact ⟨w', finished', follows.congr rfl rfl⟩

/-- What is known of a worker and of the jobs that it has still to do. -/
theorem Parallel.known (parallel : Parallel r c s jobs taken p) (numbered : Lane.Numbered jobs)
    (member : w ∈ p.active) : (∀ job ∈ w.pending, job ∈ jobs) ∧
      ∃ sites, (∀ t ∈ sites, Within (Job.Due jobs) s t) ∧ w.Sound r c sites := by
  obtain ⟨sites, way, visited⟩ := parallel.sited
  have invariant := invariant_of_passes numbered way
  refine ⟨fun job inside => invariant.member job ?_, sites, visited, invariant.sound w member⟩
  exact List.mem_append_left _ (List.mem_flatMap.mpr ⟨w, member, inside⟩)

section

variable (memory : r.strategy = InMemory.strategy) (unlimited : r.maxFailures = none)
variable (numbered : Lane.Numbered jobs) (separate : Job.Separate c s jobs)
variable (known : ∀ job ∈ jobs, job.KnownTo c s job.Owns)
include memory unlimited numbered separate known

omit unlimited in
/-- A step for a job concerns its own files only. -/
theorem Parallel.beside_next (parallel : Parallel r c s jobs taken p) (member : w ∈ p.active)
    {job : Job} {stage : Stage} (turn : w.current = some (job, stage)) :
    Fares (Job.Due jobs) s (w.next r c p.board p.site).2 ∧
      SameBeside job.Owns p.site (w.next r c p.board p.site).2 := by
  obtain ⟨inJobs, sites, visited, sound⟩ := parallel.known numbered member
  have inJobs := inJobs job (Work.mem_pending turn)
  have apt : ∀ job' stage', w.current = some (job', stage') →
      job'.Confined c (Job.Due jobs) s ∧ job'.KnownTo c s job.Owns := by
    intro job' stage' turn'
    cases turn.symm.trans turn'
    exact ⟨separate.confined job inJobs, known job inJobs⟩
  obtain ⟨_, twins, beside⟩ := Work.twins_next memory separate.straight separate.level
    (fun l here => ⟨job, inJobs, here⟩) apt visited sound rfl (Twins.refl parallel.fares job.Owns)
  exact ⟨twins.first, beside⟩

omit memory unlimited known in
/-- A step in one lane is not noticed in another, which has no file and no slot in common with it. -/
theorem Follows.elsewhere {other : Lane} {w' : Work} {before after : List Work}
    (one : lane ∈ Lane.ofJobs jobs) (another : other ∈ Lane.ofJobs jobs) (differ : other ≠ lane)
    (part : w.pending ⊆ lane) (fares : Fares (Job.Due jobs) s (w.next r c p.board p.site).2)
    (beside : SameBeside lane.Owns p.site (w.next r c p.board p.site).2)
    (follows : Follows r c s jobs other w' p) :
    Follows r c s jobs other w' (p.turn r c before w after) := by
  obtain ⟨k, x, reached, work, calm, twins, slots⟩ := follows
  refine ⟨k, x, reached, work, calm, twins.beside separate.level ?_ fares beside, ?_⟩
  · exact fun l here => ⟨numbered.due another here, numbered.not_owns another one differ here⟩
  · intro job inLane
    refine (Work.slots_next_of_ne fun job' waits => ?_).trans (slots job inLane)
    exact numbered.index_ne one another (Ne.symm differ) (part waits) inLane

/-- A worker steps as one does that has the lane for itself, and concerns the files of its lane only. -/
theorem Follows.turn {sites : List Site} {before after : List Work}
    (one : lane ∈ Lane.ofJobs jobs) (part : w.pending ⊆ lane)
    (visited : ∀ t ∈ sites, Within (Job.Due jobs) s t) (sound : w.Sound r c sites)
    (fares : Fares (Job.Due jobs) s p.site) (calm : p.board.progress.abandoned = false)
    (follows : Follows r c s jobs lane w p) :
    Follows r c s jobs lane (w.next r c p.board p.site).1.1 (p.turn r c before w after) ∧
      Fares (Job.Due jobs) s (w.next r c p.board p.site).2 ∧
      SameBeside lane.Owns p.site (w.next r c p.board p.site).2 := by
  have apt : ∀ job stage, w.current = some (job, stage) →
      job.Confined c (Job.Due jobs) s ∧ job.KnownTo c s lane.Owns := by
    intro job stage turn
    have inLane := part (Work.mem_pending turn)
    have inJobs := numbered.mem_of_lane one inLane
    exact ⟨separate.confined job inJobs, (known job inJobs).mono fun _ owned => ⟨job, inLane, owned⟩⟩
  have twins_next {t : Site} {b b' : Board} (pace : b'.progress.abandoned = b.progress.abandoned)
      (twins : Twins (Job.Due jobs) lane.Owns s t p.site) :=
    Work.twins_next memory separate.straight separate.level (fun _ => numbered.due one) apt visited
      sound pace twins
  obtain ⟨_, still, beside⟩ := twins_next (rfl : p.board.progress.abandoned = _)
    (Twins.refl fares lane.Owns)
  obtain ⟨k, x, reached, rfl, calm', twins, slots⟩ := follows
  have pace : p.board.progress.abandoned = x.board.progress.abandoned := by rw [calm, calm']
  obtain ⟨same, after', _⟩ := twins_next pace twins
  refine ⟨⟨k + 1, x.next r c, ?_, same.symm, Work.calm_next unlimited calm', after', ?_⟩,
    still.second, beside⟩
  · rw [Function.iterate_succ_apply', reached]
  · exact fun job inLane => Work.slots_next calm' calm (slots job inLane)

/-- A step of a worker is a step of its lane alone, and concerns no other lane. -/
theorem Parallel.work (parallel : Parallel r c s jobs taken p) {before after : List Work}
    (chosen : p.active = before ++ w :: after) (unfinished : w.isOver = false) :
    ∃ taken', Parallel r c s jobs taken' (p.turn r c before w after) := by
  -- The lane of this worker goes on; those that wait, are busy or are done do not notice.
  obtain ⟨_, sites, visited, sound⟩ :=
    parallel.known numbered (chosen ▸ List.mem_append_right _ List.mem_cons_self)
  obtain ⟨first, lane, last, rfl, rfl, rfl⟩ := parallel.crew.split chosen
  have member : (lane, w) ∈ first ++ (lane, w) :: last := List.mem_append_right _ List.mem_cons_self
  have one := parallel.crew.mem_lanes member
  have part : w.pending ⊆ lane := (parallel.crew.own _ member).subset
  obtain ⟨onward, fares, beside⟩ := Follows.turn memory unlimited numbered separate known one part
    visited sound parallel.fares parallel.calm (parallel.busy _ member)
  have elsewhere {other : Lane} {w' : Work} (another : other ∈ Lane.ofJobs jobs) (differ : other ≠ lane)
      (follows : Follows r c s jobs other w' p) :
      Follows r c s jobs other w' (p.turn r c (first.map (·.2)) w (last.map (·.2))) :=
    follows.elsewhere numbered separate one another differ part fares beside
  obtain ⟨own, others⟩ := parallel.crew.disjoint numbered.disjoint
  have differs {other : Lane} (another : other ∈ Lane.ofJobs jobs) (apart : List.Disjoint lane other) :
      other ≠ lane := by
    rintro rfl
    obtain ⟨job, inLane⟩ := List.exists_mem_of_ne_nil _ (numbered.components.inhabited _ another)
    exact apart inLane inLane
  obtain ⟨event, _, does⟩ := Work.does_next (r := r) (c := c) p.board p.site unfinished
  refine ⟨first ++ (lane, (w.next r c p.board p.site).1.1) :: last,
    parallel.sited_step (.work chosen unfinished), fares, Work.calm_next unlimited parallel.calm,
    parallel.crew.work does.pending_suffix, ?_, ?_, ?_⟩
  · intro other waits
    have another := parallel.crew.part.subset (List.mem_append_right _ waits)
    exact elsewhere another (differs another (others other waits)) (parallel.waiting other waits)
  · intro pair listed
    by_cases this : pair = (lane, (w.next r c p.board p.site).1.1)
    · exact this ▸ onward
    · have old : pair ∈ first ++ last :=
        (List.mem_cons.mp (List.perm_middle.mem_iff.mp listed)).resolve_left this
      have listed' : pair ∈ first ++ (lane, w) :: last :=
        List.perm_middle.mem_iff.mpr (List.mem_cons_of_mem _ old)
      have another := parallel.crew.mem_lanes listed'
      exact elsewhere another (differs another (own pair old)) (parallel.busy pair listed')
  · intro other another gone untaken
    have untaken' : other ∉ (first ++ (lane, w) :: last).map (·.1) := by
      simpa only [List.map_append, List.map_cons] using untaken
    have differ : other ≠ lane := by
      rintro rfl
      exact untaken' (List.mem_map_of_mem member)
    obtain ⟨w', finished, follows⟩ := parallel.left other another gone untaken'
    exact ⟨w', finished, elsewhere another differ follows⟩

variable (empty : s.held = [])
include empty

/-- Whatever steps were taken, every lane is as it would be alone. -/
theorem parallel_of_steps (way : Steps r c (start s jobs) p) : ∃ taken, Parallel r c s jobs taken p := by
  induction way with
  | refl => exact ⟨[], parallel_start separate.sound empty⟩
  | tail _ step ih =>
    obtain ⟨taken, parallel⟩ := ih
    cases step with
    | take free queue => exact ⟨_, parallel.take free queue⟩
    | work chosen unfinished =>
      exact parallel.work memory unlimited numbered separate known chosen unfinished
    | leave chosen finished => exact parallel.leave chosen finished

omit memory unlimited numbered separate known empty

/-- At the end of a run every lane has come to the end of its own. -/
theorem Parallel.ended (parallel : Parallel r c s jobs taken p) (finished : p.IsOver)
    (one : lane ∈ Lane.ofJobs jobs) : ∃ w, w.isOver = true ∧ Follows r c s jobs lane w p := by
  have works := parallel.crew.works
  rw [finished.2, List.map_eq_nil_iff] at works
  subst works
  refine parallel.left lane one ?_ List.not_mem_nil
  rw [finished.1]
  exact List.not_mem_nil

variable {taken' : List (Lane × Work)}

/-- Two runs that are over have come to the same in each lane. -/
theorem Parallel.same_lane (parallel : Parallel r c s jobs taken p) (finished : p.IsOver)
    (parallel' : Parallel r c s jobs taken' q) (finished' : q.IsOver)
    (one : lane ∈ Lane.ofJobs jobs) : SameAt lane.Owns q.site p.site ∧
      ∀ job ∈ lane, p.board.slots[job.index]? = q.board.slots[job.index]? := by
  obtain ⟨w, done, k, x, reached, work, _, twins, slots⟩ := parallel.ended finished one
  obtain ⟨w', done', k', x', reached', work', _, twins', slots'⟩ := parallel'.ended finished' one
  obtain rfl := Solo.unique reached (work ▸ done) reached' (work' ▸ done')
  refine ⟨twins'.same.symm.trans twins.same, fun job inLane => ?_⟩
  rw [slots job inLane, slots' job inLane]

include numbered

/-- Two runs that are over report the same, leave the same files, and remember the same of them. -/
theorem Parallel.agree (parallel : Parallel r c s jobs taken p) (finished : p.IsOver)
    (parallel' : Parallel r c s jobs taken' q) (finished' : q.IsOver) :
    p.board.report = q.board.report ∧
      (∀ l bytes mode, p.site.tree.at? l = some (.file bytes mode) ↔
        q.site.tree.at? l = some (.file bytes mode)) ∧
      ∀ l, Job.Due jobs l → (Entries.get? ⟨.root, l⟩ p.site.held).map Held.bytes? =
        (Entries.get? ⟨.root, l⟩ q.site.held).map Held.bytes? := by
  have same {lane : Lane} (one : lane ∈ Lane.ofJobs jobs) :=
    parallel.same_lane finished parallel' finished' one
  have sized {p : Pool} {taken : List (Lane × Work)} (parallel : Parallel r c s jobs taken p) :
      p.board.slots.length = jobs.length := by
    obtain ⟨sites, way, _⟩ := parallel.sited
    exact (invariant_of_passes numbered way).size
  have slots : p.board.slots = q.board.slots := by
    -- Each slot is that of one job, which stands in one lane.
    refine List.ext_getElem? fun i => ?_
    by_cases small : i < jobs.length
    · obtain ⟨lane, one, inLane⟩ := numbered.exists_lane (List.getElem_mem small)
      have filled := (same one).2 _ inLane
      rwa [numbered.index_getElem small] at filled
    · rw [List.getElem?_eq_none (by rw [sized parallel]; omega),
        List.getElem?_eq_none (by rw [sized parallel']; omega)]
  refine ⟨?_, fun l bytes mode => ?_, fun l here => ?_⟩
  · rw [Board.report, Board.report, slots, parallel.calm, parallel'.calm]
  · -- Files that are nobody's are as they were before, after both runs.
    by_cases here : Job.Due jobs l
    · obtain ⟨job, member, owns⟩ := here
      obtain ⟨lane, one, inLane⟩ := numbered.exists_lane member
      rw [(same one).1.entries l ⟨job, inLane, owns⟩]
    · rw [parallel.fares.files l here, parallel'.fares.files l here]
  · obtain ⟨job, member, owns⟩ := here
    obtain ⟨lane, one, inLane⟩ := numbered.exists_lane member
    exact (same one).1.held l ⟨job, inLane, owns⟩

end

end Pool

end Layering
