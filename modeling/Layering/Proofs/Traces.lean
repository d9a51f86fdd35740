import Layering.Proofs.Schedules

/-!
# Traces

What the workers of a run do for its jobs, one event after another, and which lane each worker is
busy with.
-/

namespace Layering

open Remediation (abandon)

/-- What a step of a worker does for a job. -/
inductive Event where
  /-- The run is not abandoned, and the job is begun. -/
  | begun (job : Job)
  /-- The run is abandoned after some failures, and the job is passed over. -/
  | passed (job : Job) (failures : Nat)
  /-- The job is taken one stage further. -/
  | advanced (job : Job)
  /-- The outcome of the job is noted. -/
  | noted (job : Job) (o : Outcome)

namespace Event

/-- The job that something is done for. -/
def job : Event → Job
  | begun job | passed job _ | advanced job | noted job _ => job

/-- A failure is noted. -/
def isFailure : Event → Bool
  | noted _ o => o.status = .failed
  | _ => false

end Event

namespace Work

/-- What the next step of a worker does. -/
def event (b : Board) : Work → Option Event
  | ⟨none, []⟩ => none
  | ⟨none, job :: _⟩ =>
    some (if b.progress.abandoned then .passed job b.progress.failures else .begun job)
  | ⟨some (job, .done o), _⟩ => some (.noted job o)
  | ⟨some (job, _), _⟩ => some (.advanced job)

/-- What a step that does something makes of the work and of the board. -/
inductive Does (r : Remediation) (b : Board) : Event → Work → Work → Board → Prop
  | begins {job : Job} {rest : Lane} (going : b.progress.abandoned = false) :
    Does r b (.begun job) ⟨none, job :: rest⟩ ⟨some (job, .first job), rest⟩ b
  | passes {job : Job} {rest : Lane} (ended : b.progress.abandoned = true) :
    Does r b (.passed job b.progress.failures) ⟨none, job :: rest⟩ ⟨none, rest⟩
      (b.fill job (abandon b.progress.failures job.violation))
  | advances {job : Job} {stage stage' : Stage} {rest : Lane} :
    Does r b (.advanced job) ⟨some (job, stage), rest⟩ ⟨some (job, stage'), rest⟩ b
  | notes {job : Job} {o : Outcome} {rest : Lane} :
    Does r b (.noted job o) ⟨some (job, .done o), rest⟩ ⟨none, rest⟩
      ((b.fill job o).record r.maxFailures o)

variable {r : Remediation} {c : RepairContext}

/-- A worker that has something to do does it. -/
theorem does_next {w : Work} (b : Board) (s : Site) (unfinished : w.isOver = false) :
    ∃ event, w.event b = some event ∧ Does r b event w (w.next r c b s).1.1 (w.next r c b s).1.2 := by
  obtain ⟨current, rest⟩ := w
  match current, rest with
  | none, [] => simp [isOver] at unfinished
  | none, job :: rest =>
    rw [next, event]
    split
    next ended => exact ⟨_, rfl, .passes ended⟩
    next going => exact ⟨_, rfl, .begins (eq_false_of_ne_true going)⟩
  | some (job, stage), rest =>
    by_cases done : ∃ o, stage = .done o
    · obtain ⟨o, rfl⟩ := done
      exact ⟨_, rfl, .notes⟩
    · rw [next_stage (not_exists.mp done), event]
      · exact ⟨_, rfl, .advances⟩
      · rintro o rfl
        exact done ⟨o, rfl⟩

variable {b b' : Board} {e : Event} {w w' : Work}

/-- A worker does something only for the first of the jobs that it has still to do. -/
theorem Does.pending_eq (h : Does r b e w w' b') : ∃ rest, w.pending = e.job :: rest := by
  cases h <;> exact ⟨_, rfl⟩

/-- No work comes to a worker. -/
theorem Does.pending_suffix (h : Does r b e w w' b') : w'.pending <:+ w.pending := by
  cases h with
  | begins => exact List.suffix_rfl
  | advances => exact List.suffix_rfl
  | passes => exact List.suffix_cons ..
  | notes => exact List.suffix_cons ..

end Work

namespace Pool

variable {r : Remediation} {c : RepairContext} {first p : Pool} {trace : List Event}

/-- A run in which some things were done for jobs, one after another. -/
inductive Traces (r : Remediation) (c : RepairContext) (first : Pool) : List Event → Pool → Prop
  | here : Traces r c first [] first
  | take {trace : List Event} {p : Pool} {lane : Lane} {waiting : List Lane}
    (way : Traces r c first trace p) (free : p.active.length < workers r)
    (queue : p.waiting = lane :: waiting) :
    Traces r c first trace { p with waiting, active := p.active ++ [{ rest := lane }] }
  | work {trace : List Event} {p : Pool} {before after : List Work} {w : Work}
    (way : Traces r c first trace p) (chosen : p.active = before ++ w :: after)
    (unfinished : w.isOver = false) :
    Traces r c first (trace ++ (w.event p.board).toList) (p.turn r c before w after)
  | leave {trace : List Event} {p : Pool} {before after : List Work} {w : Work}
    (way : Traces r c first trace p) (chosen : p.active = before ++ w :: after)
    (finished : w.isOver = true) : Traces r c first trace { p with active := before ++ after }

theorem Traces.passes (h : Traces r c first trace p) : ∃ sites, Passes r c first sites p := by
  induction h with
  | here => exact ⟨[], .here⟩
  | take _ free queue ih =>
    obtain ⟨sites, way⟩ := ih
    exact ⟨_, way.step (.take free queue)⟩
  | work _ chosen unfinished ih =>
    obtain ⟨sites, way⟩ := ih
    exact ⟨_, way.step (.work chosen unfinished)⟩
  | leave _ chosen finished ih =>
    obtain ⟨sites, way⟩ := ih
    exact ⟨_, way.step (.leave chosen finished)⟩

/-- Every run has a trace. -/
theorem Passes.traces {sites : List Site} (h : Passes r c first sites p) :
    ∃ trace, Traces r c first trace p := by
  induction h with
  | here => exact ⟨[], .here⟩
  | step _ step ih =>
    obtain ⟨trace, way⟩ := ih
    cases step with
    | take free queue => exact ⟨trace, way.take free queue⟩
    | work chosen unfinished => exact ⟨_, way.work chosen unfinished⟩
    | leave chosen finished => exact ⟨trace, way.leave chosen finished⟩

/-- Each lane that is taken with the work of its worker, beside the lanes that are not. -/
structure Crew (lanes : List Lane) (taken : List (Lane × Work)) (p : Pool) : Prop where
  works : taken.map (·.2) = p.active
  part : (taken.map (·.1) ++ p.waiting).Sublist lanes
  own : ∀ pair ∈ taken, pair.2.pending <:+ pair.1

namespace Crew

variable {lanes : List Lane} {taken : List (Lane × Work)}

theorem start (s : Site) (jobs : List Job) : Crew (Lane.ofJobs jobs) [] (start s jobs) where
  works := rfl
  part := by
    have waiting : (Pool.start s jobs).waiting = Lane.ofJobs jobs := rfl
    rw [waiting, List.map_nil, List.nil_append]
  own _ member := absurd member List.not_mem_nil

theorem take (h : Crew lanes taken p) {lane : Lane} {waiting : List Lane}
    (queue : p.waiting = lane :: waiting) :
    Crew lanes (taken ++ [(lane, { rest := lane })])
      { p with waiting, active := p.active ++ [{ rest := lane }] } where
  works := by rw [List.map_append, h.works]; rfl
  part := by
    have part := h.part
    rw [queue] at part
    simpa using part
  own pair member := by
    rcases List.mem_append.mp member with old | new
    · exact h.own pair old
    · rw [List.mem_singleton.mp new]
      exact List.suffix_rfl

/-- A worker has taken some lane. -/
theorem split (h : Crew lanes taken p) {before after : List Work} {w : Work}
    (chosen : p.active = before ++ w :: after) :
    ∃ first lane last, taken = first ++ (lane, w) :: last ∧ first.map (·.2) = before ∧
      last.map (·.2) = after := by
  have works := h.works
  rw [chosen, List.map_eq_append_iff] at works
  obtain ⟨first, others, rfl, rfl, tail⟩ := works
  obtain ⟨⟨lane, _⟩, last, rfl, rfl, rfl⟩ := List.map_eq_cons_iff.mp tail
  exact ⟨first, lane, last, rfl, rfl, rfl⟩

theorem work {first last : List (Lane × Work)} {lane : Lane} {w w' : Work} {site : Site}
    {board : Board} (h : Crew lanes (first ++ (lane, w) :: last) p)
    (less : w'.pending <:+ w.pending) :
    Crew lanes (first ++ (lane, w') :: last)
      { p with site, board, active := first.map (·.2) ++ w' :: last.map (·.2) } where
  works := by rw [List.map_append, List.map_cons]
  part := by simpa using h.part
  own pair member := by
    rcases List.mem_append.mp member with left | right
    · exact h.own pair (List.mem_append_left _ left)
    rcases List.mem_cons.mp right with rfl | right
    · exact less.trans (h.own (lane, w) (List.mem_append_right _ List.mem_cons_self))
    · exact h.own pair (List.mem_append_right _ (List.mem_cons_of_mem _ right))

theorem leave {first last : List (Lane × Work)} {lane : Lane} {w : Work}
    (h : Crew lanes (first ++ (lane, w) :: last) p) :
    Crew lanes (first ++ last) { p with active := first.map (·.2) ++ last.map (·.2) } where
  works := List.map_append
  part := by
    refine List.Sublist.trans (List.Sublist.append_right ?_ p.waiting) h.part
    exact ((List.sublist_cons_self _ last).append_left first).map _
  own pair member := h.own pair <| by
    rcases List.mem_append.mp member with left | right
    · exact List.mem_append_left _ left
    · exact List.mem_append_right _ (List.mem_cons_of_mem _ right)

/-- A lane that is taken is one of the lanes. -/
theorem mem_lanes (h : Crew lanes taken p) {pair : Lane × Work} (member : pair ∈ taken) :
    pair.1 ∈ lanes :=
  h.part.subset (List.mem_append_left _ (List.mem_map_of_mem member))

/-- A lane that is taken has no job in common with another, taken or not. -/
theorem disjoint {first last : List (Lane × Work)} {lane : Lane} {w : Work}
    (h : Crew lanes (first ++ (lane, w) :: last) p) (apart : lanes.Pairwise List.Disjoint) :
    (∀ pair ∈ first ++ last, List.Disjoint lane pair.1) ∧
      ∀ other ∈ p.waiting, List.Disjoint lane other := by
  have apart := apart.sublist h.part
  have order : ((first ++ (lane, w) :: last).map (·.1) ++ p.waiting).Perm
      (lane :: ((first ++ last).map (·.1) ++ p.waiting)) := by
    simp
  obtain ⟨others, _⟩ := List.pairwise_cons.mp (apart.perm order List.Disjoint.symm)
  constructor
  · intro pair member
    exact others _ (List.mem_append_left _ (List.mem_map_of_mem member))
  · exact fun other waits => others other (List.mem_append_right _ waits)

end Crew

end Pool

/-- Lanes have no job in common. -/
theorem Lane.Numbered.disjoint {jobs : List Job} (h : Lane.Numbered jobs) :
    (Lane.ofJobs jobs).Pairwise List.Disjoint := by
  have differ : jobs.Nodup := h.pairwise.imp fun {a b : Job} below same =>
    absurd (congrArg Job.index same) (Nat.ne_of_lt below)
  exact (List.nodup_flatten.mp (h.components.partition.nodup_iff.mpr differ)).2

end Layering
