import Layering.Proofs.Keeping
import Layering.Proofs.KeptSnapshots
import Layering.Proofs.LoneLanes

/-!
# What snapshots are left

A snapshot in memory is there while its transaction goes on. What is left of it at the end of a run is
left by a transaction that could not restore one of its files, and kept what it remembered of all.
-/

namespace Layering

open Site

theorem Entries.get?_ne_none {κ α : Type} [BEq κ] [LawfulBEq κ] {key : κ} {entries : List (κ × α)}
    (member : key ∈ entries.map (·.1)) : get? key entries ≠ none := by
  -- Along the entries: the first of the key answers.
  induction entries with
  | nil => cases member
  | cons entry rest ih =>
    obtain ⟨first, value⟩ := entry
    rw [get?]
    split
    next => simp
    next other =>
      rw [List.map_cons, List.mem_cons] at member
      exact ih (member.resolve_left fun same => other (by simp [same]))

namespace Transaction

/-- The files that a transaction guards, by their resolved paths. -/
def Guards (t : Transaction) (s : Site) (key : Path) : Prop :=
  t.enabled = true ∧ ∃ file ∈ t.files, s.resolve file = key

variable {t : Transaction} {s : Site} {key : Path} {due own : Location → Prop} {before : Site}

/-- A transaction that does not begin remembers nothing, and one that does remembers its files. -/
theorem remembered_of_begin (memory : t.strategy = InMemory.strategy)
    (remembered : Entries.get? key (t.begin s).2.held ≠ none) :
    (∃ handle, (t.begin s).1 = .ok { t with handle, isActive := true } ∧ t.Guards s key) ∨
      Entries.get? key s.held ≠ none := by
  have backs := backs_in_memory memory
  -- Only of the files that it guards does a transaction begin to remember something.
  by_cases guards : t.Guards s key
  · rcases t.begin_cases s with ⟨e, fails, enabled, _⟩ | ⟨handle, starts⟩
    · refine .inr ?_
      rw [begin, if_pos enabled, backs, Action.bind_apply] at remembered fails
      rcases run : InMemory.backup t.files t.project s with ⟨e' | handle, s₁⟩
      · obtain rfl := InMemory.site_of_failed_backup run
        rw [run] at remembered
        exact remembered
      · rw [run] at fails
        cases fails
    · exact .inl ⟨handle, starts, guards⟩
  · refine .inr ?_
    unfold begin at remembered
    split at remembered
    next enabled =>
      have others : ∀ file ∈ t.files, s.resolve file ≠ key :=
        fun file listed same => guards ⟨enabled, file, listed, same⟩
      have kept := (InMemory.get?_backup t.project others).2
      rw [backs, Action.bind_apply] at remembered
      rcases run : InMemory.backup t.files t.project s with ⟨e | handle, s₁⟩
      · rw [run] at remembered kept
        exact kept ▸ remembered
      · rw [run] at remembered kept
        exact kept ▸ remembered
    next => exact remembered

/-- Of files that are forgotten nothing is remembered. -/
theorem remembered_of_forget {s₁ : Site}
    (place : s₁.workingDirectory = s.workingDirectory) (held : s₁.held = s.held)
    (remembered : Entries.get? key (t.files.forM InMemory.forget s₁).2.held ≠ none) :
    ¬t.Guards s key ∧ Entries.get? key s.held ≠ none := by
  obtain ⟨s₂, run, _, each⟩ := InMemory.forM_forget_get? t.files s₁
  rw [run] at remembered
  rcases each key with ⟨_, gone⟩ | ⟨other, same⟩
  · exact absurd gone remembered
  · refine ⟨?_, by rwa [same, held] at remembered⟩
    rintro ⟨_, file, listed, here⟩
    refine other (List.mem_map.mpr ⟨file, listed, ?_⟩)
    rw [resolve_of_workingDirectory place, here]

variable (memory : t.strategy = InMemory.strategy) (active : t.isActive = true)
variable (straight : upName ∉ before.workingDirectory) (level : Level due before)
variable (direct : ∀ file ∈ t.files, before.Direct file)
variable (here : ∀ file ∈ t.files, due (before.location file))
include memory active straight level direct here

/-- What a rollback leaves behind of its files it leaves because one of them was not restored. -/
theorem remembered_of_rollback (enabled : t.enabled = true) (fares : Fares due before s)
    (remembered : Entries.get? key (t.rollback s).2.held ≠ none) :
    (t.Guards s key ∧ ∃ x ∈ (t.rollback s).1.restored, x.success = false) ∨
      (¬t.Guards s key ∧ Entries.get? key s.held ≠ none) := by
  have straight₁ : upName ∉ s.workingDirectory := fares.place ▸ straight
  have keeps : Action.Keeps s (fun _ => False) (t.files.mapM InMemory.restore) :=
    .mapM fun file _ => InMemory.keeps_restore straight₁ file
  obtain ⟨restored, _, s₁, _, run, _, _, _, _⟩ :=
    InMemory.twins_restoreAll straight level (fun _ => id) direct here (Twins.refl fares due)
  -- Restoring changes the tree only, so what is left is left by what comes after it.
  have beside : s₁ = { s with tree := s₁.tree } := by
    have beside := (keeps s rfl).beside
    rwa [run] at beside
  have held : s₁.held = s.held := by rw [beside]
  have place : s₁.workingDirectory = s.workingDirectory := by rw [beside]
  unfold rollback at remembered ⊢
  simp only [active, enabled, Bool.and_self, if_true, StateM.bind_apply, ExceptT.run,
    restores_from_memory memory, run, forgets_in_memory memory] at remembered ⊢
  split at remembered
  next whole =>
    have left : Entries.get? key (t.files.forM InMemory.forget s₁).2.held ≠ none := by
      obtain ⟨s₂, clean, _⟩ := InMemory.forM_forget_get? t.files s₁
      simp only [StateM.bind_apply, clean] at remembered
      rw [clean]
      exact remembered
    exact .inr (remembered_of_forget place held left)
  next partly =>
    rw [if_neg partly]
    by_cases guards : t.Guards s key
    · obtain ⟨x, listed, failed⟩ : ∃ x ∈ restored, x.success = false := by simpa using partly
      exact .inl ⟨guards, x, listed, failed⟩
    · exact .inr ⟨guards, held ▸ remembered⟩

/-- What a transaction leaves behind of its files it leaves because one of them was not restored. -/
theorem remembered_of_finish (fares : Fares due before s) {α : Type} (accepts : α → Bool)
    (result : Except Failure α)
    (remembered : Entries.get? key (t.finish accepts result s).2.held ≠ none) :
    (t.Guards s key ∧ ∃ x ∈ (t.finish accepts result s).1.restored, x.success = false) ∨
      (¬t.Guards s key ∧ Entries.get? key s.held ≠ none) := by
  by_cases enabled : t.enabled = true
  · obtain ⟨state, told⟩ := t.finish_apply accepts result s
    rw [state] at remembered
    rw [told]
    split at remembered
    next good =>
      rw [commit, active, enabled, Bool.and_self, if_pos rfl, forgets_in_memory memory] at remembered
      exact .inr (remembered_of_forget rfl rfl remembered)
    next bad =>
      rw [if_neg bad]
      exact remembered_of_rollback memory active straight level direct here enabled fares remembered
  · rw [finish_disabled (eq_false_of_ne_true enabled)] at remembered
    exact .inr ⟨fun guards => enabled guards.1, remembered⟩

end Transaction

/-! ### Stages -/

namespace Stage

/-- The files that are guarded at a stage. -/
def Guards (s : Site) (key : Path) : Stage → Prop
  | .guarded _ _ t | .repaired _ _ t _ => t.Guards s key
  | _ => False

/-- The transaction that ends here fails to restore one of its files. -/
def LeavesUnrestored (s : Site) : Stage → Prop
  | .repaired _ _ t result =>
    ∃ x ∈ (t.finish Remediation.accepts result s).1.restored, x.success = false
  | _ => False

variable {r : Remediation} {c : RepairContext} {due : Location → Prop} {before s : Site}
variable {job : Job} {stage : Stage} {sites : List Site} {key : Path}

variable (memory : r.strategy = InMemory.strategy) (straight : upName ∉ before.workingDirectory)
variable (level : Level due before)
variable (confined : job.Confined c due before) (known : job.KnownTo c before due)
variable (visited : ∀ s ∈ sites, Within due before s) (sound : stage.Sound r c sites job)
include memory straight level confined known visited sound

/-- What is remembered after a stage is guarded from then on, or is left by it, or was remembered
before and is nothing that it guards. -/
theorem remembered_of_advance (fares : Fares due before s)
    (remembered : Entries.get? key (stage.advance r c job.violation s).2.held ≠ none) :
    (stage.advance r c job.violation s).1.Guards before key ∨
      (stage.Guards before key ∧ stage.LeavesUnrestored s) ∨
      (¬stage.Guards before key ∧ Entries.get? key s.held ≠ none) := by
  have guards_iff (t : Transaction) : t.Guards s key ↔ t.Guards before key := by
    rw [Transaction.Guards, Transaction.Guards]
    simp only [resolve_of_workingDirectory fares.place]
  have concluded (f : Fixer) (result : Except Failure Outcome) (t : Site) :
      (r.conclude job.violation f result t).2.held = t.held := by
    obtain ⟨said, same⟩ := r.untouched_conclude job.violation f result t
    rw [same]
  -- By the stage. Beginning remembers files and guards them, and ending forgets what it
  -- restores; nothing else touches what is held.
  cases stage with
  | trying f rest =>
    obtain ⟨planned, turn⟩ := sound
    obtain ⟨files, _, answer, _⟩ :=
      known.declares confined planned turn.candidate fares.toWithin
    simp only [advance, StateM.bind_apply, StateM.get_apply, answer, ExceptT.run] at remembered ⊢
    have begins (left : Entries.get? key ((r.guard c files).begin s).2.held ≠ none) :=
      Transaction.remembered_of_begin memory left
    rcases begun : (r.guard c files).begin s with ⟨e | t, s₁⟩
    · simp only [begun, StateM.bind_apply, StateM.pure_apply, concluded] at remembered begins ⊢
      rcases begins remembered with ⟨_, starts, _⟩ | before_
      · cases starts
      · exact .inr (.inr ⟨id, before_⟩)
    · simp only [begun, StateM.pure_apply] at remembered begins ⊢
      rcases begins remembered with ⟨handle, starts, guards⟩ | before_
      · obtain rfl := Except.ok.inj starts
        exact .inl ((guards_iff _).mp guards)
      · exact .inr (.inr ⟨id, before_⟩)
  | guarded f rest t =>
    obtain ⟨planned, turn, _⟩ := sound
    obtain ⟨files, declares, _, _⟩ :=
      known.declares confined planned turn.candidate fares.toWithin
    have held := (confined.confined f files declares).held s fares.toWithin
    simp only [advance, StateM.bind_apply, ExceptT.run, StateM.pure_apply, held] at remembered ⊢
    by_cases guards : t.Guards before key
    · exact .inl guards
    · exact .inr (.inr ⟨guards, remembered⟩)
  | repaired f rest t result =>
    obtain ⟨planned, turn, s₀, _, files', handle, way, told, rfl, _⟩ := sound
    have visited₀ : Within due before s₀ := visited s₀ (way.subset List.mem_cons_self)
    obtain ⟨files, declares, answer, owned⟩ :=
      known.declares confined planned turn.candidate visited₀
    obtain rfl : files = files' := Except.ok.inj (answer.symm.trans told)
    simp only [advance, StateM.bind_apply, StateM.pure_apply, concluded] at remembered
    rcases Transaction.remembered_of_finish (t := { r.guard c files with handle, isActive := true })
      memory rfl straight level (confined.direct f files declares) owned fares Remediation.accepts
      result remembered with ⟨guards, unrestored⟩ | ⟨unguarded, before_⟩
    · exact .inr (.inl ⟨(guards_iff _).mp guards, unrestored⟩)
    · exact .inr (.inr ⟨mt (guards_iff _).mpr unguarded, before_⟩)
  | done o => exact .inr (.inr ⟨id, remembered⟩)

end Stage

/-! ### Runs -/

/-- The files that a worker has guarded. -/
def Work.Guards (s : Site) (key : Path) (w : Work) : Prop :=
  ∃ job stage, w.current = some (job, stage) ∧ stage.Guards s key

namespace Pool

/-- On the way from one point of a run to another a transaction that guards a file ends without
restoring every one of its files. -/
def Unrestored (r : Remediation) (c : RepairContext) (first p : Pool) (key : Path) : Prop :=
  ∃ (q : Pool) (before after : List Work) (w : Work) (job : Job) (stage : Stage), Steps r c first q ∧
    q.active = before ++ w :: after ∧ w.current = some (job, stage) ∧
    stage.Guards first.site key ∧ stage.LeavesUnrestored q.site ∧
    Steps r c (q.turn r c before w after) p

variable {r : Remediation} {c : RepairContext} {s : Site} {jobs : List Job} {key : Path}
variable {w : Work} {first p q : Pool} {taken : List (Lane × Work)}

theorem Unrestored.step (unrestored : Unrestored r c first p key) (step : Step r c p q) :
    Unrestored r c first q key := by
  obtain ⟨p', before, after, w, job, stage, reached, chosen, turn, guards, left, later⟩ := unrestored
  exact ⟨p', before, after, w, job, stage, reached, chosen, turn, guards, left, later.tail step⟩

variable (memory : r.strategy = InMemory.strategy) (numbered : Lane.Numbered jobs)
variable (separate : Job.Separate c s jobs) (known : ∀ job ∈ jobs, job.KnownTo c s job.Owns)
include memory numbered separate known

/-- What is remembered after a step of a worker is guarded by it from then on, or is left by it, or was
remembered before and is nothing that it guards. -/
theorem Parallel.remembered_of_next (parallel : Parallel r c s jobs taken p) (member : w ∈ p.active)
    (remembered : Entries.get? key (w.next r c p.board p.site).2.held ≠ none) :
    (w.next r c p.board p.site).1.1.Guards s key ∨
      (∃ job stage, w.current = some (job, stage) ∧ stage.Guards s key ∧
        stage.LeavesUnrestored p.site) ∨
      (¬w.Guards s key ∧ Entries.get? key p.site.held ≠ none) := by
  obtain ⟨inJobs, sites, visited, sound⟩ := parallel.known numbered member
  have idle {rest : Lane} : ¬Work.Guards s key ⟨none, rest⟩ := by
    rintro ⟨_, _, current, _⟩
    cases current
  obtain ⟨current, rest⟩ := w
  match current, rest with
  | none, [] => exact .inr (.inr ⟨idle, remembered⟩)
  | none, job :: rest =>
    refine .inr (.inr ⟨idle, ?_⟩)
    rw [Work.next] at remembered
    split at remembered
    next => exact remembered
    next => exact remembered
  | some (job, stage), rest =>
    -- A stage that is done only ends the job; any other is advanced by one step.
    by_cases done : ∃ o, stage = .done o
    · obtain ⟨o, rfl⟩ := done
      refine .inr (.inr ⟨?_, remembered⟩)
      rintro ⟨_, _, ⟨⟩, guards⟩
      exact guards
    · have inJobs := inJobs job List.mem_cons_self
      have apt : job.KnownTo c s (Job.Due jobs) :=
        (known job inJobs).mono fun _ owned => ⟨job, inJobs, owned⟩
      rw [Work.next_stage (not_exists.mp done)] at remembered ⊢
      rcases Stage.remembered_of_advance memory separate.straight separate.level
        (separate.confined job inJobs) apt visited (sound job stage rfl) parallel.fares remembered with
        guards | ⟨guards, unrestored⟩ | ⟨unguarded, before⟩
      · exact .inl ⟨job, _, rfl, guards⟩
      · exact .inr (.inl ⟨job, stage, rfl, guards, unrestored⟩)
      · refine .inr (.inr ⟨?_, before⟩)
        rintro ⟨_, _, ⟨⟩, guards⟩
        exact unguarded guards

variable (unlimited : r.maxFailures = none) (empty : s.held = [])
include unlimited empty

/-- What is remembered in a run is guarded by some worker, or left by a transaction that could not
restore one of its files. -/
theorem remembered_of_steps (way : Steps r c (start s jobs) p)
    (remembered : Entries.get? key p.site.held ≠ none) :
    (∃ w ∈ p.active, w.Guards s key) ∨ Unrestored r c (start s jobs) p key := by
  -- By induction on the steps: what is remembered after a step was so before, or is guarded by it, or
  -- was left by it. A worker that takes or leaves a lane guards nothing.
  induction way with
  | refl =>
    have held : (start s jobs).site.held = [] := empty
    rw [held] at remembered
    exact absurd rfl remembered
  | @tail p q way step ih =>
    obtain ⟨taken, parallel⟩ :=
      parallel_of_steps memory unlimited numbered separate known empty way
    cases step with
    | take free queue =>
      rcases ih remembered with ⟨w, member, guards⟩ | unrestored
      · exact .inl ⟨w, List.mem_append_left _ member, guards⟩
      · exact .inr (unrestored.step (.take free queue))
    | @leave before after w chosen finished =>
      rcases ih remembered with ⟨w', member, guards⟩ | unrestored
      · refine .inl ⟨w', ?_, guards⟩
        rw [chosen, List.perm_middle.mem_iff, List.mem_cons] at member
        refine member.resolve_left ?_
        -- The worker that leaves has nothing at hand.
        rintro rfl
        obtain ⟨job, stage, current, _⟩ := guards
        simp [Work.isOver, current] at finished
      · exact .inr (unrestored.step (.leave chosen finished))
    | @work before after w chosen unfinished =>
      have member : w ∈ p.active := chosen ▸ List.mem_append_right _ List.mem_cons_self
      have active : (p.turn r c before w after).active =
          before ++ (w.next r c p.board p.site).1.1 :: after := rfl
      rw [active]
      rcases parallel.remembered_of_next memory numbered separate known member remembered with
        guards | ⟨job, stage, turn, guards, left⟩ | ⟨unguarded, earlier⟩
      · exact .inl ⟨_, List.mem_append_right _ List.mem_cons_self, guards⟩
      · exact .inr ⟨p, before, after, w, job, stage, way, chosen, turn, guards, left, .refl⟩
      · rcases ih earlier with ⟨w', member', guards⟩ | unrestored
        · refine .inl ⟨w', ?_, guards⟩
          rw [chosen, List.perm_middle.mem_iff, List.mem_cons] at member'
          refine List.perm_middle.mem_iff.mpr (List.mem_cons_of_mem _ (member'.resolve_left ?_))
          rintro rfl
          exact unguarded guards
        · exact .inr (unrestored.step (.work chosen unfinished))

end Pool

end Layering
