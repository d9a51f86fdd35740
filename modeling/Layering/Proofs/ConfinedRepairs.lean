import Layering.Proofs.DryRuns
import Layering.Proofs.SharedMemory

/-!
# Confined repairs

A repair that reads and writes only the files that it declares comes to the same wherever these are the
same, and so does all the work on a job: its snapshots, its repairs, and the ends of its transactions.
None of it changes a file of another job, or what is remembered of one.
-/

namespace Layering

open Site

namespace Site

variable {due own mine : Location → Prop} {before s s' t t' : Site}

/-- The locations of some files. -/
def LiesAmong (s : Site) (files : List Path) (l : Location) : Prop := ∃ file ∈ files, s.location file = l

theorem Fares.start (sound : s.tree.Sound) (empty : s.held = []) : Fares due s s :=
  { Within.refl sound due with marks := by simp [empty, Entries.get?] }

/-- Messages are nothing that a site is judged by. -/
theorem Fares.untouched (fares : Fares due before s) (untouched : s.Untouched t) :
    Fares due before t := by
  obtain ⟨said, rfl⟩ := untouched
  exact fares.onward (fares.toWithin.of_tree rfl rfl) rfl

theorem SameBeside.of_untouched (untouched : s.Untouched t) : SameBeside own s t := by
  obtain ⟨said, rfl⟩ := untouched
  exact ⟨fun _ _ _ _ => Iff.rfl, fun _ _ => rfl⟩

theorem Twins.refl (fares : Fares due before s) (own : Location → Prop) : Twins due own before s s :=
  ⟨fares, fares, .refl own s⟩

theorem Twins.untouched (twins : Twins due own before s s') (said : s.Untouched t)
    (said' : s'.Untouched t') : Twins due own before t t' := by
  refine ⟨twins.first.untouched said, twins.second.untouched said', ?_⟩
  obtain ⟨_, rfl⟩ := said
  obtain ⟨_, rfl⟩ := said'
  exact ⟨twins.same.entries, twins.same.held⟩

/-- What is done beside the files of some work leaves it a twin. -/
theorem Twins.beside (twins : Twins due own before s s') (level : Level due before)
    (owned : ∀ l, own l → due l ∧ ¬mine l) (fares' : Fares due before t')
    (beside : SameBeside mine s' t') : Twins due own before s t' :=
  ⟨twins.first, fares', twins.same.trans
    (beside.sameAt level twins.second.toWithin fares'.toWithin owned)⟩

end Site

/-! ### Repairs -/

/-- What is done reads and writes its own files and no others, wherever nothing but files that are due
differs from before. -/
structure Action.Confined {α : Type} (due own : Location → Prop) (before : Site) (action : Action α) :
    Prop where
  within : ∀ s, Within due before s → Within own s (action s).2
  held : ∀ s, Within due before s → (action s).2.held = s.held
  alike : ∀ s s', Within due before s → Within due before s' →
    (∀ l, own l → s'.tree.at? l = s.tree.at? l) → (action s').1 = (action s).1 ∧
      ∀ l, own l → (action s').2.tree.at? l = (action s).2.tree.at? l

section

variable {due own mine : Location → Prop} {before s s' : Site} {r : Remediation} {c : RepairContext}

theorem Action.Confined.fares {α : Type} {action : Action α} (confined : action.Confined due mine before)
    (inside : ∀ l, mine l → due l) (fares : Fares due before s) :
    Fares due before (action s).2 ∧ SameBeside mine s (action s).2 := by
  have within := confined.within s fares.toWithin
  have held := confined.held s fares.toWithin
  exact ⟨fares.onward (fares.toWithin.trans (within.mono inside)) held, within.sameBeside held⟩

/-- Confined work comes to the same at sites that show the same of its files. -/
theorem Action.Confined.twins {α : Type} {action : Action α} (confined : action.Confined due mine before)
    (level : Level due before) (owned : ∀ l, own l → due l) (inside : ∀ l, mine l → own l)
    (twins : Twins due own before s s') :
    (action s').1 = (action s).1 ∧ Twins due own before (action s).2 (action s').2 ∧
      SameBeside own s (action s).2 := by
  have due_ := fun l here => owned l (inside l here)
  obtain ⟨fares, beside⟩ := confined.fares due_ twins.first
  obtain ⟨fares', beside'⟩ := confined.fares due_ twins.second
  obtain ⟨result, entries⟩ := confined.alike s s' twins.first.toWithin twins.second.toWithin
    fun l here => twins.same.entries l (inside l here)
  refine ⟨result, twins.onward level owned fares fares' beside beside' ⟨entries, fun l here => ?_⟩,
    beside.mono inside⟩
  rw [confined.held s twins.first.toWithin, confined.held s' twins.second.toWithin]
  exact twins.same.held l (inside l here)

/-! ### Transactions -/

namespace Transaction

variable {t : Transaction} (memory : t.strategy = InMemory.strategy)
include memory

theorem backs_in_memory : t.strategy.backup t.files t.project = InMemory.backup t.files t.project := by
  rw [memory]
  rfl

theorem restores_from_memory :
    t.strategy.rollback t.files t.project = t.files.mapM InMemory.restore := by
  rw [memory]
  rfl

theorem forgets_in_memory : t.strategy.cleanup t.files t.project = t.files.forM InMemory.forget := by
  rw [memory]
  rfl

end Transaction

section

variable (memory : r.strategy = InMemory.strategy) (straight : upName ∉ before.workingDirectory)
variable {files : List Path} (direct : ∀ file ∈ files, before.Direct file)
variable (owned : ∀ file ∈ files, own (before.location file))
include memory straight direct owned

/-- A transaction begins alike at sites that show the same of its files. -/
theorem Remediation.twins_begin (twins : Twins due own before s s') :
    ((r.guard c files).begin s').1 = ((r.guard c files).begin s).1 ∧
      Twins due own before ((r.guard c files).begin s).2 ((r.guard c files).begin s').2 ∧
      SameBeside own s ((r.guard c files).begin s).2 := by
  unfold Transaction.begin
  split
  next on =>
    obtain ⟨answer, after, beside⟩ := InMemory.twins_backup straight direct owned twins c.projectRoot
    have taken : (r.guard c files).strategy.backup (r.guard c files).files (r.guard c files).project =
        InMemory.backup files c.projectRoot := Transaction.backs_in_memory (t := r.guard c files) memory
    rw [taken, Action.bind_apply, Action.bind_apply]
    generalize InMemory.backup files c.projectRoot s = taken at answer after beside ⊢
    generalize InMemory.backup files c.projectRoot s' = taken' at answer after ⊢
    obtain ⟨e | handle, t⟩ := taken
    all_goals
      obtain ⟨_, t'⟩ := taken'
      obtain rfl := answer
      exact ⟨rfl, after, beside⟩
  next off => exact ⟨rfl, twins, .refl own s⟩

end

namespace Transaction

variable {t : Transaction} (memory : t.strategy = InMemory.strategy)
variable (straight : upName ∉ before.workingDirectory)
variable (owned : ∀ file ∈ t.files, own (before.location file))
include memory straight owned

/-- The snapshot of a transaction is discarded alike at sites that show the same of its files. -/
theorem twins_commit (twins : Twins due own before s s') :
    (t.commit s').1 = (t.commit s).1 ∧ Twins due own before (t.commit s).2 (t.commit s').2 ∧
      SameBeside own s (t.commit s).2 := by
  unfold commit
  split
  next =>
    obtain ⟨s₁, s₁', run, run', twins₁, beside⟩ := InMemory.twins_forget straight owned twins
    rw [forgets_in_memory memory, run, run']
    exact ⟨rfl, twins₁, beside⟩
  next => exact ⟨rfl, twins, .refl own s⟩

variable (level : Level due before) (inside : ∀ l, own l → due l)
variable (direct : ∀ file ∈ t.files, before.Direct file)
include level inside direct

/-- The files of a transaction are brought back alike at sites that show the same of them. -/
theorem twins_rollback (twins : Twins due own before s s') :
    (∃ restored, (t.rollback s).1.result = .ok restored) ∧
      (∃ restored, (t.rollback s').1.result = .ok restored) ∧
      Twins due own before (t.rollback s).2 (t.rollback s').2 ∧
      SameBeside own s (t.rollback s).2 := by
  unfold rollback
  split
  next =>
    obtain ⟨restored, restored', s₁, s₁', run, run', success, twins₁, beside₁⟩ :=
      InMemory.twins_restoreAll straight level inside direct owned twins
    obtain ⟨s₂, s₂', clean, clean', twins₂, beside₂⟩ := InMemory.twins_forget straight owned twins₁
    -- Only whether every file came back is asked, and that is told alike by both.
    have whole : restored'.all (·.success) = restored.all (·.success) := by
      have all (list : List Restoration) : list.all (·.success) = (list.map (·.success)).all id := by
        rw [List.all_map]
        rfl
      rw [all, success, ← all]
    simp only [StateM.bind_apply, ExceptT.run, restores_from_memory memory, run, run', whole]
    split
    next =>
      simp only [StateM.bind_apply, forgets_in_memory memory, clean, clean']
      exact ⟨⟨restored, rfl⟩, ⟨restored', rfl⟩, twins₂, beside₁.trans beside₂⟩
    next => exact ⟨⟨restored, rfl⟩, ⟨restored', rfl⟩, twins₁, beside₁⟩
  next => exact ⟨⟨[], rfl⟩, ⟨[], rfl⟩, twins, .refl own s⟩

/-- A transaction ends alike at sites that show the same of its files. -/
theorem twins_finish {α : Type} (accepts : α → Bool) (result : Except Failure α)
    (twins : Twins due own before s s') :
    (t.finish accepts result s').1.result = (t.finish accepts result s).1.result ∧
      Twins due own before (t.finish accepts result s).2 (t.finish accepts result s').2 ∧
      SameBeside own s (t.finish accepts result s).2 := by
  unfold finish
  split
  next =>
    obtain ⟨answer, twins₁, beside⟩ := twins_commit memory straight owned twins
    simp only [StateM.bind_apply, ExceptT.run]
    -- Both commits end in one answer, so the two results are compared by that answer alone.
    generalize t.commit s = ended at answer twins₁ beside ⊢
    generalize t.commit s' = ended' at answer twins₁ ⊢
    obtain ⟨e | ⟨⟩, s₁⟩ := ended
    all_goals
      obtain ⟨_, s₁'⟩ := ended'
      obtain rfl := answer
      exact ⟨rfl, twins₁, beside⟩
  next =>
    obtain ⟨⟨restored, fine⟩, ⟨restored', fine'⟩, twins₁, beside⟩ :=
      twins_rollback memory straight owned level inside direct twins
    simp only [StateM.bind_apply, fine, fine']
    exact ⟨rfl, twins₁, beside⟩

end Transaction

end

/-! ### Jobs -/

namespace Job

/-- A job may change a file at a location. -/
def Owns (job : Job) (l : Location) : Prop := (⟨.root, l⟩ : Path) ∈ job.targets

/-- What a fixer of a job declared when the job was planned. -/
structure Declares (c : RepairContext) (before : Site) (job : Job) (f : Fixer) (files : List Path) :
    Prop where
  planned : job.planningError = none
  candidate : f ∈ job.fixers
  declared : f.targets c job.violation before = .ok files

/-- The fixers of a job read and write only the files that they declared, which they go on to declare. -/
structure Confined (c : RepairContext) (due : Location → Prop) (before : Site) (job : Job) : Prop where
  lasting : ∀ f files, job.Declares c before f files → ∀ s, Within due before s →
    f.targets c job.violation s = .ok files
  direct : ∀ f files, job.Declares c before f files → ∀ file ∈ files, before.Direct file
  confined : ∀ f files, job.Declares c before f files →
    (f.repair c job.violation).Confined due (before.LiesAmong files) before

/-- The files that a fixer of a job declared are known, and they are files of some work. -/
def KnownTo (c : RepairContext) (before : Site) (own : Location → Prop) (job : Job) : Prop :=
  job.planningError = none → ∀ f ∈ job.fixers, ∃ files, job.Declares c before f files ∧
    ∀ file ∈ files, own (before.location file)

end Job

section

variable {r : Remediation} {c : RepairContext} {due own : Location → Prop} {before s s' : Site}
variable {job : Job} {stage : Stage} {sites : List Site}

theorem Remediation.conclude_eq (r : Remediation) (v : Violation) (f : Fixer)
    (result : Except Failure Outcome) (s s' : Site) :
    (r.conclude v f result s').1 = (r.conclude v f result s).1 := by
  cases result <;> rfl

theorem Remediation.AtTurn.candidate {v : Violation} {fixers rest : List Fixer} {f : Fixer}
    (turn : AtTurn r c sites v fixers f rest) : f ∈ fixers := by
  obtain ⟨earlier, rfl, _⟩ := turn
  exact List.mem_append_right _ List.mem_cons_self

/-- The fixer at hand, with the files that it declared. -/
theorem Job.KnownTo.declares (known : job.KnownTo c before own) (confined : job.Confined c due before)
    (planned : job.planningError = none) {f : Fixer} (candidate : f ∈ job.fixers)
    (within : Within due before s) : ∃ files, job.Declares c before f files ∧
      f.targets c job.violation s = .ok files ∧ ∀ file ∈ files, own (before.location file) := by
  obtain ⟨files, declares, owned⟩ := known planned f candidate
  exact ⟨files, declares, confined.lasting f files declares s within, owned⟩

theorem Job.KnownTo.mono {mine : Location → Prop} (known : job.KnownTo c before mine)
    (inside : ∀ l, mine l → own l) : job.KnownTo c before own := by
  intro planned f candidate
  obtain ⟨files, declares, owned⟩ := known planned f candidate
  exact ⟨files, declares, fun file listed => inside _ (owned file listed)⟩

variable (memory : r.strategy = InMemory.strategy) (straight : upName ∉ before.workingDirectory)
variable (level : Level due before) (inside : ∀ l, own l → due l)
variable (confined : job.Confined c due before) (known : job.KnownTo c before own)
variable (visited : ∀ s ∈ sites, Within due before s) (sound : stage.Sound r c sites job)
include memory straight level inside confined known visited sound

/-- A stage of the work on a job comes to the same at sites that show the same of its files, and
concerns no others. -/
theorem Stage.twins_advance (twins : Twins due own before s s') :
    (stage.advance r c job.violation s').1 = (stage.advance r c job.violation s).1 ∧
      Twins due own before (stage.advance r c job.violation s).2
        (stage.advance r c job.violation s').2 ∧
      SameBeside own s (stage.advance r c job.violation s).2 := by
  have concluded (f : Fixer) (result : Except Failure Outcome) {t t' : Site}
      (twins : Twins due own before t t') :
      Twins due own before (r.conclude job.violation f result t).2
          (r.conclude job.violation f result t').2 ∧
        SameBeside own t (r.conclude job.violation f result t).2 :=
    ⟨twins.untouched (r.untouched_conclude ..) (r.untouched_conclude ..),
      .of_untouched (r.untouched_conclude ..)⟩
  cases stage with
  | trying f rest =>
    obtain ⟨planned, turn⟩ := sound
    obtain ⟨files, declares, answer, owned⟩ :=
      known.declares confined planned turn.candidate twins.first.toWithin
    have answer' := confined.lasting f files declares s' twins.second.toWithin
    obtain ⟨same, twins₁, beside⟩ := Remediation.twins_begin (c := c) memory straight
      (confined.direct f files declares) owned twins
    simp only [advance, StateM.bind_apply, StateM.get_apply, answer, answer', ExceptT.run]
    generalize (r.guard c files).begin s = begun at same twins₁ beside ⊢
    generalize (r.guard c files).begin s' = begun' at same twins₁ ⊢
    obtain ⟨e | t, s₁⟩ := begun
    · obtain ⟨_, s₁'⟩ := begun'
      obtain rfl := same
      obtain ⟨twins₂, beside'⟩ := concluded f (.error e) twins₁
      exact ⟨rfl, twins₂, beside.trans beside'⟩
    · obtain ⟨_, s₁'⟩ := begun'
      obtain rfl := same
      exact ⟨rfl, twins₁, beside⟩
  | guarded f rest t =>
    obtain ⟨planned, turn, _⟩ := sound
    obtain ⟨files, declares, _, owned⟩ :=
      known.declares confined planned turn.candidate twins.first.toWithin
    have mine : ∀ l, before.LiesAmong files l → own l := by
      rintro l ⟨file, listed, rfl⟩
      exact owned file listed
    obtain ⟨same, after⟩ := (confined.confined f files declares).twins level inside mine twins
    simp only [advance, StateM.bind_apply, ExceptT.run, StateM.pure_apply]
    exact ⟨congrArg (Stage.repaired f rest t) same, after⟩
  | repaired f rest t result =>
    -- The transaction guards what the fixer declared when it was tried, which it still declares.
    obtain ⟨planned, turn, s₀, _, files', handle, way, told, rfl, _⟩ := sound
    have visited₀ : Within due before s₀ := visited s₀ (way.subset List.mem_cons_self)
    obtain ⟨files, declares, answer, owned⟩ :=
      known.declares confined planned turn.candidate visited₀
    obtain rfl : files = files' := Except.ok.inj (answer.symm.trans told)
    obtain ⟨same, twins₁, beside⟩ := Transaction.twins_finish
      (t := { r.guard c files with handle, isActive := true }) memory straight owned level inside
      (confined.direct f files declares) Remediation.accepts result twins
    obtain ⟨twins₂, beside'⟩ := concluded f _ twins₁
    simp only [advance, StateM.bind_apply, StateM.pure_apply, same]
    refine ⟨congrArg (after r · rest) (r.conclude_eq ..), ?_, beside.trans beside'⟩
    exact twins₁.untouched (r.untouched_conclude ..) (r.untouched_conclude ..)
  | done o => exact ⟨rfl, twins, .refl own s⟩

end

end Layering
