import Layering.Proofs.DryRuns
import Layering.Proofs.Keeping

/-!
# Snapshots that are kept

What a strategy holds of a file stays as long as no other transaction is about that file, whatever
transactions are about others. A snapshot that is kept because its file could not be restored is
therefore there until the end of the run, or until the next transaction about the file: that one puts
its own snapshot in its place.
-/

namespace Layering

open Site

/-- These bytes are what a strategy holds of a file. -/
inductive SnapshotStrategy.Holds (project file : Path) (bytes : Bytes) :
    SnapshotStrategy → Site → Prop
  | staged {s : Site} {copy : Path} {mode : Nat} (plain : file.Plain)
    (outside : s.location file ≠ s.location project)
    (asked : Staged.copyPath Staged.standardDirectory s file project = .ok copy)
    (held : s.tree.at? (s.location copy) = some (.file bytes mode)) :
    Holds project file bytes (Staged.strategy Staged.standardDirectory) s
  | inMemory {s : Site} (held : Entries.get? (s.resolve file) s.held = some (.contents bytes)) :
    Holds project file bytes InMemory.strategy s

/-- A file of the project that is not another one, nor anything that is staged. -/
structure Unrelated (s : Site) (project file target : Path) : Prop where
  plain : target.Plain
  other : s.location target ≠ s.location file
  outside : s.location target ≠ s.location project
  beside : ¬Staged.area s project <+: s.location target

section

variable {strategy : SnapshotStrategy} {project file target copy : Path} {bytes : Bytes}
variable {s s' : Site} {files : List Path}

theorem Unrelated.of_place (place : s'.workingDirectory = s.workingDirectory)
    (unrelated : Unrelated s project file target) : Unrelated s' project file target := by
  have at_ := location_of_workingDirectory place
  refine ⟨unrelated.plain, ?_, ?_, ?_⟩
  · simpa only [at_] using unrelated.other
  · simpa only [at_] using unrelated.outside
  · simpa only [Staged.area, at_] using unrelated.beside

theorem Unrelated.resolve_ne (forward : upName ∉ s.workingDirectory)
    (unrelated : Unrelated s project file target) : s.resolve target ≠ s.resolve file := by
  intro same
  rw [resolve_eq forward, resolve_eq forward] at same
  exact unrelated.other (Path.mk.inj same).2

namespace Staged

/-- The copy of a file lies in the staging directory. -/
theorem isStaged_of_asked (written : s.Written) (plain : file.Plain)
    (outside : s.location file ≠ s.location project)
    (asked : copyPath standardDirectory s file project = .ok copy) :
    ∃ place ≠ [], s.location file = s.location project ++ place ∧
      IsStaged s project ".bak" place copy := by
  obtain ⟨place, inner, at_⟩ := place_of_stagedPath written outside asked
  obtain ⟨_, asked', staged⟩ := stagedPath_of_location written plain .copy inner at_
  cases asked'.symm.trans asked
  exact ⟨place, inner, at_, staged⟩

/-- The copy of what is at one place is not a file at another one, nor what is staged of that. -/
theorem free_of_place (written : s.Written) {place : List Text} (inner : place ≠ [])
    (plain : target.Plain) (other : s.location target ≠ s.location project ++ place)
    (outside : s.location target ≠ s.location project)
    (beside : ¬area s project <+: s.location target) :
    Free s (· = area s project ++ suffixed ".bak" place) project target := by
  have apart {ending : Text} (ends : Ending ending) (q : Path)
      (asked : stagedPath standardDirectory ending s target project = .ok q) :
      s.location q ≠ area s project ++ suffixed ".bak" place := by
    obtain ⟨place', inner', at'⟩ := place_of_stagedPath written outside asked
    obtain ⟨_, asked', staged'⟩ := stagedPath_of_location written plain ends inner' at'
    cases asked'.symm.trans asked
    rw [staged'.location]
    refine area_append_ne ends .copy inner' inner fun same => other ?_
    rw [at', same.2]
  refine ⟨fun same => beside ?_, apart .copy, apart .marker⟩
  rw [same]
  exact List.prefix_append ..

theorem free_of_unrelated (written : s.Written) (plain : file.Plain)
    (outside : s.location file ≠ s.location project)
    (asked : copyPath standardDirectory s file project = .ok copy)
    (unrelated : Unrelated s project file target) : Free s (· = s.location copy) project target := by
  obtain ⟨place, inner, at_, staged⟩ := isStaged_of_asked written plain outside asked
  rw [staged.location]
  exact free_of_place written inner unrelated.plain (at_ ▸ unrelated.other) unrelated.outside
    unrelated.beside

section

variable {before : Site} {place : List Text} {mode : Nat}
variable (setting : Setting before project) (inner : place ≠ [])
variable (there : before.tree.at? (before.location project ++ place) = some (.file bytes mode))
include setting inner there

/-- Staging a file copies it. -/
theorem copied_of_stage {absent : Bool} (fits : Fits before project target)
    (alters : Alters (area before project) before s)
    (at_ : before.location target = before.location project ++ place)
    (run : stage standardDirectory target project s = (.ok absent, s')) :
    s'.tree.at? (area before project ++ suffixed ".bak" place) = some (.file bytes mode) := by
  obtain ⟨_, _, here, copy, marker, s₁, s₂, copyStaged, markerStaged, deleted, deleted', run⟩ :=
    exists_staged_of_stage setting fits.plain fits.other alters run
  obtain rfl := List.append_cancel_left (here.symm.trans at_)
  obtain ⟨alters₁, _, _⟩ := deleteFile_staged setting alters copyStaged deleted
  obtain ⟨alters₂, _, _⟩ := deleteFile_staged setting (alters.trans alters₁) markerStaged deleted'
  have alters' := (alters.trans alters₁).trans alters₂
  -- The file was there when it was staged, so it was copied and not marked as absent.
  rcases run with ⟨_, run⟩ | ⟨missing, _⟩
  · obtain ⟨⟨⟩, s₃, made, run⟩ := Action.bind_eq_ok run
    obtain ⟨⟨⟩, s₄, copied, run⟩ := Action.bind_eq_ok run
    cases run
    have makes := Action.makes_makeDirectories copy.parent s₂
    rw [made] at makes
    have alters₃ := alters'.trans (.of_grows (copyStaged.inside alters')
      (setting.firm_of_isStaged alters' copyStaged) makes.grows.of_parent)
    rcases Action.copyFile_cases target copy s₃ with ⟨bytes', mode', read, deep, _, _, run⟩ | ⟨f, run⟩
    · cases run.symm.trans copied
      have was := (read_eq_ok.mp (read_of_alters setting fits alters₃ read)).2
      rw [Site.entryAt, at_, there] at was
      cases was
      rw [copyStaged.place_of_alters alters₃] at deep ⊢
      rw [at?_insert deep, if_pos rfl]
    · cases run.symm.trans copied
  · have none := (absent_of_alters setting fits alters' missing).2
    rw [Site.entryAt, at_, there] at none
    cases none

theorem copied_of_stageAll {absent : List Path} (fits : ∀ target ∈ files, Fits before project target)
    (alters : Alters (area before project) before s)
    (run : stageAll standardDirectory project files s = (.ok absent, s'))
    (member : target ∈ files) (at_ : before.location target = before.location project ++ place) :
    s'.tree.at? (area before project ++ suffixed ".bak" place) = some (.file bytes mode) := by
  induction files generalizing s absent target with
  | nil => cases member
  | cons first rest ih =>
    obtain ⟨missing, s₁, more, done, others⟩ := stageAll_cons_eq_ok run
    obtain ⟨fit, fits'⟩ := List.forall_mem_cons.mp fits
    have alters₁ := alters.trans (stages_stage setting fit alters done).alters
    by_cases again : ∃ other ∈ rest, before.location other = before.location project ++ place
    · obtain ⟨other, listed, same⟩ := again
      exact ih fits' alters₁ others listed same
    · -- The copy is made now, and no other file of the snapshot has its place.
      rcases List.mem_cons.mp member with rfl | later
      · have copied := copied_of_stage setting inner there fit alters at_ done
        have free : ∀ other ∈ rest,
            Free before (· = area before project ++ suffixed ".bak" place) project other :=
          fun other listed => free_of_place setting.written inner (fits' other listed).plain
            (fun same => again ⟨other, listed, same⟩) (fits' other listed).other
            (fits' other listed).below
        have keeps := keeps_stageAll free s₁ (by rw [alters₁.beside])
        rw [others] at keeps
        exact keeps.files _ rfl _ _ copied
      · exact absurd ⟨target, later, at_⟩ again

end

end Staged

namespace InMemory

/-- A snapshot leaves alone what is held of other files. -/
theorem get?_backup (project : Path) {key : Path} (others : ∀ target ∈ files, s.resolve target ≠ key) :
    let s' := (backup files project s).2
    s'.workingDirectory = s.workingDirectory ∧ Entries.get? key s'.held = Entries.get? key s.held := by
  unfold backup
  rw [Action.bind_apply, Action.ask_apply]
  cases all : takeAll s files with
  | error e => exact ⟨rfl, rfl⟩
  | ok taken =>
    simp only
    rw [Action.bind_apply, Action.modify_apply]
    refine ⟨rfl, ?_⟩
    rcases get?_foldl_put s key taken s.held with ⟨x, member, same, _⟩ | ⟨_, found⟩
    · obtain ⟨path, listed, done⟩ := (mem_of_mapM all).2 x member
      obtain ⟨rfl, _⟩ := take_of_pair done
      exact absurd same (others _ listed)
    · exact found

theorem get?_filter {key other : Path} (differ : other ≠ key) (entries : List (Path × Held)) :
    Entries.get? key (entries.filter fun (p, _) => p ≠ other) = Entries.get? key entries := by
  induction entries with
  | nil => rfl
  | cons entry rest ih =>
    obtain ⟨first, held⟩ := entry
    by_cases same : first = other
    · subst same
      rw [List.filter_cons_of_neg (by simp), ih, Entries.get?, if_neg (by simpa using differ)]
    · rw [List.filter_cons_of_pos (by simpa using same), Entries.get?, Entries.get?, ih]

/-- Files that are forgotten are not others. -/
theorem get?_forget {key : Path} (others : ∀ target ∈ files, s.resolve target ≠ key) :
    let s' := (files.forM forget s).2
    s'.workingDirectory = s.workingDirectory ∧ Entries.get? key s'.held = Entries.get? key s.held := by
  induction files generalizing s with
  | nil => exact ⟨rfl, rfl⟩
  | cons target rest ih =>
    obtain ⟨first, others⟩ := List.forall_mem_cons.mp others
    obtain ⟨place, same⟩ := ih (s := (forget target s).2) others
    rw [Action.forM_cons_apply]
    exact ⟨place, same.trans (get?_filter first s.held)⟩

end InMemory

namespace SnapshotStrategy

/-- A copy that is kept is still what the strategy holds. -/
theorem holds_of_keeps {mode : Nat} (plain : file.Plain)
    (outside : s.location file ≠ s.location project)
    (asked : Staged.copyPath Staged.standardDirectory s file project = .ok copy)
    (there : s.tree.at? (s.location copy) = some (.file bytes mode))
    (keeps : Keeps (· = s.location copy) s s') : s'.workingDirectory = s.workingDirectory ∧
      (Staged.strategy Staged.standardDirectory).Holds project file bytes s' := by
  have locations := location_of_workingDirectory keeps.place
  have asked' : Staged.copyPath Staged.standardDirectory s' file project = .ok copy :=
    asked ▸ Staged.stagedPath_of_workingDirectory keeps.place
  have there' : s'.tree.at? (s'.location copy) = some (.file bytes mode) := by
    rw [locations]
    exact keeps.files _ rfl _ _ there
  exact ⟨keeps.place, .staged plain (by rwa [locations, locations]) asked' there'⟩

/-- After a snapshot the strategy holds what was read from each of its files. -/
theorem holds_of_backup {modes : Bool} (bundled : Bundled strategy modes) (written : s.Written)
    (sound : s.tree.Sound) (steady : modes = true → s.Steady project)
    (fits : ∀ target ∈ files, Staged.Fits s project target) {handle : SnapshotHandle}
    (taken : strategy.backup files project s = (.ok handle, s')) (member : file ∈ files) {mode : Nat}
    (read : s.read file = .ok (bytes, mode)) :
    s'.workingDirectory = s.workingDirectory ∧ strategy.Holds project file bytes s' := by
  have there := (read_eq_ok.mp read).2
  -- The staged copy is in its place, or the contents are held in memory; either is what the
  -- rollback will read.
  cases bundled with
  | staged =>
    have setting : Staged.Setting s project := ⟨written, sound, steady rfl⟩
    have alters := (Staged.stagedAll_of_backup setting fits taken).alters
    obtain ⟨_, place, inner, at_, _⟩ :=
      (Staged.stagedAll_of_backup setting fits taken).each file member
    obtain ⟨absent, run⟩ := Staged.stageAll_of_backup taken
    rw [Site.entryAt, at_] at there
    have copied := Staged.copied_of_stageAll setting inner there fits (.refl ..) run member at_
    obtain ⟨copy, asked, staged⟩ :=
      Staged.stagedPath_of_location written (fits file member).plain .copy inner at_
    have locations := location_of_beside alters.beside
    have asked' : Staged.copyPath Staged.standardDirectory s' file project = .ok copy :=
      asked ▸ Staged.stagedPath_of_workingDirectory (by rw [alters.beside])
    have there' : s'.tree.at? (s'.location copy) = some (.file bytes mode) := by
      rw [locations, staged.location, copied]
    refine ⟨by rw [alters.beside], .staged (fits file member).plain ?_ asked' there'⟩
    rw [locations, locations]
    exact (fits file member).other
  | inMemory =>
    obtain ⟨beside, each⟩ := InMemory.backup_remembers project written.straight sound
      (fun target member => (fits target member).steady) taken
    obtain ⟨held, found, tells⟩ := each file member
    have place : s'.workingDirectory = s.workingDirectory := by rw [beside]
    refine ⟨place, .inMemory ?_⟩
    rw [resolve_of_workingDirectory place, found]
    cases tells with
    | contents read' => rw [(Prod.mk.inj (Except.ok.inj (read'.symm.trans read))).1]
    | absent _ missing => cases missing.symm.trans there

/-- What is remembered of a file is still what the strategy holds. -/
theorem holds_of_remembered (found : Entries.get? (s.resolve file) s.held = some (.contents bytes))
    (place : s'.workingDirectory = s.workingDirectory)
    (same : Entries.get? (s.resolve file) s'.held = Entries.get? (s.resolve file) s.held) :
    s'.workingDirectory = s.workingDirectory ∧ InMemory.strategy.Holds project file bytes s' :=
  ⟨place, .inMemory (by rw [resolve_of_workingDirectory place, same, found])⟩

/-- What is staged of a file is there. -/
theorem Holds.copied (holds : (Staged.strategy Staged.standardDirectory).Holds project file bytes s) :
    ∃ copy mode, Staged.copyPath Staged.standardDirectory s file project = .ok copy ∧
      s.tree.at? (s.location copy) = some (.file bytes mode) := by
  generalize same : Staged.strategy Staged.standardDirectory = strategy at holds
  cases holds with
  | staged _ _ asked there => exact ⟨_, _, asked, there⟩
  | inMemory => exact absurd (congrArg SnapshotStrategy.name same) (by decide)

variable (written : s.Written) (holds : strategy.Holds project file bytes s)
include written holds

section

variable (unrelated : ∀ target ∈ files, Unrelated s project file target)
include unrelated

/-- A snapshot of other files leaves alone what is held of one. -/
theorem Holds.backup :
    let s' := (strategy.backup files project s).2
    s'.workingDirectory = s.workingDirectory ∧ strategy.Holds project file bytes s' := by
  cases holds with
  | staged plain outside asked there =>
    have free := fun target member =>
      Staged.free_of_unrelated written plain outside asked (unrelated target member)
    exact holds_of_keeps plain outside asked there (Staged.keeps_backup free s rfl)
  | inMemory found =>
    have others := fun target member => (unrelated target member).resolve_ne written.straight
    obtain ⟨place, same⟩ := InMemory.get?_backup project others
    exact holds_of_remembered found place same

/-- So does discarding such a snapshot. -/
theorem Holds.cleanup :
    let s' := (strategy.cleanup files project s).2
    s'.workingDirectory = s.workingDirectory ∧ strategy.Holds project file bytes s' := by
  cases holds with
  | staged plain outside asked there =>
    have free := fun target member =>
      Staged.free_of_unrelated written plain outside asked (unrelated target member)
    have keeps : Action.Keeps s (· = s.location _) (files.forM fun target =>
        Staged.forgetTarget Staged.standardDirectory target project) :=
      .forM fun target member => Staged.keeps_forgetTarget written.straight (free target member)
    exact holds_of_keeps plain outside asked there (keeps s rfl)
  | inMemory found =>
    have others := fun target member => (unrelated target member).resolve_ne written.straight
    obtain ⟨place, same⟩ := InMemory.get?_forget others
    exact holds_of_remembered found place same

end

/-- Restoring files that are not staged ones leaves alone what is held of them and of others. -/
theorem Holds.rollback (beside : ∀ target ∈ files, ¬Staged.area s project <+: s.location target) :
    let s' := (strategy.rollback files project s).2
    s'.workingDirectory = s.workingDirectory ∧ strategy.Holds project file bytes s' := by
  cases holds with
  | @staged _ copy mode plain outside asked there =>
    obtain ⟨place, _, _, staged⟩ := Staged.isStaged_of_asked written plain outside asked
    have keeps : Action.Keeps s (· = s.location copy) (files.mapM fun target =>
        Staged.restore Staged.standardDirectory target project) :=
      .mapM fun target member => Staged.keeps_restore written.straight fun same => by
        refine beside target member ?_
        rw [same, staged.location]
        exact List.prefix_append ..
    exact holds_of_keeps plain outside asked there (keeps s rfl)
  | inMemory found =>
    have keeps : Action.Keeps s (fun _ => False) (files.mapM InMemory.restore) :=
      .mapM fun target _ => InMemory.keeps_restore written.straight target
    have same : (files.mapM InMemory.restore s).2.held = s.held := by rw [(keeps s rfl).beside]
    exact holds_of_remembered found (keeps s rfl).place (congrArg (Entries.get? _) same)

end SnapshotStrategy

end

namespace Transaction

variable {α : Type} {t : Transaction} {file : Path} {bytes : Bytes} {s : Site}

/-- The state in which a transaction ends is that after its commit or its rollback. -/
theorem finish_apply (t : Transaction) (accepts : α → Bool) (result : Except Failure α) (s : Site) :
    (t.finish accepts result s).2 =
        (if isGood accepts result then (t.commit s).2 else (t.rollback s).2) ∧
      (t.finish accepts result s).1.restored =
        if isGood accepts result then [] else (t.rollback s).1.restored := by
  unfold finish
  split
  next =>
    simp only [StateM.bind_apply, ExceptT.run]
    rcases t.commit s with ⟨e | ⟨⟩, s'⟩ <;> exact ⟨rfl, rfl⟩
  next =>
    simp only [StateM.bind_apply]
    rcases back : t.rollback s with ⟨⟨e | restored, _⟩, s'⟩ <;> exact ⟨rfl, rfl⟩

variable (written : s.Written) (holds : t.strategy.Holds t.project file bytes s)
include written holds

section

variable (unrelated : ∀ target ∈ t.files, Unrelated s t.project file target)
include unrelated

theorem holds_begin :
    let s' := (t.begin s).2
    s'.workingDirectory = s.workingDirectory ∧ t.strategy.Holds t.project file bytes s' := by
  have after := holds.backup written unrelated
  unfold begin
  split
  next =>
    rw [Action.bind_apply]
    rcases backup : t.strategy.backup t.files t.project s with ⟨e | handle, s'⟩
    · rwa [backup] at after
    · rwa [backup] at after
  next => exact ⟨rfl, holds⟩

theorem holds_commit :
    let s' := (t.commit s).2
    s'.workingDirectory = s.workingDirectory ∧ t.strategy.Holds t.project file bytes s' := by
  unfold commit
  split
  · exact holds.cleanup written unrelated
  · exact ⟨rfl, holds⟩

end

/-- A rollback leaves alone what is held of a file that it cannot restore, and of any file that it is
not about. -/
theorem holds_rollback (beside : ∀ target ∈ t.files, ¬Staged.area s t.project <+: s.location target)
    (kept : (∃ r ∈ (t.rollback s).1.restored, r.success = false) ∨
      ∀ target ∈ t.files, Unrelated s t.project file target) :
    let s' := (t.rollback s).2
    s'.workingDirectory = s.workingDirectory ∧ t.strategy.Holds t.project file bytes s' := by
  obtain ⟨place, held⟩ := holds.rollback written beside
  unfold rollback at kept ⊢
  split
  next on =>
    rw [if_pos on] at kept
    simp only [StateM.bind_apply, ExceptT.run] at kept ⊢
    rcases back : t.strategy.rollback t.files t.project s with ⟨e | restored, s₁⟩
    · rw [back] at place held
      exact ⟨place, held⟩
    · rw [back] at place held kept
      simp only at kept ⊢
      -- The records are dropped only when every file came back, and then none of the targets is
      -- the file's.
      split
      next whole =>
        have unrelated : ∀ target ∈ t.files, Unrelated s t.project file target := by
          refine kept.resolve_left ?_
          rw [if_pos whole, StateM.bind_apply]
          rintro ⟨r, listed, failed⟩
          have restored : r.success = true := by
            rcases cleanup : t.strategy.cleanup t.files t.project s₁ with ⟨e | ⟨⟩, s₂⟩ <;>
            · simp only [cleanup] at listed
              exact List.all_eq_true.mp whole r listed
          cases failed.symm.trans restored
        have written₁ : s₁.Written := by rwa [Site.Written, place]
        obtain ⟨place', held'⟩ := held.cleanup written₁ fun target member =>
          (unrelated target member).of_place place
        simp only [StateM.bind_apply]
        rcases cleanup : t.strategy.cleanup t.files t.project s₁ with ⟨e | ⟨⟩, s₂⟩ <;>
        · rw [cleanup] at place' held'
          exact ⟨place'.trans place, held'⟩
      next => exact ⟨place, held⟩
  next => exact ⟨rfl, holds⟩

/-- So does the end of a transaction. -/
theorem holds_finish (accepts : α → Bool) (result : Except Failure α)
    (beside : ∀ target ∈ t.files, ¬Staged.area s t.project <+: s.location target)
    (kept : (∃ r ∈ (t.finish accepts result s).1.restored, r.success = false) ∨
      ∀ target ∈ t.files, Unrelated s t.project file target) :
    let s' := (t.finish accepts result s).2
    s'.workingDirectory = s.workingDirectory ∧ t.strategy.Holds t.project file bytes s' := by
  obtain ⟨state, restored⟩ := t.finish_apply accepts result s
  rw [restored] at kept
  simp only [state]
  split at kept
  next good =>
    rw [if_pos good]
    exact holds_commit written holds (kept.resolve_left nofun)
  next bad =>
    rw [if_neg bad]
    exact holds_rollback written holds beside kept

end Transaction

/-! ### Runs -/

section

variable {r : Remediation} {c : RepairContext} {file : Path} {bytes : Bytes}

/-- What a stage does has nothing to do with a file, and a fixer leaves alone what is staged and what
is held in memory. -/
inductive Stage.Leaves (c : RepairContext) (file : Path) (v : Violation) (s : Site) : Stage → Prop
  | trying {f : Fixer} {rest : List Fixer} (unrelated : ∀ files, f.targets c v s = .ok files →
    ∀ target ∈ files, Unrelated s c.projectRoot file target) : Leaves c file v s (.trying f rest)
  | guarded {f : Fixer} {rest : List Fixer} {t : Transaction}
    (meanwhile : Meanwhile (Staged.area s c.projectRoot) s (f.repair c v s).2) :
    Leaves c file v s (.guarded f rest t)
  | repaired {f : Fixer} {rest : List Fixer} {t : Transaction} {result : Except Failure Outcome}
    (unrelated : ∀ target ∈ t.files, Unrelated s c.projectRoot file target) :
    Leaves c file v s (.repaired f rest t result)
  | done {o : Outcome} : Leaves c file v s (.done o)

/-- A step of a run that has nothing to do with a file. -/
inductive Pool.StepBeside (r : Remediation) (c : RepairContext) (file : Path) : Pool → Pool → Prop
  | take {p : Pool} {lane : Lane} {waiting : List Lane} (free : p.active.length < workers r)
    (queue : p.waiting = lane :: waiting) :
    StepBeside r c file p { p with waiting, active := p.active ++ [{ rest := lane }] }
  | work {p : Pool} {before after : List Work} {w : Work} (chosen : p.active = before ++ w :: after)
    (unfinished : w.isOver = false) (leaves : ∀ job stage, w.current = some (job, stage) →
      stage.Leaves c file job.violation p.site) :
    StepBeside r c file p (p.turn r c before w after)
  | leave {p : Pool} {before after : List Work} {w : Work} (chosen : p.active = before ++ w :: after)
    (finished : w.isOver = true) : StepBeside r c file p { p with active := before ++ after }

theorem Pool.StepBeside.step {p q : Pool} (beside : StepBeside r c file p q) : Step r c p q := by
  cases beside with
  | take free queue => exact .take free queue
  | work chosen unfinished => exact .work chosen unfinished
  | leave chosen finished => exact .leave chosen finished

theorem Stage.advance_trying {f : Fixer} {v : Violation} {s s' : Site} {files : List Path}
    {rest : List Fixer} {t : Transaction} (declared : f.targets c v s = .ok files)
    (begun : (r.guard c files).begin s = (.ok t, s')) :
    (Stage.trying f rest).advance r c v s = (.guarded f rest t, s') := by
  simp only [Stage.advance, StateM.bind_apply, StateM.get_apply, declared, ExceptT.run, begun]
  rfl

/-- Since some state of a run the strategy holds the bytes of a file. -/
structure Remediation.Holding (r : Remediation) (c : RepairContext) (file : Path) (bytes : Bytes)
    (first s : Site) : Prop where
  place : s.workingDirectory = first.workingDirectory
  written : first.Written
  holds : r.strategy.Holds c.projectRoot file bytes s

namespace Remediation.Holding

variable {first s s' : Site} (holding : r.Holding c file bytes first s)
include holding

theorem here : s.Written := by
  rw [Site.Written, holding.place]
  exact holding.written

theorem onward (after : s'.workingDirectory = s.workingDirectory ∧
    r.strategy.Holds c.projectRoot file bytes s') : r.Holding c file bytes first s' :=
  ⟨after.1.trans holding.place, holding.written, after.2⟩

theorem of_untouched (untouched : s.Untouched s') : r.Holding c file bytes first s' := by
  obtain ⟨said, rfl⟩ := untouched
  refine holding.onward ⟨rfl, ?_⟩
  have holds := holding.holds
  generalize r.strategy = strategy at holds ⊢
  cases holds with
  | staged plain outside asked there => exact .staged plain outside asked there
  | inMemory found => exact .inMemory found

theorem conclude (v : Violation) (f : Fixer) (result : Except Failure Outcome) :
    r.Holding c file bytes first (r.conclude v f result s).2 :=
  holding.of_untouched (r.untouched_conclude v f result s)

theorem of_meanwhile (meanwhile : Meanwhile (Staged.area s c.projectRoot) s s') :
    r.Holding c file bytes first s' := by
  have written := holding.here
  have holds := holding.holds
  refine holding.onward ⟨meanwhile.place, ?_⟩
  generalize r.strategy = strategy at holds ⊢
  have locations := location_of_workingDirectory meanwhile.place
  cases holds with
  | @staged _ copy mode plain outside asked there =>
    obtain ⟨place, _, _, staged⟩ := Staged.isStaged_of_asked written plain outside asked
    have asked' : Staged.copyPath Staged.standardDirectory s' file c.projectRoot = .ok copy :=
      asked ▸ Staged.stagedPath_of_workingDirectory meanwhile.place
    have there' : s'.tree.at? (s'.location copy) = some (.file bytes mode) := by
      rw [locations, meanwhile.alone _ (staged.location ▸ List.prefix_append ..), there]
    exact .staged plain (by rwa [locations, locations]) asked' there'
  | inMemory found =>
    exact .inMemory (by rw [meanwhile.held, resolve_of_workingDirectory meanwhile.place, found])

/-- A stage that has nothing to do with the file. -/
theorem advance {sites : List Site} {job : Job} {stage : Stage} (sound : stage.Sound r c sites job)
    (leaves : stage.Leaves c file job.violation s) :
    r.Holding c file bytes first (stage.advance r c job.violation s).2 := by
  -- By the stage: beginning and ending act on the job's own files, and between them the repair
  -- is confined.
  cases leaves with
  | @trying f rest unrelated =>
    simp only [Stage.advance, StateM.bind_apply, StateM.get_apply]
    rcases declared : f.targets c job.violation s with e | files
    · exact holding.conclude job.violation f (.error e)
    · have after : r.Holding c file bytes first ((r.guard c files).begin s).2 :=
        holding.onward (Transaction.holds_begin holding.here holding.holds (unrelated files declared))
      simp only [StateM.bind_apply, ExceptT.run]
      rcases begun : (r.guard c files).begin s with ⟨e | t, s'⟩
      · rw [begun] at after
        exact after.conclude job.violation f (.error e)
      · rw [begun] at after
        exact after
  | guarded meanwhile => exact holding.of_meanwhile meanwhile
  | @repaired f rest t result unrelated =>
    obtain ⟨_, _, _, _, files, handle, _, _, rfl, _⟩ := sound
    have after := Transaction.holds_finish holding.here holding.holds Remediation.accepts result
      (fun target member => (unrelated target member).beside) (.inr unrelated)
    exact (holding.onward after).conclude _ _ _
  | done => exact holding

/-- A step of a worker that has nothing to do with the file. -/
theorem next {sites : List Site} {w : Work} (sound : w.Sound r c sites) (b : Board)
    (leaves : ∀ job stage, w.current = some (job, stage) → stage.Leaves c file job.violation s) :
    r.Holding c file bytes first (w.next r c b s).2 := by
  obtain ⟨current, rest⟩ := w
  match current, rest with
  | none, [] => exact holding
  | none, job :: rest =>
    rw [Work.next]
    split
    next => exact holding
    next => exact holding
  | some (job, stage), rest =>
    by_cases done : ∃ o, stage = .done o
    · obtain ⟨o, rfl⟩ := done
      exact holding
    · rw [Work.next_stage (not_exists.mp done)]
      exact holding.advance (sound job stage rfl) (leaves job stage rfl)

/-- A transaction that keeps its snapshot holds what its strategy held. -/
theorem finish {handle : Option SnapshotHandle} {files : List Path} {t : Transaction} {v : Violation}
    {f : Fixer} (rest : List Fixer) {result : Except Failure Outcome}
    (guarding : t = { r.guard c files with handle, isActive := true })
    (fits : ∀ target ∈ files, Staged.Fits first c.projectRoot target)
    (unrestored : ∃ x ∈ (t.finish Remediation.accepts result s).1.restored, x.success = false) :
    r.Holding c file bytes first ((Stage.repaired f rest t result).advance r c v s).2 := by
  subst guarding
  have after := Transaction.holds_finish holding.here holding.holds Remediation.accepts result
    (fun target member => ?_) (.inl unrestored)
  · exact (holding.onward after).conclude _ _ _
  · have below := (fits target member).below
    have locations := location_of_workingDirectory holding.place
    rw [Staged.area, locations, locations]
    exact below

end Remediation.Holding

namespace Pool

variable {p q : Pool} {jobs : List Job}

/-- A step of a worker takes its job one stage further. -/
theorem turn_stage {before after : List Work} {job : Job} {stage : Stage} {lane : Lane}
    (undone : ∀ o, stage ≠ .done o) :
    p.turn r c before ⟨some (job, stage), lane⟩ after =
      { p with
        site := (stage.advance r c job.violation p.site).2
        active := before ++
          ⟨some (job, (stage.advance r c job.violation p.site).1), lane⟩ :: after } := by
  rw [turn, Work.next_stage undone]

theorem stepBeside_alone (waiting : List Lane) (s : Site) (b : Board) {w : Work}
    (unfinished : w.isOver = false) (leaves : ∀ job stage, w.current = some (job, stage) →
      stage.Leaves c file job.violation s) :
    StepBeside r c file (alone waiting s b w) (alone waiting (w.next r c b s).2
      (w.next r c b s).1.2 (w.next r c b s).1.1) := by
  have chosen : (alone waiting s b w).active = [] ++ w :: [] := rfl
  exact .work chosen unfinished leaves

/-- Some steps that have nothing to do with a file. -/
abbrev StepsBeside (r : Remediation) (c : RepairContext) (file : Path) : Pool → Pool → Prop :=
  Relation.ReflTransGen (StepBeside r c file)

theorem StepsBeside.steps (beside : StepsBeside r c file p q) : Steps r c p q :=
  Relation.ReflTransGen.mono (fun _ _ => StepBeside.step) p q beside

/-- What is known of a worker in a run. -/
theorem Steps.sound (numbered : Lane.Numbered jobs) {s : Site} (way : Steps r c (start s jobs) p)
    {w : Work} (member : w ∈ p.active) : ∃ sites, w.Sound r c sites := by
  obtain ⟨sites, passes⟩ := way.passes
  exact ⟨sites, (invariant_of_passes numbered passes).sound w member⟩

/-- Steps that have nothing to do with a file leave alone what is held of it. -/
theorem holding_of_steps (numbered : Lane.Numbered jobs) {s : Site}
    (way : Steps r c (start s jobs) p) {first : Site} (holding : r.Holding c file bytes first p.site)
    (beside : StepsBeside r c file p q) : r.Holding c file bytes first q.site := by
  -- Along the steps: taking and leaving a lane act on no file.
  induction beside with
  | refl => exact holding
  | @tail p' q onward step ih =>
    have way' : Steps r c (start s jobs) p' := way.trans (StepsBeside.steps onward)
    cases step with
    | take => exact ih
    | leave => exact ih
    | @work before after w chosen unfinished leaves =>
      have member : w ∈ p'.active := chosen ▸ List.mem_append_right _ List.mem_cons_self
      obtain ⟨sites, sound⟩ := way'.sound numbered member
      exact ih.next sound p'.board leaves

end Pool

namespace Remediation

variable {modes : Bool} (bundled : Bundled r.strategy modes) {s s' : Site} {files : List Path}
variable {t : Transaction}
include bundled

/-- A transaction that has begun holds what its files were. -/
theorem holding_of_begin (written : s.Written) (sound : s.tree.Sound)
    (steady : modes = true → s.Steady c.projectRoot)
    (fits : ∀ target ∈ files, Staged.Fits s c.projectRoot target) (real : c.dryRun = false)
    (begun : (r.guard c files).begin s = (.ok t, s')) (member : file ∈ files) {mode : Nat}
    (read : s.read file = .ok (bytes, mode)) : r.Holding c file bytes s s' := by
  have enabled : (r.guard c files).enabled = true := by simp [guard, real]
  rw [Transaction.begin, if_pos enabled] at begun
  obtain ⟨handle, s₁, taken, run⟩ := Action.bind_eq_ok begun
  cases run
  obtain ⟨place, holds⟩ := SnapshotStrategy.holds_of_backup bundled written sound steady fits taken
    member read
  exact ⟨place, written, holds⟩

/-- A snapshot that a worker takes for a fixer, and that is kept because not every file could be
restored from it, is held from then on, while no other step of the run is about its file. -/
theorem kept_snapshot_held {first : Site} {violations : List Violation} {p p' q : Pool}
    {before after before' after' : List Work} {w w' : Work} {job : Job} {f : Fixer}
    {rest : List Fixer} {result : Except Failure Outcome}
    (reached : Pool.Steps r c (.start first (r.jobs c first violations)) p)
    (chosen : p.active = before ++ w :: after) (turn : w.current = some (job, .trying f rest))
    (declared : f.targets c job.violation p.site = .ok files)
    (begun : (r.guard c files).begin p.site = (.ok t, s')) (written : p.site.Written)
    (sound : p.site.tree.Sound) (steady : modes = true → p.site.Steady c.projectRoot)
    (fits : ∀ target ∈ files, Staged.Fits p.site c.projectRoot target) (member : file ∈ files)
    {mode : Nat} (read : p.site.read file = .ok (bytes, mode))
    (during : Pool.StepsBeside r c file (p.turn r c before w after) p')
    (chosen' : p'.active = before' ++ w' :: after')
    (turn' : w'.current = some (job, .repaired f rest t result))
    (unrestored : ∃ x ∈ (t.finish accepts result p'.site).1.restored, x.success = false)
    (later : Pool.StepsBeside r c file (p'.turn r c before' w' after') q) :
    r.strategy.Holds c.projectRoot file bytes q.site := by
  have numbered : Lane.Numbered (r.jobs c first violations) :=
    Job.numbered_planAll r.table r.settings c first violations
  obtain ⟨current, lane⟩ := w
  obtain rfl : current = _ := turn
  obtain ⟨current', lane'⟩ := w'
  obtain rfl : current' = _ := turn'
  obtain ⟨handle, guarding⟩ : ∃ handle, t = { r.guard c files with handle, isActive := true } := by
    rcases (r.guard c files).begin_cases p.site with ⟨e, fails, _⟩ | ⟨handle, starts⟩
    · rw [begun] at fails
      cases fails
    · rw [begun] at starts
      exact ⟨handle, Except.ok.inj starts⟩
  have real : c.dryRun = false := by
    by_contra dry
    have enabled : t.enabled = false := by
      rw [guarding]
      simpa [guard] using dry
    obtain ⟨x, listed, _⟩ := unrestored
    rw [(t.finish_apply accepts result p'.site).2] at listed
    simp [Transaction.rollback, enabled, StateM.pure_apply] at listed
  -- The snapshot is taken,
  have taken : r.Holding c file bytes p.site
      (p.turn r c before ⟨some (job, .trying f rest), lane⟩ after).site := by
    rw [Pool.turn_stage (by simp), Stage.advance_trying declared begun]
    exact holding_of_begin bundled written sound steady fits real begun member read
  have reached' := reached.tail (.work chosen rfl)
  have held := Pool.holding_of_steps numbered reached' taken during
  -- and not discarded,
  have kept : r.Holding c file bytes p.site
      (p'.turn r c before' ⟨some (job, .repaired f rest t result), lane'⟩ after').site := by
    rw [Pool.turn_stage (by simp)]
    exact held.finish rest guarding fits unrestored
  -- and the other steps are not about the file.
  have reached'' := (reached'.trans during.steps).tail (.work chosen' rfl)
  exact (Pool.holding_of_steps numbered reached'' kept later).holds

end Remediation

end

/-! ### A file that is not restored -/

namespace LongNamed

-- The name is compared letter by letter.
set_option maxRecDepth 4000

/-- A name so long that a file of that name cannot be written in full: there is no name for the
temporary file. -/
def name : Text := List.replicate 245 'a'

def file : Path := ⟨.here, [name]⟩

def site : Site := { tree := (∅ : Tree).insert [name] (.file [1] 0o644) }

/-- Changes the file in place, and fails after that where this is the first violation. -/
def fixer : Fixer where
  name := "overwriting"
  rules := ["MS-001"]
  accepts _ := true
  targets _ _ _ := .ok [file]
  repair _ v s :=
    (if v.location = "one" then .error (.reported "no") else .ok (.fixed v "done" [] []),
      s.insert [name] (.file [2] 0o644))

def remediation : Remediation where
  table := { fixers := [fixer] }
  strategy := Staged.strategy Staged.standardDirectory

def context : RepairContext := { projectRoot := {}, moduleRoot := {} }

def violations : List Violation :=
  [{ rule := "MS-001", location := "one" }, { rule := "MS-001", location := "two" }]

/-- The job for one of the violations. -/
def job (i : Nat) (location : Text) : Job where
  index := i
  violation := { rule := "MS-001", location }
  fixers := [fixer]
  targets := [⟨.root, [name]⟩]

def start : Pool := .start site (remediation.jobs context site violations)

/-- Some site of the run, when a worker has both jobs still to do. -/
def during (s : Site) (stage : Stage) : Pool :=
  .alone [] s (.blank 2) ⟨some (job 0 "one", stage), [job 1 "two"]⟩

/-- Both jobs are in one lane, which a worker takes. -/
theorem steps_trying : Pool.Steps remediation context start (during site (.trying fixer [])) := by
  have lanes : Lane.ofJobs (remediation.jobs context site violations) =
      [[job 0 "one", job 1 "two"]] := by cbv
  have taken : Pool.Step remediation context start
      (.alone [] site (.blank 2) ⟨none, [job 0 "one", job 1 "two"]⟩) := .take (by decide) lanes
  exact .head taken (.single (Pool.step_alone [] site (.blank 2) rfl))

/-- The transaction of the first job. -/
def transaction : Transaction :=
  { remediation.guard context [file] with
    handle := some ⟨"staging", [file], []⟩, isActive := true }

/-- The site with a copy of the file. -/
def staged : Site := (remediation.strategy.backup [file] {} site).2

theorem ok_of_toOption {α : Type} {x : Except Failure α} {a : α} (answer : x.toOption = some a) :
    x = .ok a := by
  cases x with
  | error e => cases answer
  | ok b => rw [Option.some.inj answer]

theorem backup_eq : remediation.strategy.backup [file] {} site =
    (.ok ⟨"staging", [file], []⟩, staged) := by
  have answer : (remediation.strategy.backup [file] {} site).1.toOption =
      some ⟨"staging", [file], []⟩ := by decide +kernel
  exact Prod.ext (ok_of_toOption answer) rfl

theorem begin_eq :
    (remediation.guard context [file]).begin site = (.ok transaction, staged) := by
  have enabled : (remediation.guard context [file]).enabled = true := rfl
  rw [Transaction.begin, if_pos enabled]
  exact Action.bind_of_ok backup_eq

/-- The site after the first repair. -/
def changed : Site := staged.insert [name] (.file [2] 0o644)

/-- The first repair has failed. -/
def failed : Stage := .repaired fixer [] transaction (.error (.reported "no"))

theorem unrestored : ∃ x ∈ (transaction.finish Remediation.accepts
    (.error (.reported "no") : Except Failure Outcome) changed).1.restored,
    x.target = file ∧ x.success = false := by
  have said : (transaction.finish Remediation.accepts
      (.error (.reported "no") : Except Failure Outcome) changed).1.restored.map
        (fun x => (x.target, x.success)) = [(file, false)] := by decide +kernel
  obtain ⟨x, listed, same⟩ := List.mem_map.mp (said ▸ List.mem_singleton.mpr rfl)
  exact ⟨x, listed, congrArg Prod.fst same, congrArg Prod.snd same⟩

theorem step_guarded : Pool.Step remediation context (during site (.trying fixer []))
    (during staged (.guarded fixer [] transaction)) := by
  have step := Pool.step_stage (r := remediation) (c := context) [] site (.blank 2)
    (.trying fixer []) nofun (job 0 "one") [job 1 "two"]
  rwa [Stage.advance_trying rfl begin_eq] at step

/-- The first job comes to the end of its repair. -/
theorem steps_failed : Pool.Steps remediation context start (during changed failed) := by
  have failing : Pool.Step remediation context (during staged (.guarded fixer [] transaction))
      (during changed failed) :=
    Pool.step_stage [] staged (.blank 2) (.guarded fixer [] transaction) nofun (job 0 "one")
      [job 1 "two"]
  exact steps_trying.trans (.head step_guarded (.single failing))

/-- The end of the transaction. -/
def ending : Ending Outcome × Site :=
  transaction.finish Remediation.accepts (.error (.reported "no")) changed

/-- What is noted of the first job, and the site that the second one finds. -/
def noted : Outcome × Site :=
  remediation.conclude (job 0 "one").violation fixer ending.1.result ending.2

/-- The board after the first job. -/
def board : Board := ((Board.blank 2).fill (job 0 "one") noted.1).record none noted.1

/-- The run before the second job. -/
def afterFirst : Pool := .alone [] noted.2 board ⟨none, [job 1 "two"]⟩

theorem turn_trying : (during site (.trying fixer [])).turn remediation context []
    ⟨some (job 0 "one", .trying fixer []), [job 1 "two"]⟩ [] =
      during staged (.guarded fixer [] transaction) := by
  have advanced : (Stage.trying fixer []).advance remediation context (job 0 "one").violation site =
      (.guarded fixer [] transaction, staged) := Stage.advance_trying rfl begin_eq
  exact (Pool.turn_stage (by simp)).trans
    (congrArg (fun x : Stage × Site => during x.2 x.1) advanced)

theorem step_noted : Pool.Step remediation context (during changed failed)
    (during noted.2 (.done noted.1)) :=
  Pool.step_stage [] changed (.blank 2) failed nofun (job 0 "one") [job 1 "two"]

/-- The site at the end of the run. -/
def last : Site := (remediation.step context board (job 1 "two") noted.2).2

theorem read_site : site.read file = .ok ([1], 0o644) := by decide

theorem no_copy :
    (Staged.copyPath Staged.standardDirectory last file context.projectRoot).toOption.map (fun copy =>
      last.tree.at? (last.location copy)) = some none := by decide +kernel

theorem not_holds_last : ¬remediation.strategy.Holds context.projectRoot file [1] last := by
  intro holds
  obtain ⟨copy, mode, asked, there⟩ := SnapshotStrategy.Holds.copied holds
  have gone := no_copy
  rw [asked] at gone
  exact nomatch there.symm.trans (Option.some.inj gone)

theorem setting : Staged.Setting site {} :=
  ⟨nofun, Tree.sound_empty.insert rfl (by decide) nofun, .inl (by decide)⟩

theorem fits : ∀ target ∈ [file], Staged.Fits site {} target := by
  refine List.forall_mem_singleton.mpr ⟨?_, .inl (by decide), by decide, by decide⟩
  exact List.forall_mem_singleton.mpr (by decide)

/-- The copy is not touched when the file is changed. -/
theorem meanwhile_changed : Meanwhile (Staged.area staged {}) staged changed := by
  have alters := (Staged.stagedAll_of_backup setting fits backup_eq).alters
  have entry := alters.apart (m := [name]) (by decide) (by decide)
  have place : Staged.area staged {} = Staged.area site {} := by
    rw [Staged.area, location_of_beside alters.beside]
    rfl
  refine ⟨rfl, rfl, ?_, fun m inside => ?_⟩
  · refine (Touches.of_file (by decide) rfl ?_ _ _).sound (alters.sound setting.sound)
    rw [entry]
    decide
  · rw [changed, at?_insert (by decide), if_neg]
    rintro rfl
    rw [place] at inside
    revert inside
    decide

/-- The copy is still there when the second job comes. -/
theorem copy_held :
    Pool.Steps remediation context start (during changed failed) ∧
      site.read file = .ok ([1], 0o644) ∧
      (∃ x ∈ ending.1.restored, x.target = file ∧ x.success = false) ∧
      Pool.Step remediation context (during changed failed) (during noted.2 (.done noted.1)) ∧
      Pool.Step remediation context (during noted.2 (.done noted.1)) afterFirst ∧
      remediation.strategy.Holds context.projectRoot file [1] afterFirst.site := by
  have repairs : Pool.StepsBeside remediation context file
      ((during site (.trying fixer [])).turn remediation context []
        ⟨some (job 0 "one", .trying fixer []), [job 1 "two"]⟩ []) (during changed failed) := by
    rw [turn_trying]
    refine .single (Pool.stepBeside_alone [] staged (.blank 2) rfl ?_)
    rintro _ _ ⟨⟩
    exact .guarded meanwhile_changed
  have notes : Pool.StepBeside remediation context file (during noted.2 (.done noted.1))
      afterFirst := by
    refine Pool.stepBeside_alone [] noted.2 (.blank 2) rfl ?_
    rintro _ _ ⟨⟩
    exact .done
  have chosen : (during site (.trying fixer [])).active =
      [] ++ ⟨some (job 0 "one", .trying fixer []), [job 1 "two"]⟩ :: [] := rfl
  have chosen' : (during changed failed).active =
      [] ++ ⟨some (job 0 "one", failed), [job 1 "two"]⟩ :: [] := rfl
  have kept := unrestored.imp fun _ known => known.imp_right And.right
  exact ⟨steps_failed, read_site, unrestored, step_noted, notes.step,
    Remediation.kept_snapshot_held .staged steps_trying chosen rfl rfl begin_eq setting.written
      setting.sound (fun _ => setting.steady) fits (List.mem_singleton.mpr rfl) read_site repairs
      chosen' rfl kept (.single notes)⟩

/-- The second job takes a snapshot of the same file and discards it, and with it the copy that was
kept. -/
theorem copy_discarded :
    Pool.Steps remediation context start (during changed failed) ∧
      site.read file = .ok ([1], 0o644) ∧
      (∃ x ∈ ending.1.restored, x.target = file ∧ x.success = false) ∧
      ∃ q, Pool.Steps remediation context (during changed failed) q ∧ q.IsOver ∧
        ¬remediation.strategy.Holds context.projectRoot file [1] q.site := by
  have notes : Pool.Step remediation context (during noted.2 (.done noted.1)) afterFirst :=
    Pool.step_alone [] noted.2 (.blank 2) rfl
  have second : Pool.Steps remediation context afterFirst
      (.alone [] last (remediation.step context board (job 1 "two") noted.2).1 ⟨none, []⟩) :=
    Pool.steps_step [] noted.2 board (job 1 "two") []
  exact ⟨steps_failed, read_site, unrestored, _,
    .head step_noted (.head notes (second.tail (Pool.leave_alone [] last _ rfl))), ⟨rfl, rfl⟩,
    not_holds_last⟩

end LongNamed

end Layering
