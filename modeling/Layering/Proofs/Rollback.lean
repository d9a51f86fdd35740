import Layering.Proofs.Remembering
import Layering.Proofs.Staging

/-!
# Taking a change back

Whatever happened to the files since a snapshot was taken, a rollback says of each of them whether it
was restored, and those of which it says so are as before when all of it is done.
-/

namespace Layering

open Site

/-- A strategy that every project has, and whether it brings back modes. -/
inductive Bundled : SnapshotStrategy → Bool → Prop
  | staged : Bundled (Staged.strategy Staged.standardDirectory) true
  | inMemory : Bundled InMemory.strategy false

/-- Anything may have happened to the files, but not in a region, and the snapshots held in memory
are still held. -/
structure Site.Meanwhile (region : Location) (s s' : Site) : Prop where
  place : s'.workingDirectory = s.workingDirectory
  held : s'.held = s.held
  sound : s'.tree.Sound
  alone : ∀ m, region <+: m → s'.tree.at? m = s.tree.at? m

/-- What a rollback says of one file, and what it must have done for it. -/
def Honest (modes : Bool) (before after : Site) (target : Path) (r : Restoration) : Prop :=
  r.target = target ∧
    (r.success = true → Restored modes (before.entryAt target) (after.entryAt target))

theorem honest_of_restoresAll {modes : Bool} {before s : Site} {files : List Path}
    {ended : Except Failure (List Restoration) × Site}
    (place : s.workingDirectory = before.workingDirectory)
    (restores : Restoration.RestoresAll modes before s files ended) :
    ∃ results s', ended = (.ok results, s') ∧
      List.Forall₂ (Honest modes before s') files results := by
  obtain ⟨results, answer, all⟩ := restores.answer
  refine ⟨results, ended.2, Prod.ext answer rfl, ?_⟩
  have here := location_of_workingDirectory place.symm
  have there := location_of_beside restores.beside
  unfold Honest Site.entryAt
  simpa only [here, there] using all

/-- A rollback restores every file of which it says so, and what it does for one file does not undo
what it did for another. The files, and the project where it holds the snapshots, must not be named
by way of missing directories. -/
theorem rollback_restores {strategy : SnapshotStrategy} {modes : Bool}
    (bundled : Bundled strategy modes) {s s₁ s₂ : Site} {project : Path} {files : List Path}
    {handle : SnapshotHandle} (written : s.Written) (sound : s.tree.Sound)
    (steady : modes = true → s.Steady project)
    (fits : ∀ target ∈ files, Staged.Fits s project target)
    (taken : strategy.backup files project s = (.ok handle, s₁))
    (meanwhile : Meanwhile (Staged.area s project) s₁ s₂) :
    ∃ results s₃, strategy.rollback files project s₂ = (.ok results, s₃) ∧
      List.Forall₂ (Honest modes s s₃) files results := by
  cases bundled with
  | staged =>
    have setting : Staged.Setting s project := ⟨written, sound, steady rfl⟩
    have all := Staged.stagedAll_of_backup setting fits taken
    have place : s₂.workingDirectory = s.workingDirectory := by
      rw [meanwhile.place, all.alters.beside]
    refine honest_of_restoresAll place (Staged.restoreAll_restores setting fits all
      ⟨place, meanwhile.sound, fun m inside bytes mode file => ?_⟩)
    rwa [meanwhile.alone m inside] at file
  | inMemory =>
    obtain ⟨beside, each⟩ := InMemory.backup_remembers project written.straight sound
      (fun target member => (fits target member).steady) taken
    have place : s₂.workingDirectory = s.workingDirectory := by
      rw [meanwhile.place, beside]
    exact honest_of_restoresAll place (InMemory.restoreAll_restores written.straight each place
      meanwhile.sound meanwhile.held)

/-- A site with one file. -/
def oneFile : Site := { tree := (∅ : Tree).insert [['b']] (.file [1] 0o644) }

theorem sound_oneFile : oneFile.tree.Sound := Tree.sound_empty.insert rfl (by decide) nofun

/-- The file and one that is absent, also without its directory. -/
def fileAndAbsent : List Path := [⟨.here, [['b']]⟩, ⟨.here, [['d'], ['x']]⟩]

/-- The file is overwritten and given another mode. -/
theorem rollback_restores_overwritten :
    let strategy := Staged.strategy Staged.standardDirectory
    ∃ handle s₁ results s₃, strategy.backup fileAndAbsent {} oneFile = (.ok handle, s₁) ∧
      strategy.rollback fileAndAbsent {} (s₁.insert [['b']] (.file [2] 0o600)) =
        (.ok results, s₃) ∧
      List.Forall₂ (Honest true oneFile s₃) fileAndAbsent results := by
  intro strategy
  have setting : Staged.Setting oneFile {} := ⟨nofun, sound_oneFile, .inl (by decide)⟩
  have fits : ∀ target ∈ fileAndAbsent, Staged.Fits oneFile {} target := by
    refine List.forall_mem_cons.mpr ⟨⟨?_, .inl (by decide), by decide, by decide⟩,
      List.forall_mem_singleton.mpr ⟨?_, .inl (by decide), by decide, by decide⟩⟩
    · simp [Path.Plain, Path.PlainName]
    · simp [Path.Plain, Path.PlainName]
  have taken : strategy.backup fileAndAbsent {} oneFile =
      (.ok ⟨"staging", fileAndAbsent, [⟨.here, [['d'], ['x']]⟩]⟩,
        (strategy.backup fileAndAbsent {} oneFile).2) := Prod.ext (by cbv) rfl
  have alters := (Staged.stagedAll_of_backup setting fits taken).alters
  have entry := alters.apart (m := [['b']]) (by decide) (by decide)
  have meanwhile : Meanwhile (Staged.area oneFile {}) (strategy.backup fileAndAbsent {} oneFile).2
      ((strategy.backup fileAndAbsent {} oneFile).2.insert [['b']] (.file [2] 0o600)) := by
    refine ⟨rfl, rfl, ?_, fun m inside => ?_⟩
    · refine (Touches.of_file (by decide) rfl ?_ _ _).sound (alters.sound sound_oneFile)
      rw [entry]
      decide
    · rw [at?_insert (by decide), if_neg]
      rintro rfl
      revert inside
      decide
  obtain ⟨results, s₃, run, all⟩ := rollback_restores .staged setting.written sound_oneFile
    (fun _ => setting.steady) fits taken meanwhile
  exact ⟨_, _, results, s₃, taken, run, all⟩

/-- Two names of the file, of which one leads through a missing directory. -/
def twoNames : List Path := [⟨.here, [['b']]⟩, ⟨.here, [['a'], upName, ['b']]⟩]

/-- A file that is also named by way of a missing directory is taken for absent, and a rollback
removes it. -/
theorem rollback_removes_file :
    ∃ handle s₁ results s₃, InMemory.strategy.backup twoNames {} oneFile = (.ok handle, s₁) ∧
      InMemory.strategy.rollback twoNames {} s₁ = (.ok results, s₃) ∧
      results.all (·.success) = true ∧
      ¬List.Forall₂ (Honest false oneFile s₃) twoNames results := by
  have taken : InMemory.strategy.backup twoNames {} oneFile =
      (.ok ⟨"memory", twoNames, [⟨.here, [['a'], upName, ['b']]⟩]⟩,
        { oneFile with held := [(⟨.root, [['b']]⟩, .absent {})] }) := rfl
  have removed : (InMemory.strategy.rollback twoNames {}
      { oneFile with held := [(⟨.root, [['b']]⟩, .absent {})] }).1 =
        .ok (twoNames.map .removed) := by cbv
  have gone : (InMemory.strategy.rollback twoNames {}
      { oneFile with held := [(⟨.root, [['b']]⟩, .absent {})] }).2.entryAt ⟨.here, [['b']]⟩ =
        none := by cbv
  refine ⟨_, _, _, _, taken, Prod.ext removed rfl, rfl, fun all => ?_⟩
  cases all with
  | cons first _ =>
    have restored := first.2 rfl
    have was : oneFile.entryAt ⟨.here, [['b']]⟩ = some (.file [1] 0o644) := rfl
    rw [was, gone] at restored
    cases restored

end Layering
