import Layering.Proofs.Clearing
import Layering.Proofs.Remembering

/-!
# Snapshots in memory and what they leave

A snapshot in memory changes no file, so that a change that was taken back leaves the tree as it was
before.
-/

namespace Layering

open Site

/-- What is remembered of a place is what was there, or the nearest entry above it. -/
inductive Held.Records (before : Site) (l : Location) : Held → Prop
  | contents {bytes : Bytes} {mode : Nat} (there : before.tree.at? l = some (.file bytes mode)) :
    Records before l (.contents bytes)
  | absent {stop : Path} (missing : before.tree.at? l = none)
    (nearest : before.tree.Nearest (before.location stop) l) : Records before l (.absent stop)

theorem Held.Records.of_held {before : Site} {l : Location} {held : Held}
    (records : held.Records before l) (remembered : List (Path × Held)) :
    held.Records { before with held := remembered } l := by
  cases records with
  | contents there => exact .contents there
  | absent missing nearest => exact .absent missing nearest

namespace InMemory

variable {before s s' : Site} {target : Path} {files : List Path} {held : Held}
variable {base : Location} {rest : List Text}

theorem records_of_take (sound : s.tree.Sound) (way : s.Way target base rest)
    (done : take s target = .ok held) : held.Records s (s.location target) := by
  unfold take at done
  obtain ⟨there, asked, done⟩ := Except.bind_eq_ok done
  have asked := Except.mapError_eq_ok asked
  -- What is held is the contents of the file, or the nearest directory when there was none.
  cases there with
  | true =>
    obtain ⟨bytes, read, done⟩ := Except.bind_eq_ok done
    cases done
    have read := Except.mapError_eq_ok read
    rcases held : s.read target with f | ⟨bytes', mode⟩
    · rw [held] at read
      cases read
    · rw [held] at read
      cases read
      exact .contents (read_eq_ok.mp held).2
  | false =>
    obtain ⟨stop, found, done⟩ := Except.bind_eq_ok done
    cases done
    have absent := way.firm.entryAt_of_not_exists sound asked
    exact .absent absent (nearest_of_nearestAncestor sound way absent
      (Except.mapError_eq_ok found)).1

/-- A snapshot records each of its files. -/
theorem records_backup (project : Path) {handle : SnapshotHandle} (sound : before.tree.Sound)
    (straight : upName ∉ before.workingDirectory)
    (ways : ∀ target ∈ files, ∃ base rest, before.Way target base rest)
    (done : backup files project before = (.ok handle, s)) :
    s = { before with held := s.held } ∧ ∀ target ∈ files, ∃ held,
      Entries.get? (before.resolve target) s.held = some held ∧
        held.Records before (before.location target) := by
  obtain ⟨beside, _, all⟩ := backup_takes project done
  refine ⟨beside, fun target member => ?_⟩
  obtain ⟨other, named, held, same, found, taken⟩ := all target member
  obtain ⟨base, rest, way⟩ := ways other named
  have records := records_of_take sound way taken
  rw [resolve_eq straight, resolve_eq straight] at same
  exact ⟨held, found, (Path.mk.inj same).2 ▸ records⟩

/-- Restoring what is remembered of a file settles it. -/
theorem settles_restore (sound : before.tree.Sound) (straight : upName ∉ before.workingDirectory)
    (way : before.Way target base rest)
    (found : Entries.get? (before.resolve target) before.held = some held)
    (records : held.Records before (before.location target)) :
    Restoration.Settles before (fun _ => True) (fun _ => True) restore target := by
  intro due s r s' _ pending run success
  unfold restore at run
  rw [Action.bind_apply, Action.get_apply] at run
  rw [← resolve_of_workingDirectory pending.place, ← pending.held] at found
  simp only [found] at run
  have run := Restoration.eq_of_success run success
  refine ⟨?_, trivial, trivial⟩
  -- What was there is written back. What was not is deleted, and the directories made for it
  -- with it.
  cases records with
  | contents there =>
    obtain ⟨⟨⟩, s₁, wrote, run⟩ := Action.bind_eq_ok run
    cases run
    rcases Action.writeBytes_cases target _ s with ⟨_, run, writes⟩ | ⟨f, _, stuck, _, _⟩
    · cases run.symm.trans wrote
      exact (pending.restores sound way there writes).1
    · cases stuck.symm.trans wrote
  | absent missing nearest =>
    obtain ⟨⟨⟩, s₁, deleted, run⟩ := Action.bind_eq_ok run
    obtain ⟨⟨⟩, s₂, pruned, run⟩ := Action.bind_eq_ok run
    cases run
    have after := pending.removes sound straight way missing nearest deleted
    rwa [pruned] at after

/-- Forgetting files changes none. -/
theorem forM_forget (files : List Path) (s : Site) :
    ∃ held, files.forM forget s = (.ok (), { s with held := held }) := by
  induction files generalizing s with
  | nil => exact ⟨s.held, rfl⟩
  | cons target rest ih =>
    obtain ⟨held, run⟩ := ih (forget target s).2
    exact ⟨held, (Action.forM_cons_apply target rest s).trans run⟩

/-- A change of the remembered files that is taken back, where every file is said to be restored,
leaves the tree as it was before the snapshot. -/
theorem undoes (project : Path) {s₁ s₂ s₃ : Site} {handle : SnapshotHandle}
    {restored : List Restoration} (sound : before.tree.Sound)
    (straight : upName ∉ before.workingDirectory)
    (ways : ∀ target ∈ files, ∃ base rest, before.Way target base rest)
    (taken : backup files project before = (.ok handle, s₁))
    (changed : s₁.Pending s₂ fun m => ∃ target ∈ files, s₁.location target = m)
    (back : files.mapM restore s₂ = (.ok restored, s₃))
    (whole : ∀ r ∈ restored, r.success = true) :
    ∃ s₄, files.forM forget s₃ = (.ok (), s₄) ∧ ∀ m, s₄.tree.at? m = before.tree.at? m := by
  obtain ⟨beside, each⟩ := records_backup project sound straight ways taken
  -- What is held apart, the site with the snapshot is the one before.
  generalize s₁.held = held at beside each
  subst beside
  have pending : Pending { before with held := held } s₂ fun m =>
      (∃ target ∈ files, before.location target = m) ∨ False :=
    changed.mono fun _ => Or.inl
  have settles : ∀ target ∈ files, Restoration.Settles { before with held := held }
      (fun _ => True) (fun _ => True) restore target := by
    intro target member
    obtain ⟨own, found, records⟩ := each target member
    obtain ⟨base, rest, way⟩ := ways target member
    exact settles_restore sound straight (way.of_opens (fun _ => id) rfl) found
      (records.of_held held)
  obtain ⟨pending₃, _⟩ := Restoration.settles_mapM settles trivial pending back whole
  obtain ⟨held', forgot⟩ := forM_forget files s₃
  exact ⟨_, forgot, pending₃.tree.same sound fun _ => id⟩

end InMemory

end Layering
