import Layering.Proofs.Restoring
import Layering.Snapshot.InMemory

/-!
# What is remembered in memory

Every file of a snapshot is remembered as it was. Two paths of one location share what is remembered
of it, so that the last one taken stands for both.
-/

namespace Layering

/-- What is remembered of a file is what it was. -/
inductive Held.Tells (before : Site) (target : Path) : Held → Prop
  | contents {bytes : Bytes} {mode : Nat} (read : before.read target = .ok (bytes, mode)) :
    Tells before target (.contents bytes)
  | absent {ancestor : Path} (forward : upName ∉ target.names)
    (missing : before.entryAt target = none) : Tells before target (.absent ancestor)

namespace InMemory

variable {before s : Site} {target other : Path} {files : List Path} {held : Held}
variable {taken : List (Path × Held)}

theorem tells_of_take (sound : before.tree.Sound) (steady : before.Steady target)
    (done : take before target = .ok held) : held.Tells before target := by
  unfold take at done
  cases there : before.exists? target with
  | error f => rw [there] at done; exact nomatch done
  | ok is =>
    rw [there] at done
    cases is with
    | true =>
      cases read : before.read target with
      | error f => simp [Site.readBytes, read, Except.mapError, bind, Except.bind, Except.map] at done
      | ok was =>
        simp only [Site.readBytes, read, Except.mapError, bind, Except.bind, Except.map] at done
        cases done
        exact .contents read
    | false =>
      have forward := steady.resolve_right (by rw [there]; nofun)
      cases above : before.nearestAncestor target with
      | error f => simp [above, Except.mapError, bind, Except.bind] at done
      | ok ancestor =>
        simp only [above, Except.mapError, bind, Except.bind] at done
        cases done
        exact .absent forward ((steady.firm sound).entryAt_of_not_exists sound there)

/-- What is remembered of one path is true of every other path of its location. -/
theorem tells_congr {held' : Held} (tells : held.Tells before target)
    (tells' : held'.Tells before other) (same : before.location other = before.location target) :
    held'.Tells before target := by
  have entries : before.entryAt other = before.entryAt target := congrArg before.tree.at? same
  cases tells with
  | contents read =>
    have was := (Site.read_eq_ok.mp read).2
    cases tells' with
    | contents read' =>
      have was' := (Site.read_eq_ok.mp read').2
      rw [entries, was] at was'
      cases was'
      exact .contents read
    | absent _ missing => exact nomatch (was.symm.trans entries.symm).trans missing
  | absent forward missing =>
    cases tells' with
    | contents read' =>
      have was' := (Site.read_eq_ok.mp read').2
      exact nomatch (missing.symm.trans entries.symm).trans was'
    | absent => exact .absent forward missing

theorem mem_of_mapM {α β : Type} {f : α → Except Failure β} {xs : List α} {ys : List β}
    (all : xs.mapM f = .ok ys) :
    (∀ x ∈ xs, ∃ y ∈ ys, f x = .ok y) ∧ ∀ y ∈ ys, ∃ x ∈ xs, f x = .ok y := by
  induction xs generalizing ys with
  | nil =>
    cases all
    exact ⟨nofun, nofun⟩
  | cons x rest ih =>
    rw [List.mapM_cons] at all
    cases first : f x with
    | error e => simp [first, bind, Except.bind] at all
    | ok y =>
      cases others : rest.mapM f with
      | error e => simp [first, others, bind, Except.bind] at all
      | ok more =>
        simp only [first, others, bind, Except.bind, pure, Except.pure] at all
        cases all
        obtain ⟨left, right⟩ := ih others
        constructor
        · refine List.forall_mem_cons.mpr ⟨⟨y, List.mem_cons_self, first⟩, fun x' member => ?_⟩
          obtain ⟨y', listed, done⟩ := left x' member
          exact ⟨y', List.mem_cons_of_mem _ listed, done⟩
        · refine List.forall_mem_cons.mpr ⟨⟨x, List.mem_cons_self, first⟩, fun y' member => ?_⟩
          obtain ⟨x', listed, done⟩ := right y' member
          exact ⟨x', List.mem_cons_of_mem _ listed, done⟩

theorem take_of_pair {x : Path × Held}
    (done : (take s target).map (fun held => (target, held)) = .ok x) :
    x.1 = target ∧ take s target = .ok x.2 := by
  cases first : take s target with
  | error e => rw [first] at done; exact nomatch done
  | ok held =>
    rw [first] at done
    cases done
    exact ⟨rfl, rfl⟩

/-- After putting, a key has what was put last under it, or what it had. -/
theorem get?_foldl_put (s : Site) (key : Path) (taken entries : List (Path × Held)) :
    let after := taken.foldl (fun held x => Entries.put (s.resolve x.1) x.2 held) entries
    (∃ x ∈ taken, s.resolve x.1 = key ∧ Entries.get? key after = some x.2) ∨
      (∀ x ∈ taken, s.resolve x.1 ≠ key) ∧ Entries.get? key after = Entries.get? key entries := by
  induction taken generalizing entries with
  | nil => exact .inr ⟨nofun, rfl⟩
  | cons first rest ih =>
    rcases ih (Entries.put (s.resolve first.1) first.2 entries) with
      ⟨x, member, same, found⟩ | ⟨others, found⟩
    · exact .inl ⟨x, List.mem_cons_of_mem _ member, same, found⟩
    · rw [Entries.get?_put] at found
      by_cases same : s.resolve first.1 = key
      · refine .inl ⟨first, List.mem_cons_self, same, ?_⟩
        simpa [same] using found
      · refine .inr ⟨List.forall_mem_cons.mpr ⟨same, others⟩, ?_⟩
        simpa [same] using found

/-- A snapshot holds of each of its files what was taken of it, or of another path of the same
place. -/
theorem backup_takes (project : Path) {handle : SnapshotHandle} {s' : Site}
    (done : backup files project s = (.ok handle, s')) :
    s' = { s with held := s'.held } ∧ (∀ target ∈ files, ∃ held, take s target = .ok held) ∧
      ∀ target ∈ files, ∃ other ∈ files, ∃ held, s.resolve other = s.resolve target ∧
        Entries.get? (s.resolve target) s'.held = some held ∧ take s other = .ok held := by
  unfold backup at done
  rw [Action.bind_apply, Action.ask_apply] at done
  cases all : takeAll s files with
  | error e => rw [all] at done; exact nomatch done
  | ok taken =>
    simp only [all] at done
    rw [Action.bind_apply, Action.modify_apply] at done
    cases done
    obtain ⟨every, only⟩ := mem_of_mapM all
    refine ⟨rfl, fun target member => ?_, fun target member => ?_⟩
    · obtain ⟨own, _, done⟩ := every target member
      exact ⟨own.2, (take_of_pair done).2⟩
    · obtain ⟨own, listed, done⟩ := every target member
      obtain ⟨rfl, _⟩ := take_of_pair done
      rcases get?_foldl_put s (s.resolve own.1) taken s.held with
        ⟨x, other, same, found⟩ | ⟨others, _⟩
      · obtain ⟨path, named, done'⟩ := only x other
        obtain ⟨rfl, first⟩ := take_of_pair done'
        exact ⟨x.1, named, x.2, same, found, first⟩
      · exact absurd rfl (others own listed)

/-- A snapshot remembers of each of its files what it was. -/
theorem backup_remembers (project : Path) {handle : SnapshotHandle} {s' : Site}
    (straight : upName ∉ s.workingDirectory) (sound : s.tree.Sound)
    (steady : ∀ target ∈ files, s.Steady target)
    (done : backup files project s = (.ok handle, s')) :
    s' = { s with held := s'.held } ∧ ∀ target ∈ files, ∃ held,
      Entries.get? (s.resolve target) s'.held = some held ∧ held.Tells s target := by
  obtain ⟨beside, own, all⟩ := backup_takes project done
  refine ⟨beside, fun target member => ?_⟩
  obtain ⟨held', first⟩ := own target member
  obtain ⟨other, named, held, same, found, taken⟩ := all target member
  rw [Site.resolve_eq straight, Site.resolve_eq straight] at same
  exact ⟨held, found, tells_congr (tells_of_take sound (steady target member) first)
    (tells_of_take sound (steady other named) taken) (Path.mk.inj same).2⟩

/-- What is remembered of a file restores it. -/
theorem restores_restore (sound : s.tree.Sound) (straight : upName ∉ s.workingDirectory)
    (place : s.workingDirectory = before.workingDirectory) (tells : held.Tells before target)
    (found : Entries.get? (s.resolve target) s.held = some held) :
    Restoration.Restores false before s target (restore target s) := by
  have start := Site.start_of_workingDirectory place target
  unfold restore
  rw [Action.bind_apply, Action.get_apply]
  simp only [found]
  cases tells with
  | contents read => exact Restoration.restores_contents read start
  | absent forward missing =>
    refine Restoration.restores_absent sound straight forward ?_ _
    rw [Site.location, start]
    exact missing

/-- Restoring what is remembered restores every file of which it says so. -/
theorem restoreAll_restores {remembered : List (Path × Held)} (written : upName ∉ before.workingDirectory)
    (each : ∀ target ∈ files, ∃ held,
      Entries.get? (before.resolve target) remembered = some held ∧ held.Tells before target)
    (place : s.workingDirectory = before.workingDirectory) (sound : s.tree.Sound)
    (held : s.held = remembered) :
    Restoration.RestoresAll false before s files (files.mapM restore s) := by
  refine Restoration.restoresAll (fun s' => s'.workingDirectory = before.workingDirectory ∧
    s'.tree.Sound ∧ s'.held = remembered) ?_ ?_ ⟨place, sound, held⟩
  · rintro target member s' ⟨place', sound', held'⟩
    obtain ⟨old, found, tells⟩ := each target member
    refine restores_restore sound' ?_ place' tells ?_
    · rwa [place']
    · rw [held', Site.resolve_of_workingDirectory place', found]
  · rintro target member s' s'' ⟨place', sound', held'⟩ touches
    exact ⟨by rw [touches.beside, place'], touches.sound sound', by rw [touches.beside, held']⟩

end InMemory

end Layering
