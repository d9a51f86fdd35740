import Layering.Proofs.Effects
import Layering.Snapshot.Strategy

/-!
# Restoring files

One file after another is brought back. What is restored already stays restored: whatever is done
for another file changes no entry that is as before, because the directories that it makes were
there before, and what it removes was not.
-/

namespace Layering

/-- An entry is as before: nothing, or a file with the same bytes and, where modes are kept, with
the same mode. -/
inductive Restored (modes : Bool) : Option Entry → Option Entry → Prop
  | absent : Restored modes none none
  | file (bytes : Bytes) {mode mode' : Nat} (same : modes = true → mode' = mode) :
    Restored modes (some (.file bytes mode)) (some (.file bytes mode'))

theorem Restored.ne_directory {modes : Bool} {old new : Option Entry}
    (h : Restored modes old new) : new ≠ some .directory := by
  cases h <;> nofun

namespace Site

variable {modes : Bool} {before s s' s'' : Site} {p target : Path} {bytes : Bytes} {mode : Nat}

/-- What was restored is still restored. -/
def Spares (modes : Bool) (before s s' : Site) : Prop :=
  ∀ m, Restored modes (before.tree.at? m) (s.tree.at? m) →
    Restored modes (before.tree.at? m) (s'.tree.at? m)

theorem Spares.refl (modes : Bool) (before s : Site) : Spares modes before s s := fun _ => id

theorem Spares.trans (first : Spares modes before s s') (second : Spares modes before s' s'') :
    Spares modes before s s'' := fun m restored => second m (first m restored)

/-- Directories that are made above a file that was there before spare what is restored. -/
theorem spares_of_made (there : before.read target = .ok (bytes, mode))
    (start : s.start target = before.start target)
    (entries : ∀ m, Restored modes (before.tree.at? m) (s.tree.at? m) →
      s'.tree.at? m = s.tree.at? m ∨
      (s.tree.at? m = none ∧ s'.tree.at? m = some .directory ∧
        ∃ k, m = Location.walk (s.start target) (target.parent.names.take k)) ∨
      Restored modes (before.tree.at? m) (s'.tree.at? m)) :
    Spares modes before s s' := by
  obtain ⟨way, entry⟩ := read_eq_ok.mp there
  intro m restored
  rcases entries m restored with same | ⟨absent, _, k, passed⟩ | whole
  · rwa [same]
  · have kept := Tree.at?_of_take way (by rw [← entryAt, entry]; simp)
      (min k (target.names.length - 1))
    rw [absent] at restored
    rw [passed, start, Path.parent, List.dropLast_eq_take, List.take_take] at restored
    cases was : before.tree.at? ((before.start target).walk
        (target.names.take (min k (target.names.length - 1)))) with
    | none => exact absurd was kept
    | some e => rw [was] at restored; cases restored
  · exact whole

theorem spares_of_grows (there : before.read target = .ok (bytes, mode))
    (start : s.start target = before.start target) (grows : Grows s s' target.parent) :
    Spares modes before s s' := by
  refine spares_of_made there start fun m _ => ?_
  rcases grows.entries m with same | ⟨absent, made, k, way⟩
  · exact .inl same
  · exact .inr (.inl ⟨absent, made, k, Tree.eq_walk_of_follow way⟩)

/-- Writing what was there before spares what is restored. -/
theorem spares_of_writes (there : before.read target = .ok (bytes, mode))
    (start : s.start target = before.start target) (writes : Writes s s' target bytes) :
    Spares modes before s s' := by
  refine spares_of_made there start fun m restored => ?_
  by_cases here : m = s.location target
  · refine .inr (.inr ?_)
    have was : before.tree.at? m = some (.file bytes mode) := by
      rw [here, location, start]
      exact (read_eq_ok.mp there).2
    rw [was] at restored ⊢
    rw [here, writes.written, ← here]
    cases entry : s.tree.at? m with
    | none => rw [entry] at restored; cases restored
    | some e =>
      rw [entry] at restored
      cases restored with
      | file _ same =>
        refine .file bytes fun kept => ?_
        rw [modeAt, entry]
        exact same kept
  · rcases writes.others m here with same | made
    · exact .inl same
    · exact .inr (.inl made)

/-- No file is new or changed, except at one location. -/
structure Touches (s s' : Site) (l : Location) : Prop where
  beside : s' = { s with tree := s'.tree }
  sound : s.tree.Sound → s'.tree.Sound
  files : ∀ m ≠ l, ∀ bytes mode, s'.tree.at? m = some (.file bytes mode) →
    s.tree.at? m = some (.file bytes mode)

namespace Touches

variable {l : Location}

theorem refl (s : Site) (l : Location) : Touches s s l := ⟨rfl, id, fun _ _ _ _ => id⟩

theorem trans (first : Touches s s' l) (second : Touches s' s'' l) : Touches s s'' l where
  beside := by rw [second.beside, first.beside]
  sound sound := second.sound (first.sound sound)
  files m other bytes mode file := first.files m other bytes mode
    (second.files m other bytes mode file)

theorem of_grows (grows : Grows s s' p) (l : Location) : Touches s s' l where
  beside := grows.beside
  sound := grows.sound
  files m _ bytes mode file := by
    rcases grows.entries m with same | ⟨_, made, _⟩
    · exact same ▸ file
    · exact nomatch made.symm.trans file

theorem of_writes (writes : Writes s s' p bytes) : Touches s s' (s.location p) where
  beside := writes.beside
  sound := writes.sound
  files m other bytes mode file := by
    rcases writes.others m other with same | ⟨_, made, _⟩
    · exact same ▸ file
    · exact nomatch made.symm.trans file

theorem of_prunes {stop way : Location} (prunes : Action.Prunes s s' stop way) (l : Location) :
    Touches s s' l where
  beside := prunes.beside
  sound := prunes.sound
  files m _ bytes mode file := by
    rcases prunes.entries m with same | ⟨_, gone, _⟩
    · exact same ▸ file
    · exact nomatch gone.symm.trans file

/-- A file that is put in its place. -/
theorem of_file (inner : l ≠ []) (parent : s.tree.at? l.dropLast = some .directory)
    (leaf : s.tree.at? l ≠ some .directory) (bytes : Bytes) (mode : Nat) :
    Touches s (s.insert l (.file bytes mode)) l := by
  refine ⟨rfl, fun sound => sound.insert parent inner fun made => absurd made leaf, ?_⟩
  intro m other _ _ file
  rwa [at?_insert inner, if_neg other] at file

/-- A file that takes another mode. -/
theorem of_mode {old : Nat} (there : s.tree.at? l = some (.file bytes old)) (mode : Nat) :
    Touches s (s.insert l (.file bytes mode)) l := by
  have inner : l ≠ [] := by
    rintro rfl
    exact nomatch there
  refine ⟨rfl, fun sound => ?_, fun m other _ _ file => ?_⟩
  · refine sound.insert ?_ inner fun made => nomatch there.symm.trans made
    refine sound.above (by rw [there]; nofun) (List.dropLast_prefix l) fun same => inner ?_
    have := congrArg List.length same
    rw [List.length_dropLast] at this
    exact List.length_eq_zero_iff.mp (by omega)
  · rwa [at?_insert inner, if_neg other] at file

end Touches

/-- A file that was removed, if it was there. -/
def Clears (s s' : Site) (p : Path) : Prop :=
  s' = s ∧ (∃ q, s.withoutFile p = .error (.notFound q)) ∨
    s' = s.erase (s.location p) ∧ s.location p ≠ [] ∧
      ∃ bytes mode, s.entryAt p = some (.file bytes mode)

namespace Clears

theorem touches (h : Clears s s' p) : Touches s s' (s.location p) := by
  rcases h with ⟨rfl, _⟩ | ⟨rfl, inner, bytes, mode, entry⟩
  · exact .refl ..
  · refine ⟨rfl, fun sound => Action.sound_erase_file sound inner entry, ?_⟩
    intro m other _ _ file
    rwa [at?_erase inner, if_neg other] at file

theorem other (h : Clears s s' p) {m : Location} (other : m ≠ s.location p) :
    s'.tree.at? m = s.tree.at? m := by
  rcases h with ⟨rfl, _⟩ | ⟨rfl, inner, _⟩
  · rfl
  · rw [at?_erase inner, if_neg other]

theorem entryAt (h : Clears s s' p) (sound : s.tree.Sound) (firm : s.Firm p) :
    s'.tree.at? (s.location p) = none := by
  rcases h with ⟨rfl, q, missing⟩ | ⟨rfl, inner, _⟩
  · exact Action.entryAt_of_withoutFile_notFound sound firm missing
  · rw [at?_erase inner, if_pos rfl]

/-- Nothing becomes something else. -/
theorem gone (h : Clears s s' p) (m : Location) :
    s'.tree.at? m = s.tree.at? m ∨ m = s.location p ∧ s'.tree.at? m = none ∧
      ∃ bytes mode, s.tree.at? m = some (.file bytes mode) := by
  rcases h with ⟨rfl, _⟩ | ⟨rfl, inner, there⟩
  · exact .inl rfl
  · rw [at?_erase inner]
    split
    next here => exact .inr ⟨here, rfl, here ▸ there⟩
    next => exact .inl rfl

end Clears

end Site

namespace Action

open Site

theorem deleteFile_clears (p : Path) (s : Site) :
    (∃ s', deleteFile p s = (.ok (), s') ∧ Clears s s' p) ∨
      ∃ f, deleteFile p s = (.error (.fault f), s) := by
  rcases deleteFile_cases p s with ⟨run, missing⟩ | ⟨run, inner, there⟩ | ⟨f, run⟩
  · exact .inl ⟨s, run, .inl ⟨rfl, missing⟩⟩
  · exact .inl ⟨_, run, .inr ⟨rfl, inner, there⟩⟩
  · exact .inr ⟨f, run⟩

theorem clears_of_deleteFile {p : Path} {s s' : Site} (run : deleteFile p s = (.ok (), s')) :
    Clears s s' p := by
  rcases deleteFile_clears p s with ⟨_, run', clears⟩ | ⟨f, stuck⟩
  · cases run'.symm.trans run
    exact clears
  · cases stuck.symm.trans run

/-- A file takes the mode of another one, or that fails. -/
theorem copyMode_cases {bytes : Bytes} {old : Nat} (source : Path) {target : Path} {s : Site}
    (there : s.entryAt target = some (.file bytes old)) :
    (∃ copied mode, s.read source = .ok (copied, mode) ∧ copyMode source target s =
      (.ok (), s.insert (s.location target) (.file bytes mode))) ∨
    ∃ f, copyMode source target s = (.error (.fault f), s) := by
  unfold copyMode
  rw [bind_apply]
  simp only [askFault, ask_apply]
  cases read : s.read source with
  | error f => exact .inr ⟨f, rfl⟩
  | ok copied =>
    obtain ⟨copied, mode⟩ := copied
    simp only [Except.mapError, change, withMode]
    cases way : s.locate target with
    | error o => exact .inr ⟨_, rfl⟩
    | ok l =>
      rw [entryAt, ← eq_location_of_locate way] at there
      rw [← eq_location_of_locate way]
      simp only [there]
      exact .inl ⟨copied, mode, rfl, rfl⟩

end Action

namespace Restoration

open Site

variable {modes : Bool} {before s s' : Site} {target : Path} {copy : Option Path}
variable {restore : Action Restoration} {r : Restoration} {f : Fault}

theorem orFault_ok {r : Restoration} {s' : Site} (run : restore s = (.ok r, s')) :
    orFault target copy restore s = (.ok r, s') := by
  unfold orFault
  rw [Action.bind_apply, Action.attempt_apply, run]
  rfl

theorem orFault_fault (run : restore s = (.error (.fault f), s')) :
    orFault target copy restore s = (.ok ⟨target, copy, false, f.message⟩, s') := by
  unfold orFault
  rw [Action.bind_apply, Action.attempt_apply, run]
  rfl

/-- What is true of the restoration of one file: it is reported as a success only if the file is as
before, and it spares what is restored already. -/
structure Restores (modes : Bool) (before s : Site) (target : Path)
    (ended : Except Failure Restoration × Site) : Prop where
  touches : Touches s ended.2 (s.location target)
  spares : Spares modes before s ended.2
  answer : ∃ r, ended.1 = .ok r ∧ r.target = target ∧ (r.success = true →
    Restored modes (before.tree.at? (s.location target)) (ended.2.tree.at? (s.location target)))

theorem Restores.of_failure (touches : Touches s s' (s.location target))
    (spares : Spares modes before s s') (message : Text) :
    Restores modes before s target (.ok ⟨target, copy, false, message⟩, s') :=
  ⟨touches, spares, _, rfl, rfl, nofun⟩

/-- A restoration may be replaced by one that does the same at this site. -/
theorem Restores.congr {other : Action Restoration} (same : restore s = other s)
    (h : Restores modes before s target (orFault target copy other s)) :
    Restores modes before s target (orFault target copy restore s) := by
  unfold orFault at h ⊢
  rw [Action.bind_apply, Action.attempt_apply] at h ⊢
  rwa [same]

theorem Restores.of_fault (same : restore s = (.error (.fault f), s)) :
    Restores modes before s target (orFault target copy restore s) := by
  rw [orFault_fault same]
  exact .of_failure (.refl ..) (Spares.refl modes before s) _

/-- Removing a file and the empty directories above it up to a stop works, unless the file cannot be
removed. -/
theorem removal_cases (stop target : Path) (s : Site) :
    (∃ s', Clears s s' target ∧ (do
      Action.deleteFile target
      Action.pruneUpTo stop target.parent
      pure (removed target) : Action Restoration) s =
        (.ok (removed target), (Action.pruneUpTo stop target.parent s').2)) ∨
    ∃ f, (do
      Action.deleteFile target
      Action.pruneUpTo stop target.parent
      pure (removed target) : Action Restoration) s = (.error (.fault f), s) := by
  simp only [Action.bind_apply]
  rcases Action.deleteFile_clears target s with ⟨s', run, clears⟩ | ⟨f, run⟩
  · refine .inl ⟨s', clears, ?_⟩
    rw [run]
    simp only
    rw [Action.pruneUpTo_apply]
    rfl
  · exact .inr ⟨f, by rw [run]⟩

/-- Removing what was absent restores it. -/
theorem restores_absent (sound : s.tree.Sound) (straight : upName ∉ s.workingDirectory)
    (forward : upName ∉ target.names) (absent : before.tree.at? (s.location target) = none)
    (stop : Path) :
    Restores modes before s target (orFault target copy (do
      Action.deleteFile target
      Action.pruneUpTo stop target.parent
      pure (removed target)) s) := by
  rcases removal_cases stop target s with ⟨s', clears, run⟩ | ⟨f, run⟩
  · rw [orFault_ok run]
    have straight' : upName ∉ s'.workingDirectory := by rwa [clears.touches.beside]
    have prunes := Action.prunes_pruneUpTo straight' stop target.parent
    have gone := clears.entryAt sound (firm_of_forward forward)
    refine ⟨clears.touches.trans (.of_prunes prunes _), ?_, _, rfl, rfl, fun _ => ?_⟩
    · intro m restored
      have cleared : Restored modes (before.tree.at? m) (s'.tree.at? m) := by
        rcases clears.gone m with same | ⟨rfl, none, _⟩
        · rwa [same]
        · rw [absent, none]
          exact .absent
      -- What is restored is no directory, so that pruning does not reach it.
      rcases prunes.entries m with same | ⟨directory, _⟩
      · rwa [same]
      · exact absurd directory cleared.ne_directory
    · rw [absent]
      rcases prunes.entries (s.location target) with same | ⟨directory, _⟩
      · rw [same, gone]
        exact .absent
      · exact nomatch gone.symm.trans directory
  · exact .of_fault run

theorem at?_of_read {bytes : Bytes} {mode : Nat} (there : before.read target = .ok (bytes, mode))
    (start : s.start target = before.start target) :
    before.tree.at? (s.location target) = some (.file bytes mode) := by
  rw [location, start]
  exact (read_eq_ok.mp there).2

/-- Writing what was there restores it, but for the mode. -/
theorem restores_contents {bytes : Bytes} {mode : Nat}
    (there : before.read target = .ok (bytes, mode))
    (start : s.start target = before.start target) :
    Restores false before s target (orFault target copy (do
      Action.writeBytes target bytes
      pure ⟨target, copy, true, []⟩) s) := by
  have was := at?_of_read there start
  rcases Action.writeBytes_cases target bytes s with ⟨s', run, writes⟩ | ⟨f, s', run, grows, _⟩
  · have ended : (do
        Action.writeBytes target bytes
        pure ⟨target, copy, true, []⟩ : Action Restoration) s =
        (.ok ⟨target, copy, true, []⟩, s') := Action.bind_of_ok run
    rw [orFault_ok ended]
    refine ⟨.of_writes writes, spares_of_writes there start writes, _, rfl, rfl, fun _ => ?_⟩
    rw [was, writes.written]
    exact .file bytes (by simp)
  · rw [orFault_fault (Action.bind_of_error run)]
    exact .of_failure (.of_grows grows _) (spares_of_grows there start grows) _

/-- Writing what was there and giving it the mode of a copy restores it, if the copy has the mode
that was there. -/
theorem restores_copy {source : Path} {bytes : Bytes} {mode : Nat}
    (there : before.read target = .ok (bytes, mode))
    (start : s.start target = before.start target)
    (copied : ∀ s', Writes s s' target bytes → ∀ bytes' mode',
      s'.read source = .ok (bytes', mode') → mode' = mode) :
    Restores true before s target (orFault target copy (do
      Action.writeBytes target bytes
      Action.copyMode source target
      pure ⟨target, copy, true, []⟩) s) := by
  have was := at?_of_read there start
  rcases Action.writeBytes_cases target bytes s with ⟨s', run, writes⟩ | ⟨f, s', run, grows, _⟩
  · have spares : Spares true before s s' := spares_of_writes there start writes
    have place := location_of_beside writes.beside target
    rcases Action.copyMode_cases source writes.file with ⟨bytes', mode', read, moded⟩ | ⟨f, stuck⟩
    · have ended : (do
          Action.writeBytes target bytes
          Action.copyMode source target
          pure ⟨target, copy, true, []⟩ : Action Restoration) s = (.ok ⟨target, copy, true, []⟩,
            s'.insert (s'.location target) (.file bytes mode')) :=
        (Action.bind_of_ok run).trans (Action.bind_of_ok moded)
      rw [orFault_ok ended]
      have same := copied s' writes bytes' mode' read
      subst same
      have inner : s'.location target ≠ [] := place ▸ writes.inner
      rw [place] at inner ⊢
      have now : (s'.insert (s.location target) (.file bytes mode')).tree.at? (s.location target) =
          some (.file bytes mode') := by rw [at?_insert inner, if_pos rfl]
      -- Writing brings the bytes back, and the copied mode is the one that the file had.
      refine ⟨(Touches.of_writes writes).trans (.of_mode writes.written mode'),
        spares.trans fun m restored => ?_, _, rfl, rfl, fun _ => ?_⟩
      · by_cases here : m = s.location target
        · rw [here, was, now]
          exact .file bytes fun _ => rfl
        · rwa [at?_insert inner, if_neg here]
      · rw [was, now]
        exact .file bytes fun _ => rfl
    · rw [orFault_fault ((Action.bind_of_ok run).trans (Action.bind_of_error stuck))]
      exact .of_failure (.of_writes writes) spares _
  · rw [orFault_fault (Action.bind_of_error run)]
    exact .of_failure (.of_grows grows _) (spares_of_grows there start grows) _

/-- What is true of the restoration of some files, one after another: those that are reported as
successes are as before when all of it is done. -/
structure RestoresAll (modes : Bool) (before s : Site) (files : List Path)
    (ended : Except Failure (List Restoration) × Site) : Prop where
  beside : ended.2 = { s with tree := ended.2.tree }
  spares : Spares modes before s ended.2
  answer : ∃ results, ended.1 = .ok results ∧ List.Forall₂ (fun target r => r.target = target ∧
    (r.success = true → Restored modes (before.tree.at? (s.location target))
      (ended.2.tree.at? (s.location target)))) files results

/-- What each restoration needs and keeps true makes all of them restore their files. -/
theorem restoresAll {restore : Path → Action Restoration} (Inv : Site → Prop) {files : List Path}
    (step : ∀ target ∈ files, ∀ s, Inv s → Restores modes before s target (restore target s))
    (kept : ∀ target ∈ files, ∀ s s', Inv s → Touches s s' (s.location target) → Inv s')
    (inv : Inv s) : RestoresAll modes before s files (files.mapM restore s) := by
  induction files generalizing s with
  | nil => exact ⟨rfl, Spares.refl modes before s, [], rfl, .nil⟩
  | cons target rest ih =>
    have first := step target List.mem_cons_self s inv
    obtain ⟨r, ended, same, success⟩ := first.answer
    have inv' := kept target List.mem_cons_self s _ inv first.touches
    have later := ih (fun t member => step t (List.mem_cons_of_mem _ member))
      (fun t member => kept t (List.mem_cons_of_mem _ member)) inv'
    obtain ⟨results, ended', all⟩ := later.answer
    have run : (target :: rest).mapM restore s =
        (.ok (r :: results), (rest.mapM restore (restore target s).2).2) :=
      Action.mapM_cons_apply (Prod.ext ended rfl) (Prod.ext ended' rfl)
    rw [run]
    refine ⟨by rw [later.beside, first.touches.beside], first.spares.trans later.spares,
      r :: results, rfl, .cons ⟨same, fun yes => later.spares _ (success yes)⟩ ?_⟩
    have places := location_of_beside first.touches.beside
    simpa only [places] using all

end Restoration

end Layering
