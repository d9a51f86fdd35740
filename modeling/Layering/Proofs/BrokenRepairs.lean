import Layering.Proofs.Accounts
import Layering.Proofs.CleanMemory
import Layering.Proofs.DeclaredStaging
import Layering.Proofs.DryRuns
import Layering.Proofs.Rollback

/-!
# Repairs that break off

When a repair by a bundled fixer fails part way and every file is said to be restored, the tree is as
it was before: what was made is gone, what was there is there, and no snapshot is left.
-/

namespace Layering

open Site

section Changed

variable {c : RepairContext} {v : Violation} {s : Site} {files : List Path} {f : Fixer}

/-- A fixer whose patches list declared files changes nothing else. -/
theorem Fixer.Offers.pending {offer : RepairContext → Violation → Site → Except Failure Proposal}
    (offers : f.Offers offer) (sound : s.tree.Sound) (declared : f.targets c v s = .ok files)
    (due : ∀ p, offer c v s = .ok (.patch p) → p.Due s ∧
      ∃ files, f.targets c v s = .ok files ∧ ∀ file ∈ p.files, file ∈ files) :
    s.Pending (f.repair c v s).2 fun m => ∃ file ∈ files, s.location file = m := by
  rw [offers c v s]
  rcases offered : offer c v s with e | ⟨reason | p⟩
  · exact .refl sound _
  · exact .refl sound _
  · obtain ⟨due, known, same, listed⟩ := due p offered
    cases declared.symm.trans same
    refine (due.pending sound c v).mono ?_
    rintro m ⟨file, member, at_⟩
    exact ⟨file, listed file member, at_⟩

theorem Fixer.pending_proposing {name description : Text} {priority : Int} {rules : List Text}
    {targets : RepairContext → Violation → Site → Except Failure (List Path)}
    {propose : RepairContext → Violation → Site → Except Failure Proposal}
    (sound : s.tree.Sound) (declared : targets c v s = .ok files)
    (due : ∀ p, propose c v s = .ok (.patch p) → p.Due s ∧
      ∃ files, targets c v s = .ok files ∧ ∀ file ∈ p.files, file ∈ files) :
    s.Pending ((proposing name description priority rules targets propose).repair c v s).2
      fun m => ∃ file ∈ files, s.location file = m := by
  refine (offers_proposing name description priority rules targets propose).pending sound declared ?_
  intro p offered
  split at offered
  · exact due p offered
  · cases offered

/-! A bundled fixer changes nothing but the files that it declares, with directories for them, however
its repair ends. -/

theorem Scaffolding.pending_repair (sound : s.tree.Sound)
    (declared : fixer.targets c v s = .ok files) :
    s.Pending (fixer.repair c v s).2 fun m => ∃ file ∈ files, s.location file = m := by
  refine Fixer.pending_proposing sound declared fun p offered => ?_
  obtain ⟨m, content, worked⟩ := propose_eq_patch offered
  exact ⟨due_patch worked, declared_patch worked⟩

theorem ReturnTypes.pending_repair (sound : s.tree.Sound)
    (ways : ∀ file, source? v s = .ok (some file) → s.exists? file = .ok true →
      ∃ base rest, s.Way file base rest)
    (declared : fixer.targets c v s = .ok files) :
    s.Pending (fixer.repair c v s).2 fun m => ∃ file ∈ files, s.location file = m := by
  refine Fixer.pending_proposing sound declared fun p offered => ?_
  obtain ⟨file, core, mapping, content, worked⟩ := propose_eq_patch offered
  obtain ⟨_, _, _, held, _⟩ := readText_eq_ok worked.read
  obtain ⟨base, rest, way⟩ := ways file worked.found (exists_of_read held)
  exact ⟨due_of_way way worked.read worked.patch, declared_patch worked⟩

theorem WrapperFiles.pending_repair (sound : s.tree.Sound)
    (ways : ∀ root, c.moduleOf s v = .ok root → ∃ base rest, s.Way root base rest)
    (declared : fixer.targets c v s = .ok files) :
    s.Pending (fixer.repair c v s).2 fun m => ∃ file ∈ files, s.location file = m := by
  refine Fixer.pending_proposing sound declared fun p offered => ?_
  obtain ⟨root, missing, hasDirectory, worked⟩ := propose_eq_patch offered
  obtain ⟨base, rest, way⟩ := ways root worked.module
  exact ⟨due_patch sound way worked, declared_patch worked⟩

theorem pending_of_bundled (sound : s.tree.Sound) (housed : s.Housed)
    (steady : s.Steady c.moduleRoot) (bundled : f ∈ bundledFixers)
    (declared : f.targets c v s = .ok files) :
    s.Pending (f.repair c v s).2 fun m => ∃ file ∈ files, s.location file = m := by
  simp only [bundledFixers, List.mem_cons, List.not_mem_nil, or_false] at bundled
  rcases bundled with rfl | rfl | rfl
  · exact Scaffolding.pending_repair sound declared
  · exact ReturnTypes.pending_repair sound
      (fun _ _ there => way_of_firm housed (firm_of_exists sound there)) declared
  · exact WrapperFiles.pending_repair sound
      (fun _ found => c.way_of_moduleOf sound housed steady found) declared

end Changed

/-- What a strategy needs to take back all that a repair did. Snapshots in a directory need a
project that has none, files that belong to it, and a violation that is about something else. -/
inductive Guarded (c : RepairContext) (v : Violation) (s : Site) (files : List Path) :
    SnapshotStrategy → Prop
  | staged (leads : s.LeadsToDirectory c.projectRoot)
    (bare : s.tree.at? (Staged.outer s c.projectRoot) = none)
    (visible : s.Visible (fun m => Staged.outer s c.projectRoot <+: m) (Path.ofText v.location))
    (belongs : ∀ target ∈ files, Staged.Belongs s c.projectRoot target) :
    Guarded c v s files (Staged.strategy Staged.standardDirectory)
  | inMemory : Guarded c v s files InMemory.strategy

section Undone

variable {c : RepairContext} {v : Violation} {s s₁ s₂ s₃ : Site} {files : List Path} {f : Fixer}
variable {strategy : SnapshotStrategy} {handle : SnapshotHandle} {restored : List Restoration}

/-- A path that is steady stays so as long as nothing goes that was there. -/
theorem Site.Steady.of_there {p : Path} (steady : s.Steady p) (opens : s.tree.Opens s₁.tree)
    (there : ∀ m, s.tree.at? m ≠ none → s₁.tree.at? m ≠ none)
    (place : s₁.workingDirectory = s.workingDirectory) : s₁.Steady p := by
  refine steady.imp_right fun found => ?_
  exact exists_of_opens opens (start_of_workingDirectory place p) found
    (there _ (locate_of_exists found).2)

/-- After the snapshot a bundled fixer declares the same files and is where it was. -/
structure Prepared (c : RepairContext) (v : Violation) (f : Fixer) (s₁ : Site)
    (files : List Path) : Prop where
  sound : s₁.tree.Sound
  housed : s₁.Housed
  steady : s₁.Steady c.moduleRoot
  declared : f.targets c v s₁ = .ok files

theorem prepared_of_hides {hidden : Location → Prop} (sound : s₁.tree.Sound) (housed : s.Housed)
    (steady : s.Steady c.moduleRoot) (bundled : f ∈ bundledFixers)
    (declared : f.targets c v s = .ok files) (hides : Hides hidden s s₁)
    (visible : s.Visible hidden (Path.ofText v.location)) : Prepared c v f s₁ files := by
  have there (m : Location) (entry : s.tree.at? m ≠ none) : s₁.tree.at? m = s.tree.at? m :=
    hides.beside m fun inside => entry (hides.bare m inside)
  have opens : s.tree.Opens s₁.tree := by
    intro m open_
    rw [there m (by simp [open_]), open_]
  refine ⟨sound, ?_, steady.of_there opens ?_ hides.place, ?_⟩
  · unfold Housed
    rw [hides.place]
    exact opens _ housed
  · intro m entry
    rwa [there m entry]
  · rw [targets_eq_of_hides hides visible f bundled, declared]

/-- What a bundled fixer did to files that were guarded is undone when all of them are restored. -/
theorem Guarded.undoes (guarded : Guarded c v s files strategy) (sound : s.tree.Sound)
    (housed : s.Housed) (written : s.tree.Written) (steady : s.Steady c.moduleRoot)
    (bundled : f ∈ bundledFixers) (declared : f.targets c v s = .ok files)
    (taken : strategy.backup files c.projectRoot s = (.ok handle, s₁))
    (back : strategy.rollback files c.projectRoot (f.repair c v s₁).2 = (.ok restored, s₃))
    (whole : ∀ r ∈ restored, r.success = true) :
    ∃ s₄, strategy.cleanup files c.projectRoot s₃ = (.ok (), s₄) ∧
      ∀ m, s₄.tree.at? m = s.tree.at? m := by
  have ways := way_of_declared sound housed written steady bundled declared
  have changed (prepared : Prepared c v f s₁ files) :=
    pending_of_bundled prepared.sound prepared.housed prepared.steady bundled prepared.declared
  -- The two strategies keep their records apart from the project: staged beside it, or in
  -- memory. In both the repair starts from a site that looks as before.
  cases guarded with
  | staged leads bare visible belongs =>
    have clean : Staged.Clean s c.projectRoot := ⟨housed.written written, sound, leads, bare⟩
    have suits : ∀ target ∈ files, Staged.Suits s c.projectRoot target :=
      fun target member => ⟨belongs target member, ways target member⟩
    have separate :=
      Staged.separate_of_declared bundled clean housed steady declared suits taken
    obtain ⟨pending, _⟩ := clean.records_backup suits taken
    have prepared := prepared_of_hides pending.sound housed steady bundled declared
      (clean.hides suits taken) visible
    exact clean.undoes suits separate taken (changed prepared) back whole
  | inMemory =>
    have straight : upName ∉ s.workingDirectory := (housed.written written).straight
    obtain ⟨beside, _⟩ := InMemory.records_backup c.projectRoot sound straight ways taken
    have same : s₁.tree = s.tree := by rw [beside]
    have hides : Hides (fun _ => False) s s₁ := by
      refine ⟨by rw [beside], fun m _ => by rw [same], nofun, fun _ => id, nofun⟩
    have prepared := prepared_of_hides (same ▸ sound) housed steady bundled declared hides nofun
    exact InMemory.undoes c.projectRoot sound straight ways taken (changed prepared) back whole

end Undone

/-- An action that breaks off in a transaction fails as it does by itself, once its files are
restored and the snapshot is discarded. -/
theorem Transaction.run_of_broken {α : Type} {t : Transaction} (enabled : t.enabled = true)
    (accepts : α → Bool) {action : Action α} {s s₁ s₂ s₃ s₄ : Site} {handle : SnapshotHandle}
    {e : Failure} {restored : List Restoration}
    (taken : t.strategy.backup t.files t.project s = (.ok handle, s₁))
    (raised : action s₁ = (.error e, s₂))
    (back : t.strategy.rollback t.files t.project s₂ = (.ok restored, s₃))
    (whole : ∀ r ∈ restored, r.success = true)
    (discarded : t.strategy.cleanup t.files t.project s₃ = (.ok (), s₄)) :
    t.run accepts action s = (⟨.error e, restored⟩, s₄) := by
  have begun : t.begin s = (.ok { t with handle := some handle, isActive := true }, s₁) := by
    unfold begin
    rw [if_pos enabled, Action.bind_apply, taken]
    rfl
  have all : restored.all (·.success) = true := List.all_eq_true.mpr whole
  -- The handle is what makes the transaction active, and the rollback with every file restored
  -- is followed by the cleanup.
  have undone : rollback { t with handle := some handle, isActive := true } s₂ =
      (⟨.ok restored, restored⟩, s₄) := by
    unfold rollback
    simp only [enabled, Bool.and_self, if_true, StateM.bind_apply, ExceptT.run, back, all,
      discarded]
    rfl
  unfold run
  simp only [StateM.bind_apply, ExceptT.run, begun, raised]
  unfold finish
  rw [isGood, if_neg Bool.false_ne_true, StateM.bind_apply, undone]
  rfl

namespace Remediation

/-- A repair breaks off after its files were guarded, and every file is said to be restored. -/
inductive BreaksOff (r : Remediation) (c : RepairContext) (v : Violation) (f : Fixer) (s : Site)
    (files : List Path) : Prop
  | intro {s₁ s₂ s₃ : Site} {handle : SnapshotHandle} {e : Failure} {restored : List Restoration}
    (declared : f.targets c v s = .ok files)
    (taken : r.strategy.backup files c.projectRoot s = (.ok handle, s₁))
    (raised : f.repair c v s₁ = (.error e, s₂))
    (back : r.strategy.rollback files c.projectRoot s₂ = (.ok restored, s₃))
    (whole : ∀ x ∈ restored, x.success = true) : BreaksOff r c v f s files

variable {r : Remediation} {c : RepairContext} {v : Violation} {f : Fixer} {s : Site}
variable {files : List Path}

/-- A bundled fixer that fails part way leaves the tree as it found it, if every file is said to be
restored, and its violation is reported as failed with no file changed. -/
theorem broken_repair_undone (full : c.dryRun = false) (sound : s.tree.Sound) (housed : s.Housed)
    (written : s.tree.Written) (steady : s.Steady c.moduleRoot) (bundled : f ∈ bundledFixers)
    (guarded : Guarded c v s files r.strategy) (breaks : r.BreaksOff c v f s files) :
    ∃ o s', r.repair c v f s = (o, s') ∧ o.status = .failed ∧ o.modified = [] ∧
      ∀ m, s'.tree.at? m = s.tree.at? m := by
  obtain @⟨s₁, s₂, s₃, handle, e, restored, declared, taken, raised, back, whole⟩ := breaks
  have back' : r.strategy.rollback files c.projectRoot (f.repair c v s₁).2 = (.ok restored, s₃) := by
    rw [raised, back]
  obtain ⟨s₄, discarded, same⟩ :=
    guarded.undoes sound housed written steady bundled declared taken back' whole
  have ran := Transaction.run_of_broken (t := r.guard c files) (by simp [guard, full]) accepts
    taken raised back whole discarded
  refine ⟨.failed v (complaint v f e), (r.say .error (complaint v f e) s₄).2, ?_, rfl, rfl, ?_⟩
  · unfold repair
    rw [StateM.bind_apply, StateM.get_apply]
    simp only [declared]
    rw [StateM.bind_apply, ran]
    rfl
  · -- Telling of the failure changes no file.
    intro m
    obtain ⟨said, known⟩ := untouched_say r .error (complaint v f e) s₄
    rw [known]
    exact same m

/-- Whether a repair breaks off can be seen by running it. -/
theorem breaksOff_of_run (declared : f.targets c v s = .ok files)
    (taken : (r.strategy.backup files c.projectRoot s).1.isOk = true)
    (raised : (f.repair c v (r.strategy.backup files c.projectRoot s).2).1.isOk = false)
    (whole : (r.strategy.rollback files c.projectRoot
      (f.repair c v (r.strategy.backup files c.projectRoot s).2).2).1.toOption.map
        (·.all (·.success)) = some true) : r.BreaksOff c v f s files := by
  rcases ran : r.strategy.backup files c.projectRoot s with ⟨e | handle, s₁⟩
  · rw [ran] at taken
    cases taken
  rw [ran] at raised whole
  simp only at raised whole
  -- Three runs one after the other, of which the first and the last succeed and the second
  -- raises.
  rcases ran' : f.repair c v s₁ with ⟨e | o, s₂⟩
  · rw [ran'] at whole
    simp only at whole
    rcases ran'' : r.strategy.rollback files c.projectRoot s₂ with ⟨e' | restored, s₃⟩
    · rw [ran''] at whole
      cases whole
    · rw [ran''] at whole
      exact .intro declared ran ran' ran'' (List.all_eq_true.mp (Option.some.inj whole))
  · rw [ran'] at raised
    cases raised

end Remediation

/-- A project that is an empty directory. -/
def emptyProject : Site := { tree := (∅ : Tree).insert ["p".toList] .directory }

/-- The wrapper is installed in part: there is no room for its second file. -/
theorem Remediation.broken_wrapper_undone :
    let r : Remediation := { table := {}, strategy := Staged.strategy Staged.standardDirectory }
    let c : RepairContext := { projectRoot := "/p", moduleRoot := "/p", full := ["/p/mvnw.cmd"] }
    let v := missingWrapperAt "/p"
    let files := Wrapper.files.map (WrapperFiles.place "/p")
    Guarded c v emptyProject files r.strategy ∧
      r.BreaksOff c v WrapperFiles.fixer emptyProject files ∧
      ∃ o s', r.repair c v WrapperFiles.fixer emptyProject = (o, s') ∧ o.status = .failed ∧
        o.modified = [] ∧ ∀ m, s'.tree.at? m = emptyProject.tree.at? m := by
  intro r c v files
  have sound : emptyProject.tree.Sound := Tree.sound_empty.insert rfl (by simp) fun _ => rfl
  have written : emptyProject.tree.Written := Tree.written_empty.insert (by decide) _
  have plain : ∀ target ∈ files, target.Plain := by decide
  have single : ∀ target ∈ files, ∀ name ∈ target.names, '\r' ∉ name := by decide
  have inside : ∀ target ∈ files, emptyProject.location target =
      emptyProject.location c.projectRoot ++ target.names.drop 1 ∧ target.names.drop 1 ≠ [] := by
    decide
  have beside : ∀ target ∈ files, ¬Staged.outer emptyProject c.projectRoot <+:
      emptyProject.location target := by decide
  have belongs : ∀ target ∈ files, Staged.Belongs emptyProject c.projectRoot target :=
    fun target member => ⟨plain target member, single target member,
      ⟨_, (inside target member).2, (inside target member).1⟩, beside target member⟩
  have guarded : Guarded c v emptyProject files r.strategy :=
    .staged ⟨by decide, by decide⟩ (by decide)
      (Visible.of_forward (by decide) (by decide)) belongs
  have breaks : r.BreaksOff c v WrapperFiles.fixer emptyProject files := by
    delta WrapperFiles.fixer WrapperFiles.targets WrapperFiles.propose
    simp only [RepairContext.moduleOf_eq_above]
    exact breaksOff_of_run rfl (by decide +kernel) (by decide +kernel) (by decide +kernel)
  exact ⟨guarded, breaks, broken_repair_undone rfl sound rfl written (.inl (by decide))
    (by simp [bundledFixers]) guarded breaks⟩

/-- A file of the wrapper that is there is not found by way of a missing directory. An installation
that breaks off takes it for one that was made, and it goes with the others. -/
theorem Remediation.broken_wrapper_removes_file :
    let r : Remediation := { table := {}, strategy := InMemory.strategy }
    let c : RepairContext := { roundabout with full := ["/w/a/../m/mvnw.cmd"] }
    let v := missingWrapperAt "/w/x"
    let files := Wrapper.files.map (WrapperFiles.place "/w/a/../m")
    let place := partlyWrapped.location (WrapperFiles.place "/w/a/../m" Wrapper.properties)
    c.dryRun = false ∧ partlyWrapped.tree.Sound ∧ partlyWrapped.Housed ∧
      partlyWrapped.tree.Written ∧ Guarded c v partlyWrapped files r.strategy ∧
      r.BreaksOff c v WrapperFiles.fixer partlyWrapped files ∧
      (partlyWrapped.tree.at? place).isSome = true ∧
      (r.repair c v WrapperFiles.fixer partlyWrapped).2.tree.at? place = none := by
  intro r c v files place
  have written : partlyWrapped.tree.Written := by
    refine Tree.Written.insert ?_ (by decide) _
    refine Tree.Written.insert ?_ (by decide) _
    refine Tree.Written.insert ?_ (by decide) _
    refine Tree.Written.insert ?_ (by decide) _
    exact Tree.written_empty.insert (by decide) _
  have breaks : r.BreaksOff c v WrapperFiles.fixer partlyWrapped files := by
    delta WrapperFiles.fixer WrapperFiles.targets WrapperFiles.propose
    simp only [RepairContext.moduleOf_eq_above]
    exact breaksOff_of_run rfl (by decide +kernel) (by decide +kernel) (by decide +kernel)
  have gone : (r.repair c v WrapperFiles.fixer partlyWrapped).2.tree.at? place = none := by
    delta WrapperFiles.fixer WrapperFiles.targets WrapperFiles.propose
    simp only [RepairContext.moduleOf_eq_above]
    decide +kernel
  exact ⟨rfl, sound_partlyWrapped, rfl, written, .inMemory, breaks, by decide, gone⟩

end Layering
