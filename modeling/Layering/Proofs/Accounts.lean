import Layering.Proofs.ExactPatches

/-!
# Accounts of repairs

A repair by a bundled fixer declares beforehand every file that it may change, and afterwards names
exactly those that are new or have other bytes.
-/

namespace Layering

namespace Site

/-- A site differs from the one before in the given files, which keep the modes that they had, in
directories on the way to them, and in messages. -/
structure Confined (before s : Site) (files : List Path) : Prop where
  place : s.workingDirectory = before.workingDirectory
  held : s.held = before.held
  renewed : ∀ m, before.Renewed s m → ∃ p ∈ files, before.location p = m
  kept : ∀ m bytes mode, before.tree.at? m = some (.file bytes mode) →
    ∃ bytes', s.tree.at? m = some (.file bytes' mode)
  opens : before.tree.Opens s.tree
  made : ∀ m, before.tree.at? m = none → s.tree.at? m = some .directory →
    ∃ p ∈ files, m <+: before.location p

variable {before s : Site}

theorem Confined.mono {files files' : List Path} (h : before.Confined s files)
    (more : ∀ p ∈ files, p ∈ files') : before.Confined s files' where
  place := h.place
  held := h.held
  renewed m here := by
    obtain ⟨p, listed, at_⟩ := h.renewed m here
    exact ⟨p, more p listed, at_⟩
  kept := h.kept
  opens := h.opens
  made m absent made := by
    obtain ⟨p, listed, part⟩ := h.made m absent made
    exact ⟨p, more p listed, part⟩

theorem Confined.refl (s : Site) (files : List Path) : s.Confined s files where
  place := rfl
  held := rfl
  renewed m := by
    rintro ⟨bytes, mode, file, new⟩
    exact absurd file (new mode)
  kept _ bytes _ file := ⟨bytes, file⟩
  opens _ := id
  made _ absent made := by cases absent.symm.trans made

theorem Pending.confined {files : List Path} (sound : before.tree.Sound)
    (h : Pending before s fun m => ∃ p ∈ files, before.location p = m) :
    before.Confined s files where
  place := h.place
  held := h.held
  renewed m := by
    rintro ⟨bytes, mode, file, new⟩
    -- What is new at a place that was empty, or that held another file, was written there, and
    -- only a due place is written.
    by_cases was : before.tree.at? m = none
    · exact h.tree.files m bytes mode was file
    · by_contra other
      rw [h.tree.kept_of_not_due was other] at file
      exact new mode file
  kept m bytes mode was := by
    rcases h.tree.kept m _ was with same | ⟨_, old, new, mode', same, file⟩
    · exact ⟨bytes, same⟩
    · cases same
      exact ⟨new, file⟩
  opens := h.tree.opens
  made m was made := by
    obtain ⟨l, ⟨p, listed, rfl⟩, part, _⟩ := h.tree.leads_of_directory sound was made
    exact ⟨p, listed, part⟩

end Site

/-- How the end of a repair stands to the files that were declared for it: nothing was done, or what
was changed is what the outcome says, or the repair broke off and only declared files were
changed. -/
inductive Accounted (declared : Except Failure (List Path)) (s : Site) :
    Except Failure Outcome × Site → Prop
  | skipped {o : Outcome} (status : o.status = .skipped) : Accounted declared s (.ok o, s)
  | fixed {o : Outcome} {s' : Site} {targets : List Path} (status : o.status = .fixed)
    (known : declared = .ok targets) (listed : ∀ p ∈ o.modified, p ∈ targets)
    (renewed : ∀ p ∈ o.modified, s.Renewed s' (s.location p))
    (confined : s.Confined s' o.modified) : Accounted declared s (.ok o, s')
  | raised {e : Failure} {s' : Site} {targets : List Path} (known : declared = .ok targets)
    (confined : s.Confined s' targets) : Accounted declared s (.error e, s')
  | undeclared {e e' : Failure} (unknown : declared = .error e) :
    Accounted declared s (.error e', s)

section

variable {c : RepairContext} {v : Violation} {s s' : Site} {p : Patch}

theorem Patch.Exact.accounted (exact : p.Exact s) (full : c.dryRun = false) (sound : s.tree.Sound)
    {targets : List Path} (listed : ∀ file ∈ p.files, file ∈ targets) :
    Accounted (.ok targets) s (p.apply c v s) := by
  have pending := exact.due.pending sound c v
  obtain ⟨s₁, untouched, run⟩ := p.apply_apply c v s
  have start : s.Pending s₁ fun _ => False := (Site.Pending.refl sound _).of_untouched untouched
  rw [run, full] at pending ⊢
  simp only [Bool.false_eq_true, if_false] at pending ⊢
  rcases changed : p.changes.forM c.apply s₁ with ⟨e | ⟨⟩, s'⟩
  · rw [changed] at pending
    exact .raised rfl ((pending.confined sound).mono listed)
  · rw [changed] at pending
    have renewed : ∀ file ∈ p.files, s.Renewed s' (s.location file) := by
      intro file member
      obtain ⟨change, done, text, writes⟩ := exact.written file member
      exact Change.renewed_of_forM exact.renews start.place changed done writes
    exact .fixed rfl rfl listed renewed (pending.confined sound)

/-- A fixer whose patches are exact and list declared files only accounts for what it does. -/
theorem Fixer.Offers.accounted {f : Fixer}
    {offer : RepairContext → Violation → Site → Except Failure Proposal} (offers : f.Offers offer)
    (full : c.dryRun = false) (sound : s.tree.Sound)
    (exact : ∀ p, offer c v s = .ok (.patch p) → p.Exact s ∧
      ∃ targets, f.targets c v s = .ok targets ∧ ∀ file ∈ p.files, file ∈ targets) :
    Accounted (f.targets c v s) s (f.repair c v s) := by
  rw [offers c v s]
  cases offered : offer c v s with
  | error e =>
    simp only
    cases declared : f.targets c v s with
    | error e' => exact .undeclared rfl
    | ok targets => exact .raised rfl (.refl s targets)
  | ok proposal =>
    cases proposal with
    | nothing reason => exact .skipped rfl
    | patch p =>
      obtain ⟨exact, targets, known, listed⟩ := exact p offered
      rw [known]
      exact exact.accounted full sound listed

theorem Fixer.accounted_proposing {name description : Text} {priority : Int} {rules : List Text}
    {targets : RepairContext → Violation → Site → Except Failure (List Path)}
    {propose : RepairContext → Violation → Site → Except Failure Proposal}
    (full : c.dryRun = false) (sound : s.tree.Sound)
    (exact : ∀ p, propose c v s = .ok (.patch p) → p.Exact s ∧
      ∃ files, targets c v s = .ok files ∧ ∀ file ∈ p.files, file ∈ files) :
    Accounted (targets c v s) s
      ((proposing name description priority rules targets propose).repair c v s) := by
  refine (offers_proposing name description priority rules targets propose).accounted full sound ?_
  intro p offered
  split at offered
  · exact exact p offered
  · cases offered

end

/-- A repair by a bundled fixer is accounted for: if it is skipped, nothing has changed; if it is
done, the files that are new or have other bytes are those that it names, all of them declared
beforehand; if it breaks off, only declared files have changed. -/
theorem RepairContext.repairs_accounted {c : RepairContext} (full : c.dryRun = false)
    (plain : c.Plain) {s : Site} (sound : s.tree.Sound) (housed : s.Housed)
    (steady : s.Steady c.moduleRoot) (v : Violation) :
    ∀ f ∈ bundledFixers, Accounted (f.targets c v s) s (f.repair c v s) := by
  intro f member
  simp only [bundledFixers, List.mem_cons, List.not_mem_nil, or_false] at member
  -- One fixer at a time: what it proposes is exact, and its files are among those it declares.
  rcases member with rfl | rfl | rfl
  · refine Fixer.accounted_proposing full sound fun p offered => ?_
    obtain ⟨m, content, worked⟩ := Scaffolding.propose_eq_patch offered
    obtain ⟨_, package⟩ := Scaffolding.newModule?_eq_some worked.module
    have single : '/' ∉ m.package :=
      package ▸ Scaffolding.slash_not_mem_basePackage plain.slash_not_mem c.project m.layer
    exact ⟨Scaffolding.exact_patch sound single worked, Scaffolding.declared_patch worked⟩
  · refine Fixer.accounted_proposing full sound fun p offered => ?_
    obtain ⟨file, core, mapping, content, worked⟩ := ReturnTypes.propose_eq_patch offered
    have names := TypeTable.plain_of_resolve plain.mappings worked.mentioned worked.resolved
    exact ⟨ReturnTypes.exact_patch sound housed names worked.read worked.patch,
      ReturnTypes.declared_patch worked⟩
  · refine Fixer.accounted_proposing full sound fun p offered => ?_
    obtain ⟨root, missing, hasDirectory, worked⟩ := WrapperFiles.propose_eq_patch offered
    obtain ⟨base, rest, way⟩ := c.way_of_moduleOf sound housed steady worked.module
    exact ⟨WrapperFiles.exact_patch sound way worked, WrapperFiles.declared_patch worked⟩

/-- A violation about the missing build wrapper. -/
def missingWrapperAt (location : Text) : Violation :=
  { rule := Rule.missingWrapper, location := location }

/-- The wrapper is installed in an empty directory, and all its files are named. -/
theorem RepairContext.repairs_accounted_installed :
    let c : RepairContext := { projectRoot := "/p", moduleRoot := "/p" }
    let s : Site := { tree := (∅ : Tree).insert ["p".toList] .directory }
    let ended := WrapperFiles.fixer.repair c (missingWrapperAt "/p") s
    c.dryRun = false ∧ c.Plain ∧ s.tree.Sound ∧ s.Housed ∧ s.Steady c.moduleRoot ∧
      WrapperFiles.fixer ∈ bundledFixers ∧
      Accounted (WrapperFiles.fixer.targets c (missingWrapperAt "/p") s) s ended ∧
      ended.1.toOption.map (·.modified) = some (Wrapper.files.map (WrapperFiles.place "/p")) := by
  intro c s ended
  have plain : c.Plain :=
    ⟨RepairContext.plain_standardGroup, fun _ listed => absurd listed List.not_mem_nil⟩
  have sound : s.tree.Sound := Tree.sound_empty.insert rfl (by simp) fun _ => rfl
  have housed : s.Housed := rfl
  have steady : s.Steady c.moduleRoot := .inl (by decide)
  have member : WrapperFiles.fixer ∈ bundledFixers := by simp [bundledFixers]
  have modified : (WrapperFiles.fixer.repair c (missingWrapperAt "/p") s).1.toOption.map
      (·.modified) = some (Wrapper.files.map (WrapperFiles.place "/p")) := by
    delta WrapperFiles.fixer WrapperFiles.propose
    simp only [RepairContext.moduleOf_eq_above]
    decide +kernel
  refine ⟨rfl, plain, sound, housed, steady, member, ?_, modified⟩
  exact RepairContext.repairs_accounted rfl plain sound housed steady _ _ member

/-- A module that holds one file of the wrapper, exactly as it would be written. -/
def partlyWrapped : Site where
  tree := (((((∅ : Tree).insert ["w".toList] .directory).insert
    ["w".toList, "m".toList] .directory).insert
    ["w".toList, "m".toList, ".mvn".toList] .directory).insert
      ["w".toList, "m".toList, ".mvn".toList, "wrapper".toList] .directory).insert
        ["w".toList, "m".toList, ".mvn".toList, "wrapper".toList, "maven-wrapper.properties".toList]
        (.file (Utf8.encode (Wrapper.contents Wrapper.properties)) 0o644)

theorem sound_partlyWrapped : partlyWrapped.tree.Sound := by
  refine Tree.Sound.insert ?_ (by decide) (by simp) (by decide)
  refine Tree.Sound.insert ?_ (by decide) (by simp) fun _ => rfl
  refine Tree.Sound.insert ?_ (by decide) (by simp) fun _ => rfl
  refine Tree.Sound.insert ?_ (by decide) (by simp) fun _ => rfl
  exact Tree.sound_empty.insert rfl (by simp) fun _ => rfl

/-- The context of a module that is named by way of a missing directory. -/
def roundabout : RepairContext := { projectRoot := "/w", moduleRoot := "/w/a/../m" }

theorem Accounted.renewed_of_mem {declared : Except Failure (List Path)} {s s' : Site} {o : Outcome}
    (accounted : Accounted declared s (.ok o, s')) (status : o.status = .fixed) {p : Path}
    (member : p ∈ o.modified) : s.Renewed s' (s.location p) := by
  cases accounted with
  | skipped skipped => cases skipped.symm.trans status
  | fixed _ _ _ renewed => exact renewed p member

/-- A file that is there is not found by way of a missing directory: it is written once more as it
was, and named among the changed files. -/
theorem repair_names_unchanged_file :
    let path := WrapperFiles.place "/w/a/../m" Wrapper.properties
    let v := missingWrapperAt "/w/x"
    let declared := WrapperFiles.fixer.targets roundabout v partlyWrapped
    roundabout.dryRun = false ∧ roundabout.Plain ∧ partlyWrapped.tree.Sound ∧ partlyWrapped.Housed ∧
      ∃ o s', WrapperFiles.fixer.repair roundabout v partlyWrapped = (.ok o, s') ∧
        o.status = .fixed ∧ path ∈ o.modified ∧
        s'.tree.at? (partlyWrapped.location path) = partlyWrapped.entryAt path ∧
        ¬Accounted declared partlyWrapped (.ok o, s') := by
  intro path v declared
  have plain : roundabout.Plain :=
    ⟨RepairContext.plain_standardGroup, fun _ listed => absurd listed List.not_mem_nil⟩
  have outcome : (WrapperFiles.fixer.repair roundabout v partlyWrapped).1.toOption.map
      (fun o => (o.status, o.modified.contains path)) = some (.fixed, true) := by
    delta WrapperFiles.fixer WrapperFiles.propose
    simp only [RepairContext.moduleOf_eq_above]
    decide +kernel
  have same : (WrapperFiles.fixer.repair roundabout v partlyWrapped).2.tree.at?
      (partlyWrapped.location path) = partlyWrapped.entryAt path := by
    delta WrapperFiles.fixer WrapperFiles.propose
    simp only [RepairContext.moduleOf_eq_above]
    decide +kernel
  refine ⟨rfl, plain, sound_partlyWrapped, rfl, ?_⟩
  rcases run : WrapperFiles.fixer.repair roundabout v partlyWrapped with ⟨e | o, s'⟩
  · rw [run] at outcome
    cases outcome
  · rw [run] at outcome same
    obtain ⟨status, named⟩ := Prod.mk.inj (Option.some.inj outcome)
    have member : path ∈ o.modified := List.contains_iff_mem.mp named
    refine ⟨o, s', rfl, status, member, same, fun accounted => ?_⟩
    obtain ⟨bytes, mode, file, new⟩ := accounted.renewed_of_mem status member
    exact new mode (same.symm.trans file)

end Layering
