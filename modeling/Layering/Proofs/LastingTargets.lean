import Layering.Proofs.PlannedTargets
import Layering.Proofs.Reports

/-!
# Targets that last

Repairs of what a scan found change nothing on which the declared files of the others depend, be they
carried out, skipped or taken back. So a fixer declares for a violation what it declared when the run
was planned, and jobs of different lanes have no file in common.
-/

namespace Layering

open Site

/-- The strategy keeps its snapshots in these places, and in no others. One that stages files needs a
project that can be reached without passing them. -/
inductive SnapshotStrategy.KeepsIn (c : RepairContext) (s : Site) :
    SnapshotStrategy → (Location → Prop) → Prop
  | inMemory : KeepsIn c s InMemory.strategy fun _ => False
  | staged (leads : s.LeadsToDirectory c.projectRoot)
    (visible : s.Visible (Staged.Hidden s c.projectRoot) c.projectRoot) :
    KeepsIn c s (Staged.strategy Staged.standardDirectory) (Staged.Hidden s c.projectRoot)

/-- A file that a bundled fixer declares for one of some violations. -/
def Planned (c : RepairContext) (found : List Violation) (before : Site) (m : Location) : Prop :=
  ∃ v ∈ found, ∃ f ∈ bundledFixers, f.rules.contains v.rule = true ∧
    ∃ files, f.targets c v before = .ok files ∧ ∃ target ∈ files, before.location target = m

/-- One of some violations is repaired by a bundled fixer for its rule, however that ends. -/
def Remediation.Repairs (r : Remediation) (c : RepairContext) (found : List Violation)
    (s s' : Site) : Prop :=
  ∃ v ∈ found, ∃ f ∈ bundledFixers, f.rules.contains v.rule = true ∧ s' = (r.repair c v f s).2

section

variable {hidden due : Location → Prop} {c : RepairContext} {before s s' : Site} {base : Path}
variable {r : Remediation} {v : Violation} {f : Fixer} {files : List Path} {found : List Violation}

namespace Staged

/-- What lies beside the staging directory does not become part of it by more names, but by the name
of the directory itself. -/
theorem aside_of_visible (straight : upName ∉ s.workingDirectory) (covers : c.Covers s base)
    (visible : s.Visible (Hidden s c.projectRoot) base) :
    s.Aside (Hidden s c.projectRoot) base where
  visible := visible
  below names other inside := by
    obtain ⟨way, at_⟩ := covers.prefix straight
    have outside : ¬Hidden s c.projectRoot (s.location base) := visible.location
    rw [Hidden, outer, ← at_] at inside outside
    cases way with
    | nil =>
      rw [List.append_nil, List.prefix_append_right_inj] at inside
      obtain ⟨rest, rfl⟩ := inside
      exact other rfl
    | cons name way =>
      rw [List.append_assoc, List.prefix_append_right_inj, List.cons_append] at inside
      obtain ⟨rfl, _⟩ := List.cons_prefix_cons.mp inside
      exact outside ((List.prefix_append_right_inj _).mpr ⟨way, rfl⟩)
  elsewhere l other inside := other (inside.subset (by simp [outer]))

end Staged

theorem SnapshotStrategy.KeepsIn.aside {strategy : SnapshotStrategy}
    (keeps : strategy.KeepsIn c s hidden) (straight : upName ∉ s.workingDirectory)
    (covers : c.Covers s base) (visible : s.Visible hidden base) : s.Aside hidden base := by
  cases keeps with
  | inMemory => exact ⟨nofun, fun _ _ => id, fun _ _ => id⟩
  | staged => exact Staged.aside_of_visible straight covers visible

theorem Transaction.run_disabled {α : Type} {t : Transaction} (disabled : t.enabled = false)
    (accepts : α → Bool) (action : Action α) (s : Site) :
    (t.run accepts action s).2 = (action s).2 := by
  have begun : t.begin s = (.ok { t with isActive := true }, s) := by
    unfold begin
    rw [disabled]
    rfl
  unfold run
  simp only [StateM.bind_apply, ExceptT.run, begun]
  exact finish_disabled (t := { t with isActive := true }) disabled ..

/-- A repair under the guard of its transaction leaves standing what the fixer leaves standing. -/
theorem stands_guarded (keeps : r.strategy.KeepsIn c before hidden)
    (written : before.Written) (placed : ∀ target ∈ files, Placed hidden before target)
    (planned : ∀ target ∈ files, due (before.location target)) (aside : ∀ m, due m → ¬hidden m)
    (h : Stands due hidden before s) {action : Action Outcome}
    (acts : ∀ s', Stands due hidden s s' → Pending s' (action s').2 due) :
    Stands due hidden s ((r.guard c files).run Remediation.accepts action s).2 := by
  have grounds : s.Grounds due hidden files := by
    constructor
    · intro target member
      rw [h.location]
      exact planned target member
    · intro target member
      obtain ⟨d, rest, rooted⟩ := (placed target member).rooted
      exact ⟨d, rest, rooted.stands h⟩
  have written : s.Written := by
    unfold Written
    rwa [h.place]
  cases dry : c.dryRun with
  | true =>
    rw [Transaction.run_disabled (by simp [Remediation.guard, dry])]
    exact .of_pending (acts s (.refl h.sound due hidden)) h.sound
  | false =>
    have enabled : (r.guard c files).enabled = true := by simp [Remediation.guard, dry]
    generalize strategy : r.strategy = guarding at keeps
    -- In memory nothing is written beside the files. On disk what is written lies in the hidden
    -- area.
    cases keeps with
    | inMemory =>
      exact InMemory.stands_run h.sound written.straight grounds strategy rfl enabled _ acts
    | staged leads visible =>
      have same : Staged.Hidden before c.projectRoot = Staged.Hidden s c.projectRoot := by
        unfold Staged.Hidden Staged.outer
        rw [h.location]
      have leads := h.leads leads visible
      rw [same] at grounds aside acts ⊢
      exact Staged.stands_run h.sound ⟨written, leads, fun target member => (placed target member).plain⟩
        grounds aside strategy rfl rfl enabled _ acts

section

variable (calls : ∀ v ∈ found, ∀ f ∈ bundledFixers, f.rules.contains v.rule = true →
  Calls c hidden before v f)
include calls

theorem placed_of_planned {m : Location} (planned : Planned c found before m) :
    ∃ target, before.location target = m ∧ Placed hidden before target := by
  obtain ⟨v, member, f, bundled, supports, files, declared, target, listed, at_⟩ := planned
  exact ⟨target, at_, (calls v member f bundled supports).placed declared target listed⟩

theorem onlyNewModules_of_planned (m : Location) (planned : Planned c found before m) :
    OnlyNewModules before m := by
  obtain ⟨target, rfl, placed⟩ := placed_of_planned calls planned
  exact placed.news

/-- One repair leaves standing what is there, and what it adds is planned. -/
theorem stands_repair (keeps : r.strategy.KeepsIn c before hidden) (written : before.Written)
    (member : v ∈ found) (bundled : f ∈ bundledFixers) (supports : f.rules.contains v.rule = true)
    (h : Stands (Planned c found before) hidden before s) :
    Stands (Planned c found before) hidden before (r.repair c v f s).2 := by
  have news := onlyNewModules_of_planned calls
  have calls' := calls v member f bundled supports
  have concluded (result : Except Failure Outcome) {s : Site}
      (h : Stands (Planned c found before) hidden before s) :
      Stands (Planned c found before) hidden before (r.conclude v f result s).2 := by
    obtain ⟨_, known⟩ := Remediation.untouched_conclude r v f result s
    rw [known]
    exact h.of_tree_eq rfl rfl
  unfold Remediation.repair
  rw [StateM.bind_apply, StateM.get_apply]
  simp only
  rw [calls'.targets_eq h news]
  -- A repair that cannot tell its files does nothing. One that can is guarded at those files,
  -- which are planned.
  cases declared : f.targets c v before with
  | error e => exact concluded (.error e) h
  | ok files =>
    have planned : ∀ target ∈ files, Planned c found before (before.location target) :=
      fun target listed => ⟨v, member, f, bundled, supports, files, declared, target, listed, rfl⟩
    have aside (m : Location) (planned : Planned c found before m) : ¬hidden m := by
      obtain ⟨target, rfl, placed⟩ := placed_of_planned calls planned
      exact placed.visible
    refine concluded _ (h.trans (stands_guarded keeps written (calls'.placed declared) planned aside h ?_))
    intro s' later
    refine (calls'.pending (h.trans later) news declared).mono ?_
    rintro m ⟨target, listed, rfl⟩
    exact planned target listed

/-- A run of repairs leaves standing what is there. -/
theorem stands_repairs (keeps : r.strategy.KeepsIn c before hidden) (written : before.Written)
    (sound : before.tree.Sound) (reached : Relation.ReflTransGen (r.Repairs c found) before s) :
    Stands (Planned c found before) hidden before s := by
  induction reached with
  | refl => exact .refl sound _ hidden
  | tail _ step ih =>
    obtain ⟨v, member, f, bundled, supports, rfl⟩ := step
    exact stands_repair calls keeps written member bundled supports ih

/-- After any repairs a fixer declares what it declared before. -/
theorem targets_of_repairs (keeps : r.strategy.KeepsIn c before hidden) (written : before.Written)
    (sound : before.tree.Sound) (reached : Relation.ReflTransGen (r.Repairs c found) before s)
    (member : v ∈ found) (bundled : f ∈ bundledFixers) (supports : f.rules.contains v.rule = true) :
    f.targets c v s = f.targets c v before :=
  (calls v member f bundled supports).targets_eq (stands_repairs calls keeps written sound reached)
    (onlyNewModules_of_planned calls)

end

end

/-! ### Jobs -/

/-- No rule has two bundled fixers. -/
theorem eq_of_supports {f g : Fixer} {rule : Text} (bundled : f ∈ bundledFixers)
    (supports : f.rules.contains rule = true) (bundled' : g ∈ bundledFixers)
    (supports' : g.rules.contains rule = true) : f = g := by
  have apart : bundledFixers.Pairwise fun f g => ∀ rule ∈ f.rules, rule ∉ g.rules := by decide
  have symm : Std.Symm fun f g : Fixer => ∀ rule ∈ f.rules, rule ∉ g.rules :=
    ⟨fun _ _ h rule listed listed' => h rule listed' listed⟩
  rw [List.contains_iff_mem] at supports supports'
  by_contra other
  exact apart.forall bundled bundled' other rule supports supports'

namespace Job

variable {table : FixerTable} {settings : Settings} {c : RepairContext} {s : Site} {job : Job}
variable {violations : List Violation} {f : Fixer} {files : List Path} {p : Path}

theorem fixers_plan (c : RepairContext) (s : Site) (index : Nat) (v : Violation)
    (fixers : List Fixer) : (plan c s index v fixers).fixers = fixers := by
  unfold plan
  split <;> rfl

theorem fixer_of_mem_planAll (member : job ∈ planAll table settings c s violations)
    (candidate : f ∈ job.fixers) : job.violation ∈ violations ∧ f ∈ table.fixers ∧
      f.rules.contains job.violation.rule = true := by
  constructor
  · have listed := List.mem_map_of_mem (f := Job.violation) member
    rw [violations_planAll, (Entries.groups_perm _ _).mem_iff] at listed
    exact List.mem_of_mem_filter listed
  · rw [(planned_of_mem_planAll table settings c s violations member).fixers] at candidate
    obtain ⟨known, supports⟩ := List.mem_filter.mp (List.mem_of_mem_filter candidate)
    exact ⟨List.mem_of_mem_filter known, supports⟩

/-- What a fixer declares is among the files of its job, if every fixer of the job declares some. -/
theorem mem_targets_plan {index : Nat} {v : Violation} {fixers : List Fixer}
    (each : ∀ g ∈ fixers, ∃ files, g.targets c v s = .ok files) (candidate : f ∈ fixers)
    (declared : f.targets c v s = .ok files) (listed : p ∈ files) :
    s.resolve p ∈ (plan c s index v fixers).targets := by
  have answered : fixers.mapM (fun g => g.targets c v s) =
      .ok (fixers.map fun g => (g.targets c v s).toOption.getD []) := by
    refine mapM_eq_ok fun g member => ?_
    obtain ⟨files, known⟩ := each g member
    rw [known]
    rfl
  unfold plan targetsOf
  rw [answered]
  simp only [bind, Except.bind, List.mem_eraseDups]
  refine List.mem_map_of_mem (List.mem_flatten_of_mem (List.mem_map_of_mem candidate) ?_)
  rw [declared]
  exact listed

theorem mem_targets_of_mem_planAll (member : job ∈ planAll table settings c s violations)
    (each : ∀ g ∈ job.fixers, ∃ files, g.targets c job.violation s = .ok files)
    (candidate : f ∈ job.fixers) (declared : f.targets c job.violation s = .ok files)
    (listed : p ∈ files) : s.resolve p ∈ job.targets := by
  obtain ⟨index, inside, rfl⟩ := List.mem_mapIdx.mp member
  rw [fixers_plan] at each candidate
  rw [violation_plan] at each declared
  exact mem_targets_plan each candidate declared listed

end Job

/-- Two jobs have no file in common, whatever repairs came before their fixers are asked. -/
def Remediation.KeepsApart (r : Remediation) (c : RepairContext) (found : List Violation) (s : Site)
    (a b : Job) : Prop :=
  ∀ s₁ s₂, Relation.ReflTransGen (r.Repairs c found) s s₁ →
    Relation.ReflTransGen (r.Repairs c found) s s₂ → ∀ f ∈ a.fixers, ∀ g ∈ b.fixers,
      ∀ files others, f.targets c a.violation s₁ = .ok files →
        g.targets c b.violation s₂ = .ok others →
          ∀ p ∈ files, ∀ q ∈ others, s₁.resolve p ≠ s₂.resolve q

namespace Remediation

variable {r : Remediation} {c : RepairContext} {found : List Violation} {s : Site} {a b : Job}

/-- Jobs of different lanes have no file in common if targets last. -/
theorem keepsApart_of_lanes (bundled : ∀ f ∈ r.table.fixers, f ∈ bundledFixers)
    (lasts : ∀ s', Relation.ReflTransGen (r.Repairs c found) s s' →
      s'.workingDirectory = s.workingDirectory ∧ ∀ v ∈ found, ∀ f ∈ bundledFixers,
        f.rules.contains v.rule = true → f.targets c v s' = f.targets c v s)
    (first : a ∈ r.jobs c s found) (second : b ∈ r.jobs c s found)
    (apart : ∀ lane ∈ Lane.ofJobs (r.jobs c s found), a ∈ lane → b ∉ lane) :
    r.KeepsApart c found s a b := by
  -- What one of the fixers declares at any time is among the files that were planned.
  have planned {job : Job} (member : job ∈ r.jobs c s found) {s' : Site}
      (reached : Relation.ReflTransGen (r.Repairs c found) s s') {f : Fixer} {files : List Path}
      (candidate : f ∈ job.fixers) (declared : f.targets c job.violation s' = .ok files) {p : Path}
      (listed : p ∈ files) : s'.resolve p ∈ job.targets := by
    obtain ⟨place, same⟩ := lasts s' reached
    obtain ⟨known, registered, supports⟩ := Job.fixer_of_mem_planAll member candidate
    rw [same _ known f (bundled f registered) supports] at declared
    rw [resolve_of_workingDirectory place]
    refine Job.mem_targets_of_mem_planAll member (fun g candidate' => ?_) candidate declared listed
    obtain ⟨_, registered', supports'⟩ := Job.fixer_of_mem_planAll member candidate'
    obtain rfl := eq_of_supports (bundled f registered) supports (bundled g registered') supports'
    exact ⟨files, declared⟩
  intro s₁ s₂ reached reached' f candidate g candidate' files others declared declared' p listed q
    listed' same
  have shares : a.Shares b := by
    refine ⟨_, planned first reached candidate declared listed, ?_⟩
    rw [same]
    exact planned second reached' candidate' declared' listed'
  have linked : Job.Linked (r.jobs c s found) a b := .single ⟨first, second, shares⟩
  obtain ⟨lane, one, inside, inside'⟩ :=
    ((Job.numbered_planAll ..).components.together a first b second).mpr linked
  exact apart lane one inside inside'

/-- Every fixer declares for what a scan found what it declared when the run was planned, after any
repairs, carried out, skipped or taken back. So jobs of different lanes have no file in common. -/
theorem targets_last {scan : Scan} {coreTypes : List Text}
    (all : scan.detectors = Detector.standard coreTypes) {base : Path} {s₁ : Site}
    (sound : s.tree.Sound) (written : s.tree.Written) (housed : s.Housed) (plain : base.Plain)
    (covers : c.Covers s base) (run : scan.run base s = (.ok found, s₁)) {hidden : Location → Prop}
    (keeps : r.strategy.KeepsIn c s hidden) (visible : s.Visible hidden base) :
    (∀ s₂, Relation.ReflTransGen (r.Repairs c found) s₁ s₂ → ∀ v ∈ found, ∀ f ∈ bundledFixers,
      f.rules.contains v.rule = true → f.targets c v s₂ = f.targets c v s₁) ∧
    ((∀ f ∈ r.table.fixers, f ∈ bundledFixers) →
      ∀ a ∈ r.jobs c s₁ found, ∀ b ∈ r.jobs c s₁ found,
        (∀ lane ∈ Lane.ofJobs (r.jobs c s₁ found), a ∈ lane → b ∉ lane) →
          r.KeepsApart c found s₁ a b) := by
  have deaf := Scan.deaf_standard all
  obtain ⟨untouched, rfl, readable⟩ := Scan.run_eq_ok deaf run
  have straight := (housed.written written).straight
  -- The scan has left nothing but messages.
  have calls : ∀ v ∈ scan.findings s base, ∀ f ∈ bundledFixers, f.rules.contains v.rule = true →
      Calls c hidden s₁ v f := by
    intro v member f bundled supports
    rw [← deaf.findings untouched] at member
    obtain ⟨visible, below, elsewhere⟩ := keeps.aside straight covers visible
    obtain ⟨_, rfl⟩ := untouched
    exact Scan.calls_of_mem all sound written housed plain covers ⟨visible, below, elsewhere⟩ readable
      member bundled supports
  obtain ⟨sound, written, keeps⟩ : s₁.tree.Sound ∧ s₁.Written ∧ r.strategy.KeepsIn c s₁ hidden := by
    obtain ⟨_, rfl⟩ := untouched
    refine ⟨sound, housed.written written, ?_⟩
    generalize r.strategy = strategy at keeps
    cases keeps with
    | inMemory => exact .inMemory
    | staged leads sight => exact .staged leads sight
  have lasts s₂ (reached : Relation.ReflTransGen (r.Repairs c (scan.findings s base)) s₁ s₂) :
      s₂.workingDirectory = s₁.workingDirectory ∧ ∀ v ∈ scan.findings s base, ∀ f ∈ bundledFixers,
        f.rules.contains v.rule = true → f.targets c v s₂ = f.targets c v s₁ :=
    ⟨(stands_repairs calls keeps written sound reached).place, fun v member f bundled supports =>
      targets_of_repairs calls keeps written sound reached member bundled supports⟩
  exact ⟨fun s₂ reached => (lasts s₂ reached).2, fun bundled a first b second apart =>
    keepsApart_of_lanes bundled lasts first second apart⟩

theorem eq_ok_of_toOption {ε α : Type} {x : Except ε α} {a : α} (some : x.toOption = some a) :
    x = .ok a := by
  cases x with
  | error => cases some
  | ok => exact congrArg Except.ok (Option.some.inj some)

/-- The missing contract of a project is made, with staged snapshots, before its missing wrapper. -/
theorem targets_last_gappyProject :
    let scan : Scan := { detectors := Detector.standard [] }
    let c : RepairContext := { projectRoot := "/p", moduleRoot := "/p" }
    let r : Remediation := { table := .ofList bundledFixers {},
                             strategy := Staged.strategy Staged.standardDirectory }
    let hidden := Staged.Hidden gappyProject c.projectRoot
    gappyProject.tree.Sound ∧ gappyProject.tree.Written ∧ gappyProject.Housed ∧
      c.Covers gappyProject "/p" ∧ r.strategy.KeepsIn c gappyProject hidden ∧
      gappyProject.Visible hidden "/p" ∧
      ∃ found s₁, scan.run "/p" gappyProject = (.ok found, s₁) ∧
        gappyContract ∈ found ∧ gappyScript ∈ found ∧
        WrapperFiles.fixer.targets c gappyScript
            (r.repair c gappyContract Scaffolding.fixer s₁).2 =
          .ok (Wrapper.files.map (WrapperFiles.place "/p/q")) ∧
        ∀ a ∈ r.jobs c s₁ found, ∀ b ∈ r.jobs c s₁ found,
          (∀ lane ∈ Lane.ofJobs (r.jobs c s₁ found), a ∈ lane → b ∉ lane) →
            r.KeepsApart c found s₁ a b := by
  intro scan c r hidden
  have sound := sound_gappyProject
  have written := written_gappyProject
  have covers : c.Covers gappyProject "/p" := .inl rfl
  have visible : gappyProject.Visible hidden "/p" :=
    Visible.of_forward (by decide) (by decide)
  have keeps : r.strategy.KeepsIn c gappyProject hidden := .staged ⟨rfl, rfl⟩ visible
  have reported : (scan.run "/p" gappyProject).1.toOption.map
      (fun found => (found[0]?, found[2]?)) = some (some gappyContract, some gappyScript) := by
    decide +kernel
  have declared : (WrapperFiles.targets c gappyScript (scan.run "/p" gappyProject).2).toOption =
      some (Wrapper.files.map (WrapperFiles.place "/p/q")) := by
    delta WrapperFiles.targets
    simp only [RepairContext.moduleOf_eq_above]
    decide +kernel
  rcases run : scan.run "/p" gappyProject with ⟨e | found, s₁⟩
  · rw [run] at reported
    cases reported
  rw [run] at reported declared
  obtain ⟨first, third⟩ := Prod.mk.inj (Option.some.inj reported)
  have contract := List.mem_of_getElem? first
  have script := List.mem_of_getElem? third
  have planned : WrapperFiles.fixer.targets c gappyScript s₁ =
      .ok (Wrapper.files.map (WrapperFiles.place "/p/q")) := eq_ok_of_toOption declared
  have bundled : ∀ f ∈ r.table.fixers, f ∈ bundledFixers :=
    fun f listed => holds_bundled.ranked.mem_iff.mp listed
  obtain ⟨lasts, apart⟩ := targets_last (r := r) rfl sound written rfl (by decide) covers run
    keeps visible
  refine ⟨sound, written, rfl, covers, keeps, visible, found, s₁, rfl, contract, script, ?_,
    apart bundled⟩
  rw [← planned]
  refine lasts _ (.single ⟨gappyContract, contract, Scaffolding.fixer, by simp [bundledFixers], ?_,
    rfl⟩) _ script _ (by simp [bundledFixers]) ?_
  · decide
  · decide

/-- The script of an aggregator is missing. -/
def missingScript : Violation :=
  Detector.missingPart ⟨"p".toList, "/p", []⟩ Wrapper.script
    "Pure aggregator 'p' must have Maven wrapper script 'mvnw'."

/-- The directory of its wrapper is missing. -/
def missingDirectory : Violation :=
  Detector.missingPart ⟨"p".toList, "/p", []⟩ Wrapper.directory
    ("Pure aggregator 'p' must have Maven wrapper directory '.mvn/wrapper' with " ++
      "maven-wrapper.properties.")

/-- Where the root of the project is named by way of something missing, a directory for staging takes
the place of a descriptor, and from then on the wrapper is planned for another directory. -/
theorem targets_change :
    let scan : Scan := { detectors := Detector.standard [] }
    let c : RepairContext := { projectRoot := "/p/.mvn/pom.xml/../..", moduleRoot := "/p" }
    let r : Remediation := { table := .ofList bundledFixers {},
                             strategy := Staged.strategy Staged.standardDirectory }
    c.Covers bareAggregator "/p" ∧
      ∃ found s₁ s₂, scan.run "/p" bareAggregator = (.ok found, s₁) ∧ missingScript ∈ found ∧
        missingDirectory ∈ found ∧ r.Repairs c found s₁ s₂ ∧
        WrapperFiles.fixer.targets c missingDirectory s₁ =
          .ok (Wrapper.files.map (WrapperFiles.place "/p")) ∧
        WrapperFiles.fixer.targets c missingDirectory s₂ =
          .ok (Wrapper.files.map (WrapperFiles.place "/p/.mvn")) := by
  intro scan c r
  have covers : c.Covers bareAggregator "/p" := .inl (by decide)
  have reported : (scan.run "/p" bareAggregator).1.toOption.map
      (fun found => (found[0]?, found[2]?)) = some (some missingScript, some missingDirectory) := by
    decide +kernel
  have planned : (WrapperFiles.targets c missingDirectory
      (scan.run "/p" bareAggregator).2).toOption =
        some (Wrapper.files.map (WrapperFiles.place "/p")) := by
    delta WrapperFiles.targets
    simp only [RepairContext.moduleOf_eq_above]
    decide +kernel
  have declared : (WrapperFiles.targets c missingDirectory (r.repair c missingScript
      WrapperFiles.fixer (scan.run "/p" bareAggregator).2).2).toOption =
        some (Wrapper.files.map (WrapperFiles.place "/p/.mvn")) := by
    delta WrapperFiles.targets Remediation.repair WrapperFiles.fixer WrapperFiles.propose
    simp only [RepairContext.moduleOf_eq_above]
    decide +kernel
  rcases run : scan.run "/p" bareAggregator with ⟨e | found, s₁⟩
  · rw [run] at reported
    cases reported
  rw [run] at reported planned declared
  obtain ⟨first, third⟩ := Prod.mk.inj (Option.some.inj reported)
  have script := List.mem_of_getElem? first
  exact ⟨covers, found, s₁, _, rfl, script, List.mem_of_getElem? third,
    ⟨missingScript, script, WrapperFiles.fixer, by simp [bundledFixers], by decide, rfl⟩,
    eq_ok_of_toOption planned, eq_ok_of_toOption declared⟩

end Remediation

end Layering