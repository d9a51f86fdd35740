import Layering.Proofs.Staging
import Layering.Proofs.CleanStaging
import Layering.Snapshot.InMemory

/-!
# Snapshots that fail

A snapshot in memory that fails has changed nothing. One that is staged leaves what it has staged so
far, and nothing outside the directory for it: it goes without a trace only if it fails over the
first file, and before anything is made for it.
-/

namespace Layering

namespace InMemory

/-- A snapshot in memory that fails changes nothing. -/
theorem site_of_failed_backup {files : List Path} {project : Path} {s s' : Site} {e : Failure}
    (failed : backup files project s = (.error e, s')) : s' = s := by
  unfold backup at failed
  rw [Action.bind_apply, Action.ask_apply] at failed
  cases taken : takeAll s files with
  | error e => exact (congrArg Prod.snd (taken ▸ failed)).symm
  | ok held =>
    rw [taken] at failed
    cases failed

end InMemory

namespace Site

variable {s : Site} {p : Path}

/-- What can be asked of a path can be asked of the one above. -/
theorem exists?_parent {there : Bool} (answer : s.exists? p = .ok there) :
    ∃ above, s.exists? p.parent = .ok above := by
  refine exists?_isOk.mpr fun long => ?_
  exact exists?_isOk.mp ⟨_, answer⟩ (locate_of_parent_error long)

theorem nearestAncestor_eq_ok {there : Bool} (answer : s.exists? p = .ok there) :
    ∃ ancestor, s.nearestAncestor p = .ok ancestor := by
  have up (size : Nat) (q : Path) (answer : ∃ there, s.exists? q = .ok there) :
      ∃ ancestor, nearestAncestor.up s q size = .ok ancestor := by
    -- On the fuel, with the path let free: an answer at a path means an answer at its parent.
    induction size generalizing q with
    | zero => exact ⟨q, rfl⟩
    | succ size ih =>
      obtain ⟨there, answer⟩ := answer
      unfold nearestAncestor.up
      rw [answer]
      cases there with
      | true => exact ⟨q, rfl⟩
      | false => exact ih q.parent (exists?_parent answer)
  exact up _ _ (exists?_parent answer)

end Site

namespace Transaction

/-- Where the snapshot fails, the transaction ends, and what the snapshot has left stays. -/
theorem run_of_failed_backup {α : Type} {t : Transaction} {s s' : Site} {e : Failure}
    (enabled : t.enabled = true)
    (failed : t.strategy.backup t.files t.project s = (.error e, s')) (accepts : α → Bool)
    (action : Action α) : t.run accepts action s = (⟨.error e, []⟩, s') := by
  have start : t.begin s = (.error e, s') := by
    rw [Transaction.begin, if_pos enabled]
    exact Action.bind_of_error failed
  unfold run
  rw [StateM.bind_apply]
  simp only [ExceptT.run, start]
  rfl

end Transaction

namespace Staged

open Site

variable {before s s' : Site} {project target q : Path} {ending : Text} {names : List Text}

/-- A path lies in the staging directory. -/
structure LiesIn (project q : Path) (names : List Text) : Prop where
  path : q = project / ⟨.here, standardDirectory.names ++ names⟩
  forward : upName ∉ standardDirectory.names ++ names
  inner : names ≠ []

/-- What is staged of a file lies in the staging directory, also that of the project itself. -/
theorem liesIn_of_stagedPath (written : s.Written) (plain : target.Plain) (ends : Ending ending)
    (asked : stagedPath standardDirectory ending s target project = .ok q) :
    ∃ names, LiesIn project q names := by
  by_cases same : s.location target = s.location project
  · -- The staged name of the project is that of its place, a single point, with the ending.
    have here : s.resolve target = s.resolve project := by
      rw [resolve_eq written.straight, resolve_eq written.straight, same]
    unfold stagedPath placeInProject Path.relativeTo? at asked
    rw [here] at asked
    simp only [decide_true, Bool.true_and, List.isPrefixOf_iff_prefix, List.prefix_rfl, ↓reduceIte,
      List.drop_length, bind, Except.bind, Except.ok.injEq] at asked
    have read : Path.ofText ((⟨.here, []⟩ : Path).text ++ ending) = ⟨.here, ['.' :: ending]⟩ := by
      cases ends <;> decide
    refine ⟨['.' :: ending], ?_, ?_, nofun⟩
    · rw [← asked, read, Path.div_eq rfl, Path.div_eq rfl, Path.div_eq rfl, List.append_assoc]
    · cases ends <;> decide
  · obtain ⟨place, inner, at_⟩ := place_of_stagedPath written same asked
    obtain ⟨_, known, staged⟩ := stagedPath_of_location written plain ends inner at_
    cases known.symm.trans asked
    exact ⟨_, staged.path, staged.forward, by simp [suffixed]⟩

namespace LiesIn

variable (lies : LiesIn project q names)
include lies

theorem location_eq (s : Site) : s.location q = area s project ++ names := by
  rw [lies.path, location_join rfl lies.forward, area, List.append_assoc]

theorem firm (firm : s.Firm project) : s.Firm q := by
  rw [lies.path]
  exact firm.join rfl lies.forward

variable (alters : Alters (area before project) before s)
include alters

theorem inside : area before project <+: s.location q := by
  rw [lies.location_eq, area_of_beside alters.beside]
  exact List.prefix_append ..

theorem alters_deleteFile :
    Alters (area before project) before (Action.deleteFile q s).2 := by
  rcases Action.deleteFile_clears q s with ⟨s', run, clears⟩ | ⟨f, run⟩
  · rw [run]
    exact alters.trans (.of_clears (lies.inside alters) clears)
  · rwa [run]

theorem alters_makeDirectories (firm : s.Firm q) :
    Alters (area before project) before (Action.makeDirectories q.parent s).2 :=
  alters.trans (.of_grows (lies.inside alters) firm
    (Action.makes_makeDirectories q.parent s).grows.of_parent)

theorem alters_copyFile (source : Path) :
    Alters (area before project) before (Action.copyFile source q s).2 := by
  rcases Action.copyFile_cases source q s with ⟨bytes, mode, _, inner, parent, leaf, run⟩ | ⟨f, run⟩
  · rw [run]
    exact alters.trans (.of_file (lies.inside alters) inner parent leaf bytes mode)
  · rwa [run]

theorem alters_writeText (firm : s.Firm q) (t : Text) :
    Alters (area before project) before (Action.writeText q t s).2 := by
  rcases Action.writeBytes_cases q (Utf8.encode t) s with ⟨s', run, writes⟩ | ⟨f, s', run, grows, _⟩
  · rw [Action.writeText, run]
    exact alters.trans (.of_writes (lies.inside alters) firm writes)
  · rw [Action.writeText, run]
    exact alters.trans (.of_grows (lies.inside alters) firm grows.of_parent)

end LiesIn

/-- However staging a file ends, nothing has changed but in the staging directory. -/
theorem alters_stage (setting : Setting before project) (plain : target.Plain)
    (alters : Alters (area before project) before s) :
    Alters (area before project) before (stage standardDirectory target project s).2 := by
  have written : s.Written := by
    have place : s.workingDirectory = before.workingDirectory := by rw [alters.beside]
    unfold Written
    rw [place]
    exact setting.written
  have firm {s' : Site} (alters : Alters (area before project) before s') : s'.Firm project :=
    (setting.steady.firm setting.sound).of_opens alters.opens (start_of_beside alters.beside _)
  unfold stage
  -- Each step touches one of the two staged places, and where one is refused nothing further is
  -- done.
  refine Action.bind_rule alters fun copy s₁ asked _ => ?_
  obtain ⟨copyAsked, rfl⟩ := Action.ask_eq_ok asked
  obtain ⟨_, copyLies⟩ := liesIn_of_stagedPath written plain .copy copyAsked
  refine Action.bind_rule alters fun marker s₁ asked _ => ?_
  obtain ⟨markerAsked, rfl⟩ := Action.ask_eq_ok asked
  obtain ⟨_, markerLies⟩ := liesIn_of_stagedPath written plain .marker markerAsked
  refine Action.bind_rule (copyLies.alters_deleteFile alters) fun _ s₁ _ alters => ?_
  refine Action.bind_rule (markerLies.alters_deleteFile alters) fun _ s₂ _ alters => ?_
  refine Action.bind_rule alters fun there s₃ asked _ => ?_
  obtain ⟨_, rfl⟩ := Action.askFault_eq_ok asked
  split
  · refine Action.bind_rule (copyLies.alters_makeDirectories alters (copyLies.firm (firm alters)))
      fun _ s₃ _ alters => ?_
    exact Action.bind_rule (copyLies.alters_copyFile alters target) fun _ _ _ alters => alters
  · refine Action.bind_rule alters fun ancestor s₃ asked _ => ?_
    obtain ⟨_, rfl⟩ := Action.askFault_eq_ok asked
    exact Action.bind_rule (markerLies.alters_writeText alters (markerLies.firm (firm alters)) _)
      fun _ _ _ alters => alters

theorem alters_stageAll {files : List Path} (setting : Setting before project)
    (plain : ∀ target ∈ files, target.Plain) (alters : Alters (area before project) before s) :
    Alters (area before project) before (stageAll standardDirectory project files s).2 := by
  induction files generalizing s with
  | nil => exact alters
  | cons target rest ih =>
    obtain ⟨first, plain⟩ := List.forall_mem_cons.mp plain
    exact stageAll_cons_rule (alters_stage setting first alters) fun _ _ _ alters => ih plain alters

/-! ### What is made first -/

/-- The directory in which the staging directory lies is there. -/
def Opened (before : Site) (project : Path) (s : Site) : Prop :=
  s.tree.at? (outer before project) = some .directory

/-- A path in that directory. -/
def within (project : Path) (rest : List Text) : Path :=
  project / ⟨.here, ".remediation".toList :: rest⟩

theorem within_eq (project : Path) (rest : List Text) : within project rest =
    ⟨project.anchor, project.names ++ ".remediation".toList :: rest⟩ := Path.div_eq rfl

namespace Clean

variable (clean : Clean before project)
include clean

theorem setting : Setting before project :=
  ⟨clean.written, clean.sound, .inr (exists_of_leads clean.leads)⟩

/-- The way into the staging directory. -/
theorem follow_eq (rest : List Text) :
    before.tree.follow (before.start project) (project.names ++ ".remediation".toList :: rest) =
      .error .notFound := by
  have entry : before.tree.at? (before.location project) = some .directory := clean.leads.2
  have absent : before.tree.at? (before.location project ++ [".remediation".toList]) = none :=
    clean.bare
  have way : before.tree.follow (before.start project) project.names =
      .ok (before.location project) := clean.leads.1
  rw [Tree.follow_append, way]
  change before.tree.follow (before.location project) (".remediation".toList :: rest) = _
  unfold Tree.follow
  rw [Tree.isDirectory_iff.mpr entry, if_neg (by decide), if_neg (by decide), if_neg (by decide),
    if_pos absent]

/-- Nothing in the staging directory can be reached. -/
theorem slot_eq (rest : List Text) (further : rest ≠ []) :
    before.slot? (within project rest) = .error .notFound := by
  refine slot_of_locate_error ?_
  rw [within_eq]
  change before.tree.follow (before.start project)
    (project.names ++ ".remediation".toList :: rest).dropLast = .error .notFound
  rw [List.dropLast_append_of_ne_nil (by simp), List.dropLast_cons_of_ne_nil further]
  exact clean.follow_eq rest.dropLast

theorem deleteFile_eq (lies : LiesIn project q names) :
    Action.deleteFile q before = (.ok (), before) := by
  have slot : before.slot? q = .error .notFound := by
    rw [lies.path]
    exact clean.slot_eq ("staging".toList :: names) nofun
  exact Action.deleteFile_of_missing (withoutFile_of_stuck slot)

theorem withDirectory_eq : before.withDirectory (within project []) =
    .ok (before.insert (outer before project) .directory) := by
  have parent : (within project []).parent = project := by
    rw [within_eq, Path.parent, List.dropLast_concat]
  have leads : before.LeadsToDirectory (within project []).parent := by
    rw [parent]
    exact clean.leads
  have taken := slot_of_parent leads.1 leads.2
    (by rw [within_eq, List.getLast?_concat]) (by decide)
  rw [if_neg (by decide), parent] at taken
  exact withDirectory_of_free taken clean.bare

/-- Making a directory in the staging directory makes that first. -/
theorem open_of_up (depth : Nat) (rest : List Text) (enough : rest.length ≤ depth) :
    Opened before project (Action.makeDirectories.up depth (within project rest) before).2 := by
  -- From the last name: the directories above are made first, and what is made later leaves
  -- them open.
  induction rest using List.reverseRecOn generalizing depth with
  | nil =>
    rw [Action.up_of_made depth clean.withDirectory_eq]
    exact (at?_insert (by simp [outer]) .directory _).trans (if_pos rfl)
  | append_singleton rest name ih =>
    cases depth with
    | zero => simp at enough
    | succ depth =>
      have above := ih depth (by simpa using enough)
      have parent : (within project (rest ++ [name])).parent =
          within project rest := by
        rw [within_eq, within_eq, Path.parent]
        simp only [← List.cons_append, ← List.append_assoc, List.dropLast_concat]
      have missing : before.withDirectory (within project (rest ++ [name])) =
          .error (.notFound (within project (rest ++ [name]))) :=
        withDirectory_of_stuck (clean.slot_eq (rest ++ [name]) (by simp))
      rw [Action.up_succ_of_missing depth missing, parent]
      refine Action.bind_rule (motive := Opened before project)
        above fun _ s₁ _ open_ => ?_
      exact (Action.makes_up 0 _ s₁).grows.opens _ open_

theorem open_of_makeDirectories (lies : LiesIn project q names) :
    Opened before project (Action.makeDirectories q.parent before).2 := by
  have parent : q.parent = within project ("staging".toList :: names.dropLast) := by
    have last : (project.names ++ ".remediation".toList :: "staging".toList :: names).dropLast =
        project.names ++ ".remediation".toList :: "staging".toList :: names.dropLast := by
      rw [List.dropLast_append_of_ne_nil (by simp), List.dropLast_cons_of_ne_nil (by simp),
        List.dropLast_cons_of_ne_nil lies.inner]
    rw [lies.path, Path.div_eq rfl, within_eq]
    exact congrArg (Path.mk project.anchor) last
  rw [parent]
  refine clean.open_of_up _ _ ?_
  rw [within_eq, List.length_append]
  exact Nat.le_add_left _ _ |>.trans (Nat.add_le_add_left (Nat.le_succ _) _)

theorem open_of_writeText (lies : LiesIn project q names) (t : Text) :
    Opened before project (Action.writeText q t before).2 := by
  rcases Action.writeBytes_cases q (Utf8.encode t) before with
    ⟨s', run, writes⟩ | ⟨f, s', run, _, same⟩
  · -- A file that is there lies in directories that are there.
    have there : s'.tree.at? (before.location q) ≠ none := by
      rw [writes.written]
      nofun
    have part : outer before project <+: before.location q := by
      rw [lies.location_eq]
      exact (outer_prefix_area before project).trans (List.prefix_append ..)
    have other : outer before project ≠ before.location q := by
      rw [lies.location_eq, area, outer, List.append_assoc]
      intro same
      cases List.append_cancel_left same
    rw [Action.writeText, run]
    exact (writes.sound clean.sound).above there part other
  · rw [Action.writeText, run, Opened, same]
    exact clean.open_of_makeDirectories lies

/-- Nothing has to be removed before a file is staged. -/
theorem stage_eq {place : Path} (plain : target.Plain)
    (inside : placeInProject before target project = .ok place) :
    ∃ copy marker copyNames markerNames, LiesIn project copy copyNames ∧
      LiesIn project marker markerNames ∧
      stage standardDirectory target project before = (do
        if ← Action.askFault (·.exists? target) then
          Action.makeDirectories copy.parent
          Action.copyFile target copy
          pure false
        else
          let ancestor ← Action.askFault (·.nearestAncestor target)
          Action.writeText marker ancestor.text
          pure true : Action Bool) before := by
  have staged (ending : Text) : Staged.stagedPath standardDirectory ending before target project =
      .ok (project / standardDirectory / Path.ofText (place.text ++ ending)) := by
    unfold Staged.stagedPath
    rw [inside]
    rfl
  obtain ⟨copyNames, copyLies⟩ := liesIn_of_stagedPath clean.written plain .copy (staged ".bak")
  obtain ⟨markerNames, markerLies⟩ :=
    liesIn_of_stagedPath clean.written plain .marker (staged ".absent")
  refine ⟨_, _, copyNames, markerNames, copyLies, markerLies, ?_⟩
  unfold stage
  rw [Action.bind_of_ok (Action.ask_of_ok (staged ".bak")),
    Action.bind_of_ok (Action.ask_of_ok (staged ".absent")),
    Action.bind_of_ok (clean.deleteFile_eq copyLies),
    Action.bind_of_ok (clean.deleteFile_eq markerLies)]

/-- What is done for a file of the project that can be asked about makes the directory first. -/
theorem open_of_stage {place : Path} (plain : target.Plain)
    (inside : placeInProject before target project = .ok place) {there : Bool}
    (answer : before.exists? target = .ok there) :
    Opened before project (stage standardDirectory target project before).2 := by
  obtain ⟨copy, marker, _, _, copyLies, markerLies, run⟩ := clean.stage_eq plain inside
  rw [run, Action.bind_of_ok (Action.askFault_of_ok answer)]
  cases there with
  | true =>
    refine Action.bind_rule (motive := Opened before project)
      (clean.open_of_makeDirectories copyLies) fun _ s₁ _ open_ => ?_
    refine Action.bind_rule (motive := Opened before project)
      ?_ fun _ _ _ open_ => open_
    -- The copy is not at the area itself, which is a directory.
    rcases Action.copyFile_cases target copy s₁ with ⟨_, _, _, inner, _, leaf, run⟩ | ⟨f, run⟩
    · rw [run]
      refine (at?_insert inner _ _).trans ((if_neg ?_).trans open_)
      intro same
      exact leaf (same ▸ open_)
    · rwa [run]
  | false =>
    obtain ⟨ancestor, nearest⟩ := nearestAncestor_eq_ok answer
    change Opened before project ((Action.askFault (·.nearestAncestor target) >>= fun ancestor =>
      (Action.writeText marker ancestor.text >>= fun _ => pure true) : Action Bool) before).2
    rw [Action.bind_of_ok (Action.askFault_of_ok nearest)]
    exact Action.bind_rule (motive := Opened before project)
      (clean.open_of_writeText markerLies _) fun _ _ _ open_ => open_

end Clean

/-- What lies outside the staging directory is left alone. -/
theorem same_of_alters (sound : before.tree.Sound) (leads : before.LeadsToDirectory project)
    (alters : Alters (area before project) before s) {m : Location}
    (outside : ¬outer before project <+: m) : s.tree.at? m = before.tree.at? m := by
  have beyond : ¬area before project <+: m := fun inside =>
    outside ((outer_prefix_area before project).trans inside)
  refine (alters.outside m beyond).resolve_right ?_
  rintro ⟨absent, _, above⟩
  -- What is above the staging directory is above the project, and that is there.
  have part : m <+: before.location project := by
    rcases List.prefix_or_prefix_of_prefix above (outer_prefix_area before project) with part | part
    · refine (List.prefix_concat_iff.mp part).resolve_left ?_
      rintro rfl
      exact outside List.prefix_rfl
    · exact absurd part outside
  have open_ : before.tree.at? (before.location project) = some .directory := leads.2
  by_cases same : m = before.location project
  · cases absent.symm.trans (same ▸ open_)
  · cases absent.symm.trans (sound.above (by rw [open_]; nofun) part same)

theorem Setting.of_alters (setting : Setting before project)
    (alters : Alters (area before project) before s) : Setting s project where
  written := by
    have place : s.workingDirectory = before.workingDirectory := by rw [alters.beside]
    unfold Written
    rw [place]
    exact setting.written
  sound := alters.sound setting.sound
  steady := setting.steady.of_alters alters fun there => by
    refine alters.kept ?_ there
    intro inside
    have long := inside.length_le
    rw [area, List.length_append] at long
    have some : standardDirectory.names.length = 2 := by decide
    omega

/-- The first file is the one that fails, before anything is made for it: it lies outside the
project, or a name on the way to it is too long. -/
def FailsAtOnce (s : Site) (project : Path) (files : List Path) : Prop :=
  ∃ target rest, files = target :: rest ∧
    (¬s.location project <+: s.location target ∨ s.locate target = .error .nameTooLong)

theorem placeInProject_isSome (written : s.Written) :
    (∃ place, placeInProject s target project = .ok place) ↔
      s.location project <+: s.location target := by
  unfold placeInProject Path.relativeTo?
  rw [resolve_eq written.straight, resolve_eq written.straight]
  simp only [decide_true, Bool.true_and, List.isPrefixOf_iff_prefix]
  by_cases part : s.location project <+: s.location target <;> simp [part]

/-- A file over which staging fails at once. -/
theorem stage_of_stuck (clean : Clean before project) (plain : target.Plain)
    (stuck : ¬before.location project <+: before.location target ∨
      before.locate target = .error .nameTooLong) :
    ∃ e, stage standardDirectory target project before = (.error e, before) := by
  -- The file has no place in the project or, with one, a name too long to be asked about.
  cases inside : placeInProject before target project with
  | error e =>
    refine ⟨e, ?_⟩
    have asked : copyPath standardDirectory before target project = .error e := by
      rw [copyPath, stagedPath, inside]
      rfl
    unfold stage
    exact Action.bind_of_error (congrArg (·, before) asked)
  | ok place =>
    have part := (placeInProject_isSome clean.written).mp ⟨place, inside⟩
    have long := stuck.resolve_left (not_not.mpr part)
    have fault : before.exists? target = .error (.nameTooLong target) := by
      rw [exists?, entryOf?_of_tooLong long]
      rfl
    obtain ⟨copy, marker, _, _, _, _, run⟩ := clean.stage_eq plain inside
    exact ⟨_, run.trans (Action.bind_of_error (Action.askFault_of_error fault))⟩

/-- A staged snapshot that fails has changed nothing outside the directory of the staging directory,
and nothing at all just if it fails at once. -/
theorem failed_backup {files : List Path} {e : Failure} (clean : Clean before project)
    (plain : ∀ target ∈ files, target.Plain)
    (failed : backup standardDirectory files project before = (.error e, s)) :
    s = { before with tree := s.tree } ∧
      (∀ m, ¬outer before project <+: m → s.tree.at? m = before.tree.at? m) ∧
      ((∀ m, s.tree.at? m = before.tree.at? m) ↔ FailsAtOnce before project files) := by
  obtain ⟨e', run⟩ := stageAll_of_failed_backup failed
  have alters := alters_stageAll clean.setting plain (.refl _ before)
  rw [run] at alters
  refine ⟨alters.beside, fun m outside => same_of_alters clean.sound clean.leads alters outside, ?_⟩
  cases files with
  | nil => cases run
  | cons target rest =>
    obtain ⟨first, plain⟩ := List.forall_mem_cons.mp plain
    constructor
    · -- A first file that can be staged opens the area, which stays whatever happens later. The
      -- site has changed then.
      intro same
      by_contra late
      have part : before.location project <+: before.location target := by
        by_contra outside
        exact late ⟨target, rest, rfl, .inl outside⟩
      have short : before.locate target ≠ .error .nameTooLong := fun long =>
        late ⟨target, rest, rfl, .inr long⟩
      obtain ⟨place, inside⟩ := (placeInProject_isSome clean.written).mpr part
      obtain ⟨there, answer⟩ := exists?_isOk.mpr short
      have open_ : Opened before project
          (stageAll standardDirectory project (target :: rest) before).2 := by
        refine stageAll_cons_rule (motive := Opened before project)
          (clean.open_of_stage first inside answer) fun _ s₁ run₁ open_ => ?_
        have alters₁ := alters_stage clean.setting first (.refl _ before)
        rw [run₁] at alters₁
        exact (alters_stageAll (clean.setting.of_alters alters₁) plain (.refl _ s₁)).opens _ open_
      rw [run, Opened, same, clean.bare] at open_
      cases open_
    · rintro ⟨_, _, listed, stuck⟩
      obtain ⟨rfl, rfl⟩ := List.cons.inj listed
      obtain ⟨e₁, stuck⟩ := stage_of_stuck clean first stuck
      rw [stageAll, Action.bind_of_error stuck] at run
      cases run
      exact fun _ => rfl

namespace Workshop

/-- A file in a directory of its own. -/
def site : Site where
  tree := ((∅ : Tree).insert ["ws".toList] .directory).insert ["ws".toList, "a".toList]
    (.file [1] 0o644)
  workingDirectory := ["ws".toList]

theorem clean : Clean site {} where
  written := List.forall_mem_singleton.mpr (by decide)
  sound := by
    have outer : Tree.Sound ((∅ : Tree).insert ["ws".toList] .directory) :=
      Tree.sound_empty.insert rfl (by decide) fun _ => rfl
    exact outer.insert (by decide) (by decide) nofun
  leads := ⟨by decide, by decide⟩
  bare := by decide

theorem error_of_toOption {α : Type} {x : Except Failure α} (failed : x.toOption = none) :
    ∃ e, x = .error e := by
  cases x with
  | error e => exact ⟨e, rfl⟩
  | ok a => cases failed

end Workshop

/-- Where the first of the files lies elsewhere nothing is left of the others. -/
theorem elsewhere_first :
    (backup standardDirectory ["/elsewhere/b", "a"] {} Workshop.site).1.toOption = none ∧
      ∀ m, (backup standardDirectory ["/elsewhere/b", "a"] {} Workshop.site).2.tree.at? m =
        Workshop.site.tree.at? m := by
  have none : (backup standardDirectory ["/elsewhere/b", "a"] {} Workshop.site).1.toOption = none := by
    decide
  obtain ⟨e, failed⟩ := Workshop.error_of_toOption none
  have plain : ∀ target ∈ (["/elsewhere/b", "a"] : List Path), target.Plain :=
    List.forall_mem_cons.mpr
      ⟨Path.plain_ofText _, List.forall_mem_singleton.mpr (Path.plain_ofText _)⟩
  exact ⟨none, (failed_backup Workshop.clean plain (Prod.ext failed rfl)).2.2.mpr
    ⟨_, _, rfl, .inl (by decide)⟩⟩

/-- The copy of the first file is left behind where the second one lies elsewhere. -/
theorem copy_left_behind :
    Clean Workshop.site {} ∧
      Workshop.site.tree.at? (["ws", ".remediation", "staging", "a.bak"].map String.toList) = none ∧
      (backup standardDirectory ["a", "/elsewhere/b"] {} Workshop.site).1.toOption = none ∧
      (backup standardDirectory ["a", "/elsewhere/b"] {} Workshop.site).2.tree.at?
        (["ws", ".remediation", "staging", "a.bak"].map String.toList) = some (.file [1] 0o644) :=
  ⟨Workshop.clean, by decide +kernel⟩

end Staged

end Layering
