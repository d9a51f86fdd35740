import Layering.Proofs.Encoding
import Layering.Proofs.Standing

/-!
# Snapshots that leave standing

Taking, restoring and discarding a snapshot leaves standing what was there. A snapshot in memory
changes no file; one that is staged works out of sight. Restoring writes the files that were there and
removes those that were not, with no directory but what was made since.
-/

namespace Layering

open Site

/-! ### Markers as they are read -/

/-- Names that are changed one by one, but for two points, lead to a location just as deep. -/
theorem Location.length_walk_map {change : Text → Text} {names : List Text}
    (up : ∀ name, change name = upName ↔ name = upName) {here here' : Location}
    (level : here.length = here'.length) :
    (here.walk (names.map change)).length = (here'.walk names).length := by
  induction names generalizing here here' with
  | nil => exact level
  | cons name rest ih =>
    simp only [List.map_cons, walk, List.foldl_cons, up]
    split
    · exact ih (by simp [level])
    · exact ih (by simp [level])

theorem Text.unifyBreaks_eq_up (name : Text) : Text.unifyBreaks name = upName ↔ name = upName := by
  constructor
  · intro same
    rw [← same, Text.unifyBreaks_eq_self]
    rw [same]
    decide
  · rintro rfl
    rfl

namespace Site

variable {due hidden : Location → Prop} {before s s' : Site} {target stop : Path} {l : Location}

/-- Nothing was there on the way from a location to a place below it. -/
def Unmade (before : Site) (stop l : Location) : Prop :=
  ∀ m, stop <+: m → m ≠ stop → m <+: l → before.tree.at? m = none

/-- A marker tells of nothing that was there, even if its line breaks are read as others: a path that
is as deep leads to the same location or to none on the way. -/
theorem Unmade.of_text {p : Path} (unmade : before.Unmade (before.location p) l) (plain : p.Plain)
    (above : before.location p <+: l) :
    before.Unmade (before.location (Path.ofText (Text.unifyBreaks p.text))) l := by
  rw [Path.ofText_unifyBreaks_text plain]
  intro m below other part
  have level : (before.location ⟨p.anchor, p.names.map Text.unifyBreaks⟩).length =
      (before.location p).length := Location.length_walk_map Text.unifyBreaks_eq_up rfl
  have same := List.prefix_of_prefix_length_le (below.trans part) above level.le
  have same := same.eq_of_length level
  rw [same] at below other
  exact unmade m below other part

namespace Touches

variable {p : Path}

theorem of_writeBytes (p : Path) (bytes : Bytes) (s : Site) :
    Touches s (Action.writeBytes p bytes s).2 (s.location p) := by
  rcases Action.writeBytes_cases p bytes s with ⟨s', run, writes⟩ | ⟨f, s', run, grows, _⟩
  · rw [run]
    exact of_writes writes
  · rw [run]
    exact of_grows grows _

theorem of_deleteFile (p : Path) (s : Site) :
    Touches s (Action.deleteFile p s).2 (s.location p) := by
  rcases Action.deleteFile_clears p s with ⟨s', run, clears⟩ | ⟨f, run⟩
  · rw [run]
    exact clears.touches
  · rw [run]
    exact refl s _

theorem of_copyMode (source target : Path) (s : Site) :
    Touches s (Action.copyMode source target s).2 (s.location target) := by
  unfold Action.copyMode
  refine Action.bind_rule (motive := (Touches s · (s.location target))) (refl s _)
    fun ⟨_, mode⟩ s' asked _ => ?_
  obtain ⟨_, rfl⟩ := Action.askFault_eq_ok asked
  simp only [Action.change, withMode]
  cases way : s.locate target with
  | error o => exact refl s _
  | ok l =>
    obtain rfl := eq_location_of_locate way
    rcases entry : s.tree.at? (s.location target) with _ | ⟨_ | ⟨bytes, old⟩⟩
    · simpa only [entry] using refl s _
    · simpa only [entry] using refl s _
    · simpa only [entry] using of_mode entry mode

end Touches

end Site

/-- A restoration does to the site what it does where no fault is turned into a result. -/
theorem Restoration.orFault_site (target : Path) (copy : Option Path) (restore : Action Restoration)
    (s : Site) : (orFault target copy restore s).2 = (restore s).2 := by
  unfold orFault
  rw [Action.bind_apply, Action.attempt_apply]
  rcases restore s with ⟨e | r, s'⟩
  · simp only
    cases e.fault? <;> rfl
  · rfl

/-! ### Transactions that leave standing -/

/-- What a transaction about some files may rely on: each is due, and is reached straight from a
directory that stays. -/
structure Site.Grounds (due hidden : Location → Prop) (before : Site) (files : List Path) : Prop where
  here : ∀ target ∈ files, due (before.location target)
  rooted : ∀ target ∈ files, ∃ d rest, before.Rooted hidden target d rest

section

variable {due hidden : Location → Prop} {before s s' : Site} {target project : Path}
variable {files : List Path}

/-- A file that was not there is removed, with the directories that were made for it. -/
theorem Site.Stands.remove (h : Stands due hidden before s) (straight : upName ∉ s.workingDirectory)
    {d stop : Path} {rest : List Text} (rooted : before.Rooted hidden target d rest)
    (sound : before.tree.Sound) (absent : before.tree.at? (before.location target) = none)
    (unmade : before.Unmade (before.location stop) (before.location target)) (r : Restoration) :
    Stands due hidden before ((do
      Action.deleteFile target
      Action.pruneUpTo stop target.parent
      pure r : Action Restoration) s).2 := by
  have way := rooted.way (.refl sound due hidden)
  obtain ⟨name, _, _, last⟩ := way.last (way.inner (by simp [entryAt, absent]))
  refine Action.bind_rule (h.deleteFile (h.location target ▸ absent)) fun _ s₁ run h₁ => ?_
  have straight₁ : upName ∉ s₁.workingDirectory := by rwa [h₁.place, ← h.place]
  refine Action.bind_rule (h₁.pruneUpTo straight₁ fun m below other part was => ?_)
    fun _ _ _ h => h
  rw [h₁.location] at below other part
  have nothing := unmade m below other (part.trans (last ▸ List.prefix_append ..))
  cases was.symm.trans nothing

namespace InMemory

variable (sound : before.tree.Sound) (straight : upName ∉ before.workingDirectory)
variable (grounds : before.Grounds due hidden files)
include sound straight grounds

/-- The snapshot records each of the files. -/
def Remembers (before s : Site) (files : List Path) : Prop :=
  ∀ target ∈ files, ∃ held, Entries.get? (before.resolve target) s.held = some held ∧
    held.Records before (before.location target)

omit grounds in
theorem stands_restore (remembers : Remembers before s files) (member : target ∈ files)
    {d : Path} {rest : List Text} (rooted : before.Rooted hidden target d rest)
    (here : due (before.location target)) (h : Stands due hidden before s) :
    Stands due hidden before (restore target s).2 := by
  obtain ⟨held, found, records⟩ := remembers target member
  unfold restore
  rw [Action.bind_apply, Action.get_apply]
  simp only [resolve_of_workingDirectory h.place, found, Restoration.orFault_site]
  cases records with
  | contents there =>
    have here' := h.location target ▸ here
    exact Action.bind_rule (h.writeBytes here' (rooted.way h) _) fun _ _ _ h => h
  | absent missing nearest =>
    exact h.remove (h.place ▸ straight) rooted sound missing nearest.between _

/-- A transaction with a snapshot in memory leaves standing what its action leaves standing. -/
theorem stands_run {α : Type} {t : Transaction} (strategy : t.strategy = InMemory.strategy)
    (listed : t.files = files) (enabled : t.enabled = true) (accepts : α → Bool) {action : Action α}
    (acts : ∀ s, Stands due hidden before s → Pending s (action s).2 due) :
    Stands due hidden before (t.run accepts action before).2 := by
  -- Besides what stands, the memory holds what was taken of the files.
  refine Transaction.run_rule
    (fun s => Stands due hidden before s ∧ Remembers before s files) enabled ?_ ?_ (fun _ here => here.1) ?_ ?_
  · intro e s' failed
    rw [strategy] at failed
    change backup t.files t.project before = (.error e, s') at failed
    rw [site_of_failed_backup failed]
    exact .refl sound due hidden
  · intro handle s₁ taken
    rw [strategy, listed] at taken
    have ways : ∀ target ∈ files, ∃ base rest, before.Way target base rest := by
      intro target member
      obtain ⟨d, rest, rooted⟩ := grounds.rooted target member
      exact ⟨_, _, rooted.way (.refl sound due hidden)⟩
    obtain ⟨beside, records⟩ := records_backup t.project sound straight ways taken
    have stands₁ : Stands due hidden before s₁ :=
      (Stands.refl sound due hidden).of_tree_eq (by rw [beside]) (by rw [beside])
    have pending := acts s₁ stands₁
    refine ⟨stands₁.trans (.of_pending pending stands₁.sound), ?_⟩
    rw [Remembers, pending.held]
    exact records
  · intro s here
    rw [strategy, listed]
    refine Action.mapM_rule (motive := fun s => Stands due hidden before s ∧
      Remembers before s files) (fun target member s here => ?_) here
    obtain ⟨d, rest, rooted⟩ := grounds.rooted target member
    refine ⟨stands_restore sound straight here.2 member rooted (grounds.here target member) here.1, ?_⟩
    have beside := (keeps_restore straight target s here.1.place).beside
    rw [Remembers, beside]
    exact here.2
  · intro s here
    rw [strategy, listed]
    obtain ⟨held, run⟩ := forM_forget files s
    change Stands due hidden before (files.forM forget s).2
    rw [run]
    exact here.1.of_tree_eq rfl rfl

end InMemory

namespace Staged

/-! ### Staged snapshots -/

/-- If there is a marker for a place, no file was there, and the marker tells of nothing that was there
on the way. -/
def Marked (before s : Site) (project : Path) (place : List Text) : Prop :=
  ∀ bytes mode, s.tree.at? (area before project ++ suffixed ".absent" place) =
      some (.file bytes mode) →
    before.tree.at? (before.location project ++ place) = none ∧ ∃ stop : Path,
      bytes = Utf8.encode stop.text ∧
        before.Unmade (before.location (Path.ofText (Text.unifyBreaks stop.text)))
          (before.location project ++ place)

variable {place place' : List Text} {base : Location} {rest names : List Text} {q : Path}

theorem Marked.mono (marked : Marked before s project place)
    (files : ∀ bytes mode, s'.tree.at? (area before project ++ suffixed ".absent" place) =
        some (.file bytes mode) →
      s.tree.at? (area before project ++ suffixed ".absent" place) = some (.file bytes mode)) :
    Marked before s' project place :=
  fun bytes mode file => marked bytes mode (files bytes mode file)

/-- What is done at the staged place of a file leaves the markers of others as they are. -/
theorem Marked.of_touches {ending : Text} (marked : Marked before s project place')
    (ends : Ending ending) (inner : place ≠ []) (inner' : place' ≠ []) (differ : place' ≠ place)
    (touches : s.Touches s' (area before project ++ suffixed ending place)) :
    Marked before s' project place' :=
  marked.mono (touches.files _
    (area_append_ne .marker ends inner' inner fun same => differ same.2))

section

variable {ending : Text} (alters : Alters (area before project) before s)
include alters

theorem touches_deleted (staged : IsStaged before project ending place q)
    (run : Action.deleteFile q s = (.ok (), s')) :
    s.Touches s' (area before project ++ suffixed ending place) := by
  have touches := Touches.of_deleteFile q s
  rwa [run, staged.place_of_alters alters] at touches

theorem touches_copied (staged : IsStaged before project ending place q)
    {s₁ : Site} (made : Action.makeDirectories q.parent s = (.ok (), s₁))
    (copied : Action.copyFile target q s₁ = (.ok (), s')) :
    s.Touches s' (area before project ++ suffixed ending place) := by
  have grows := (Action.makes_makeDirectories q.parent s).grows
  rw [made] at grows
  rcases Action.copyFile_cases target q s₁ with ⟨bytes, mode, _, deep, parent, open_, run⟩ | ⟨f, stuck⟩
  · cases run.symm.trans copied
    have touches := (Touches.of_grows grows (s₁.location q)).trans
      (.of_file deep parent open_ bytes mode)
    rw [location_of_beside grows.beside, staged.place_of_alters alters] at touches ⊢
    exact touches
  · cases stuck.symm.trans copied

theorem touches_written (staged : IsStaged before project ending place q) {bytes : Bytes}
    (wrote : Action.writeBytes q bytes s = (.ok (), s')) :
    s.Touches s' (area before project ++ suffixed ending place) ∧
      ∃ mode, s'.tree.at? (area before project ++ suffixed ending place) =
        some (.file bytes mode) := by
  rw [← staged.place_of_alters alters]
  rcases Action.writeBytes_cases q bytes s with ⟨s₁, run, writes⟩ | ⟨f, s₁, stuck, _, _⟩
  · cases run.symm.trans wrote
    exact ⟨.of_writes writes, _, writes.written⟩
  · cases stuck.symm.trans wrote

end

/-- Where a file is absent after some staging it was absent before, and nothing was there on the way
from the nearest entry above it. -/
theorem unmade_of_alters {ancestor : Path} (setting : Setting before project)
    (alters : Alters (area before project) before s) (plain : target.Plain)
    (way : before.Way target base rest) (beside : ¬area before project <+: before.location target)
    (missing : s.exists? target = .ok false) (found : s.nearestAncestor target = .ok ancestor) :
    before.tree.at? (before.location target) = none ∧
      before.Unmade (before.location (Path.ofText (Text.unifyBreaks ancestor.text)))
        (before.location target) := by
  have way' := way.of_opens alters.opens (by rw [alters.beside])
  have sound := alters.sound setting.sound
  have gone := way'.firm.entryAt_of_not_exists sound missing
  obtain ⟨nearest, k, rfl⟩ := nearest_of_nearestAncestor sound way' gone found
  rw [entryAt, location_of_beside alters.beside] at gone
  simp only [location_of_beside alters.beside] at nearest
  -- Staging takes away nothing but what is staged, so what is not there was not there before.
  have absent_of {m : Location} (part : m <+: before.location target)
      (gone : s.tree.at? m = none) : before.tree.at? m = none := by
    by_contra there
    exact there ((alters.kept (fun inside => beside (inside.trans part)) there).symm.trans gone)
  have unmade : before.Unmade (before.location ⟨target.anchor, target.names.take k⟩)
      (before.location target) :=
    fun m below other part => absent_of part (nearest.between m below other part)
  refine ⟨absent_of List.prefix_rfl gone, unmade.of_text ?_ nearest.above⟩
  exact fun name member => plain name (List.mem_of_mem_take member)

theorem written_of_alters (written : before.Written)
    (alters : Alters (area before project) before s) : s.Written := by
  have place : s.workingDirectory = before.workingDirectory := by rw [alters.beside]
  unfold Written
  rwa [place]

section

variable (setting : Setting before project) (alters : Alters (area before project) before s)
variable (plain : target.Plain) (way : before.Way target base rest)
include setting alters plain way

/-- A directory cannot be staged. -/
theorem leaf_of_stage {absent : Bool}
    (run : stage standardDirectory target project s = (.ok absent, s')) :
    before.entryAt target ≠ some .directory := by
  intro open_
  obtain ⟨copy, marker, s₁, s₂, copyAsked, markerAsked, deleted, deleted', run⟩ := stage_eq_ok run
  have written := written_of_alters setting.written alters
  obtain ⟨_, copyLies⟩ := liesIn_of_stagedPath written plain .copy copyAsked
  obtain ⟨_, markerLies⟩ := liesIn_of_stagedPath written plain .marker markerAsked
  have alters₁ := copyLies.alters_deleteFile alters
  rw [deleted] at alters₁
  have alters₂ := markerLies.alters_deleteFile alters₁
  rw [deleted'] at alters₂
  rcases run with ⟨_, run⟩ | ⟨missing, _⟩
  · obtain ⟨⟨⟩, s₃, made, run⟩ := Action.bind_eq_ok run
    obtain ⟨⟨⟩, s₄, copied, run⟩ := Action.bind_eq_ok run
    have firm := (setting.steady.firm setting.sound).of_opens alters₂.opens
      (start_of_beside alters₂.beside project)
    have alters₃ := copyLies.alters_makeDirectories alters₂ (copyLies.firm firm)
    rw [made] at alters₃
    rcases Action.copyFile_cases target copy s₃ with ⟨bytes, mode, read, _⟩ | ⟨f, stuck⟩
    · have file := (read_eq_ok.mp read).2
      rw [entryAt, location_of_beside alters₃.beside, alters₃.opens _ open_] at file
      cases file
    · cases stuck.symm.trans copied
  · have way₂ := way.of_opens alters₂.opens (by rw [alters₂.beside])
    have gone := way₂.firm.entryAt_of_not_exists (alters₂.sound setting.sound) missing
    rw [entryAt, location_of_beside alters₂.beside, alters₂.opens _ open_] at gone
    cases gone

/-- A file that is staged gets a marker only if it is absent, and others keep theirs. -/
theorem marked_stage {absent : Bool} (leads : before.LeadsToDirectory project)
    (beside : ¬area before project <+: before.location target)
    (run : stage standardDirectory target project s = (.ok absent, s')) :
    ∃ place ≠ [], before.location target = before.location project ++ place ∧
      Marked before s' project place ∧ ∀ place' ≠ [], place' ≠ place →
        Marked before s project place' → Marked before s' project place' := by
  have leaf := leaf_of_stage setting alters plain way run
  have other : before.location target ≠ before.location project :=
    fun same => leaf (by rw [entryAt, same]; exact leads.2)
  obtain ⟨place, inner, at_, copy, marker, s₁, s₂, copyStaged, markerStaged, deleted, deleted', run⟩ :=
    exists_staged_of_stage setting plain other alters run
  obtain ⟨alters₁, _, _⟩ := deleteFile_staged setting alters copyStaged deleted
  have alters₁' := alters.trans alters₁
  obtain ⟨alters₂, unmarked, _⟩ := deleteFile_staged setting alters₁' markerStaged deleted'
  have alters₂' := alters₁'.trans alters₂
  have kept {place' : List Text} (inner' : place' ≠ []) (differ : place' ≠ place)
      (marked : Marked before s project place') : Marked before s₂ project place' := by
    have marked₁ := marked.of_touches .copy inner inner' differ
      (touches_deleted alters copyStaged deleted)
    exact marked₁.of_touches .marker inner inner' differ
      (touches_deleted alters₁' markerStaged deleted')
  refine ⟨place, inner, at_, ?_⟩
  -- Either a copy is made, and the marker is gone, or the marker is written.
  rcases run with ⟨_, run⟩ | ⟨missing, ancestor, found, wrote⟩
  · obtain ⟨⟨⟩, s₃, made, run⟩ := Action.bind_eq_ok run
    obtain ⟨⟨⟩, s₄, copied, run⟩ := Action.bind_eq_ok run
    cases run
    have touches := touches_copied alters₂' copyStaged made copied
    refine ⟨fun bytes mode file => ?_, fun place' inner' differ marked => ?_⟩
    · have old := touches.files _
        (area_append_ne .marker .copy inner inner fun same => absurd same.1 (by decide)) _ _ file
      cases unmarked.symm.trans old
    · exact (kept inner' differ marked).of_touches .copy inner inner' differ touches
  · obtain ⟨touches, mode, written⟩ := touches_written alters₂' markerStaged wrote
    refine ⟨fun bytes mode file => ?_, fun place' inner' differ marked => ?_⟩
    · cases written.symm.trans file
      obtain ⟨gone, unmade⟩ := unmade_of_alters setting alters₂' plain way beside missing found
      rw [← at_]
      exact ⟨gone, ancestor, rfl, unmade⟩
    · exact (kept inner' differ marked).of_touches .marker inner inner' differ touches

end

theorem marked_stageAll {absent : List Path} (setting : Setting before project)
    (leads : before.LeadsToDirectory project) (plain : ∀ target ∈ files, target.Plain)
    (ways : ∀ target ∈ files, ∃ base rest, before.Way target base rest)
    (beside : ∀ target ∈ files, ¬area before project <+: before.location target)
    (run : stageAll standardDirectory project files before = (.ok absent, s')) :
    ∀ target ∈ files, ∃ place ≠ [], before.location target = before.location project ++ place ∧
      Marked before s' project place :=
  (stageAll_rule (I := Alters (area before project) before)
    (A := fun target place => before.location target = before.location project ++ place)
    (T := fun s => Marked before s project)
    (fun target member s missing s₁ alters first => by
      obtain ⟨base, names, way⟩ := ways target member
      have alters₁ := alters_stage setting (plain target member) alters
      rw [first] at alters₁
      exact ⟨alters₁,
        marked_stage setting alters (plain target member) way leads (beside target member) first⟩)
    (.refl _ before) run).2.1

/-! ### What is out of sight -/

/-- The staging directory and what is with it. -/
def Hidden (before : Site) (project : Path) (l : Location) : Prop := outer before project <+: l

theorem hidden_of_inside {l : Location} (inside : area before project <+: l) :
    Hidden before project l := (outer_prefix_area before project).trans inside

variable {due : Location → Prop}

theorem stands_of_alters (sound : before.tree.Sound) (leads : before.LeadsToDirectory project)
    (alters : Alters (area before project) before s) :
    Stands due (Hidden before project) before s := by
  refine (Stands.refl sound due _).of_aside (by rw [alters.beside]) (alters.sound sound) ?_
  exact fun l outside => same_of_alters sound leads alters outside

theorem LiesIn.location_parent (lies : LiesIn project q names) (s : Site) :
    s.location q.parent = s.location project ++ (standardDirectory.names ++ names.dropLast) := by
  have forward : upName ∉ standardDirectory.names ++ names.dropLast := fun up =>
    lies.forward ((List.mem_append.mp up).elim (List.mem_append_left _)
      fun last => List.mem_append_right _ (List.dropLast_subset _ last))
  have parent : q.parent = project / ⟨.here, standardDirectory.names ++ names.dropLast⟩ := by
    rw [lies.path, Path.div_eq rfl, Path.div_eq rfl, Path.parent]
    simp [← List.append_assoc, List.dropLast_append_of_ne_nil lies.inner]
  rw [parent, location_join rfl forward]

/-- Discarding what is staged changes nothing that is in sight. -/
theorem stands_forget (straight : upName ∉ before.workingDirectory) (lies : LiesIn project q names)
    (h : Stands due (Hidden before project) before s) :
    Stands due (Hidden before project) before (forget project q s).2 := by
  have at_ : s.location q = area before project ++ names := by
    rw [h.location, lies.location_eq]
  unfold forget
  refine Action.bind_rule (motive := Stands due (Hidden before project) before) ?_
    fun _ s₁ _ h₁ => ?_
  · rcases Action.deleteFile_clears q s with ⟨s', run, clears⟩ | ⟨f, run⟩
    · rw [run]
      refine h.of_aside (by rw [clears.touches.beside]) (clears.touches.sound h.sound) ?_
      intro l outside
      refine clears.other fun same => outside (hidden_of_inside ?_)
      rw [same, at_]
      exact List.prefix_append ..
    · rwa [run]
  · have prunes := Action.prunes_pruneUpTo (h₁.place ▸ straight) project q.parent
    refine h₁.of_aside (by rw [prunes.beside]) (prunes.sound h₁.sound) fun l outside => ?_
    refine (prunes.entries l).resolve_right ?_
    -- What is pruned lies below the project on the way into the staging directory.
    rintro ⟨_, _, ⟨more, rfl⟩, other, part⟩
    have names' : standardDirectory.names = [".remediation".toList, "staging".toList] := by decide
    rw [lies.location_parent, List.prefix_append_right_inj, names'] at part
    cases more with
    | nil => simp at other
    | cons name more =>
      obtain ⟨rfl, _⟩ := List.cons_prefix_cons.mp part
      refine outside ⟨more, ?_⟩
      rw [outer, h₁.location, List.append_assoc]
      rfl

theorem stands_cleanup (written : before.Written) (plain : ∀ target ∈ files, target.Plain)
    (h : Stands due (Hidden before project) before s) :
    Stands due (Hidden before project) before
      (files.forM (fun target => forgetTarget standardDirectory target project) s).2 := by
  refine Action.forM_rule (fun target member s h => ?_) h
  have here : s.Written := by
    unfold Written
    rwa [h.place]
  unfold forgetTarget
  refine Action.bind_rule h fun copy s₁ asked _ => ?_
  obtain ⟨copyAsked, rfl⟩ := Action.ask_eq_ok asked
  obtain ⟨_, copyLies⟩ := liesIn_of_stagedPath here (plain target member) .copy copyAsked
  refine Action.bind_rule h fun marker s₁ asked _ => ?_
  obtain ⟨markerAsked, rfl⟩ := Action.ask_eq_ok asked
  obtain ⟨_, markerLies⟩ := liesIn_of_stagedPath here (plain target member) .marker markerAsked
  refine Action.bind_rule (stands_forget written.straight copyLies h) fun _ s₁ _ h₁ => ?_
  exact stands_forget written.straight markerLies h₁

/-- Restoring a file leaves standing what was there before it was staged, and adds nothing to what
is staged. -/
theorem stands_restore {staged : Site} (written : before.Written) (sound : before.tree.Sound)
    {d : Path} (plain : target.Plain)
    (rooted : before.Rooted (Hidden before project) target d rest)
    (here : due (before.location target)) (beside : ¬area before project <+: before.location target)
    (inner : place ≠ []) (at_ : before.location target = before.location project ++ place)
    (marked : Marked before staged project place)
    (h : Stands due (Hidden before project) before s) (intact : Intact before staged s project) :
    Stands due (Hidden before project) before (restore standardDirectory target project s).2 ∧
      Intact before staged (restore standardDirectory target project s).2 project := by
  obtain ⟨copy, copyAsked, _⟩ := stagedPath_of_location written plain .copy inner at_
  obtain ⟨marker, markerAsked, markerStaged⟩ :=
    stagedPath_of_location written plain .marker inner at_
  rw [← stagedPath_of_workingDirectory h.place, ← copyPath] at copyAsked
  rw [← stagedPath_of_workingDirectory h.place, ← markerPath] at markerAsked
  rw [restore_eq copyAsked markerAsked, Restoration.orFault_site]
  rcases bring_cases copy marker target s with
    ⟨bytes, mode, _, run⟩ | ⟨bytes, mode, read, run⟩ | run | ⟨f, run⟩
  · rw [run]
    refine Action.bind_rule (motive := fun s => Stands due (Hidden before project) before s ∧
      Intact before staged s project) ?_ fun _ s₁ _ both => ?_
    · exact ⟨h.writeBytes (h.location target ▸ here) (rooted.way h) bytes,
        intact.of_touches beside (.of_writeBytes target bytes s)⟩
    · obtain ⟨h₁, intact₁⟩ := both
      refine Action.bind_rule (motive := fun s => Stands due (Hidden before project) before s ∧
        Intact before staged s project) ?_ fun _ _ _ both => both
      exact ⟨h₁.copyMode copy target, intact₁.of_touches beside (.of_copyMode copy target s₁)⟩
  · have file := (read_eq_ok.mp read).2
    rw [entryAt, h.location, markerStaged.location] at file
    obtain ⟨absent, stop, rfl, unmade⟩ :=
      marked bytes mode (intact.files _ (List.prefix_append ..) _ _ file)
    rw [run _ (Utf8.decode_encode _)]
    rw [← at_] at absent unmade
    refine ⟨h.remove (h.place ▸ written.straight) rooted sound absent unmade _, ?_⟩
    refine Action.bind_rule (motive := fun s => Intact before staged s project)
      (intact.of_touches beside (.of_deleteFile target s)) fun _ s₁ _ intact₁ => ?_
    refine Action.bind_rule (motive := fun s => Intact before staged s project)
      (intact₁.of_touches beside (.of_prunes (Action.prunes_pruneUpTo ?_ _ _) _))
      fun _ _ _ intact => intact
    exact intact₁.place ▸ written.straight
  · rw [run]
    exact ⟨h, intact⟩
  · rw [run]
    exact ⟨h, intact⟩

/-- What a transaction with staged snapshots may rely on besides: its files have plain names and lie
in sight. -/
structure InSight (before : Site) (project : Path) (files : List Path) : Prop where
  written : before.Written
  leads : before.LeadsToDirectory project
  plain : ∀ target ∈ files, target.Plain

theorem InSight.setting (sight : InSight before project files) (sound : before.tree.Sound) :
    Setting before project where
  written := sight.written
  sound := sound
  steady := .inr (exists_of_leads sight.leads)

/-- A transaction with staged snapshots leaves standing what its action leaves standing. -/
theorem stands_run {α : Type} {t : Transaction} (sound : before.tree.Sound)
    (sight : InSight before project files) (grounds : before.Grounds due (Hidden before project) files)
    (aside : ∀ m, due m → ¬Hidden before project m)
    (strategy : t.strategy = Staged.strategy standardDirectory) (listed : t.files = files)
    (about : t.project = project) (enabled : t.enabled = true) (accepts : α → Bool)
    {action : Action α}
    (acts : ∀ s, Stands due (Hidden before project) before s → Pending s (action s).2 due) :
    Stands due (Hidden before project) before (t.run accepts action before).2 := by
  have setting := sight.setting sound
  have beside : ∀ target ∈ files, ¬area before project <+: before.location target :=
    fun target member inside => aside _ (grounds.here target member) (hidden_of_inside inside)
  have ways : ∀ target ∈ files, ∃ base rest, before.Way target base rest := by
    intro target member
    obtain ⟨d, rest, rooted⟩ := grounds.rooted target member
    exact ⟨_, _, rooted.way (.refl sound due _)⟩
  refine Transaction.run_rule (fun s => Stands due (Hidden before project) before s ∧
    ∃ staged, Intact before staged s project ∧ ∀ target ∈ files, ∃ place ≠ [],
      before.location target = before.location project ++ place ∧
        Marked before staged project place) enabled ?_ ?_ (fun _ here => here.1) ?_ ?_
  · intro e s' failed
    rw [strategy, listed, about] at failed
    obtain ⟨_, run⟩ := stageAll_of_failed_backup failed
    have alters := alters_stageAll setting sight.plain (.refl _ before)
    rw [run] at alters
    exact stands_of_alters sound sight.leads alters
  · intro handle s₁ taken
    rw [strategy, listed, about] at taken
    obtain ⟨absent, run⟩ := stageAll_of_backup taken
    have alters := alters_stageAll setting sight.plain (.refl _ before)
    rw [run] at alters
    have stands₁ : Stands due (Hidden before project) before s₁ :=
      stands_of_alters sound sight.leads alters
    have marked := marked_stageAll setting sight.leads sight.plain ways beside run
    have pending := acts s₁ stands₁
    refine ⟨stands₁.trans (.of_pending pending stands₁.sound), s₁, ⟨?_, pending.sound, ?_⟩, marked⟩
    · rw [pending.place, stands₁.place]
    -- No file of the staging directory is due.
    · intro m inside bytes mode file
      have undue : ¬due m := fun here => aside m here (hidden_of_inside inside)
      by_cases new : s₁.tree.at? m = none
      · exact absurd (pending.tree.files m bytes mode new file) undue
      · rw [← pending.tree.kept_of_not_due new undue, file]
  · rintro s ⟨h, staged, intact, marked⟩
    rw [strategy, listed, about]
    let restored := (files.mapM (fun target => restore standardDirectory target project) s).2
    suffices both : Stands due (Hidden before project) before restored ∧
        Intact before staged restored project from ⟨both.1, staged, both.2, marked⟩
    refine Action.mapM_rule (motive := fun s => Stands due (Hidden before project) before s ∧
      Intact before staged s project) (fun target member s both => ?_) ⟨h, intact⟩
    obtain ⟨d, rest, rooted⟩ := grounds.rooted target member
    obtain ⟨place, inner, at_, marked⟩ := marked target member
    exact stands_restore sight.written sound (sight.plain target member) rooted
      (grounds.here target member) (beside target member) inner at_ marked both.1 both.2
  · rintro s ⟨h, _⟩
    rw [strategy, listed, about]
    exact stands_cleanup sight.written sight.plain h

end Staged

end

end Layering
