import Layering.Proofs.Restoring
import Layering.Proofs.StagedPlaces

/-!
# What is staged

Staging changes nothing outside the staging directory but for directories above it, and afterwards
every copy and every marker tells what its file was. Staging another file leaves them alone, because
it lies in another place.
-/

namespace Layering

namespace Site

variable {s s' s'' : Site} {p : Path} {target : Location} {region : Location}

/-- Nothing changed outside a region but for directories above it, and no directory is gone. -/
structure Alters (region : Location) (s s' : Site) : Prop where
  beside : s' = { s with tree := s'.tree }
  sound : s.tree.Sound → s'.tree.Sound
  opens : s.tree.Opens s'.tree
  outside : ∀ m, ¬region <+: m → s'.tree.at? m = s.tree.at? m ∨
    (s.tree.at? m = none ∧ s'.tree.at? m = some .directory ∧ m <+: region)

namespace Alters

theorem refl (region : Location) (s : Site) : Alters region s s :=
  ⟨rfl, id, fun _ => id, fun _ _ => .inl rfl⟩

theorem trans (first : Alters region s s') (second : Alters region s' s'') :
    Alters region s s'' where
  beside := by rw [second.beside, first.beside]
  sound sound := second.sound (first.sound sound)
  opens m open_ := second.opens m (first.opens m open_)
  outside m other := by
    rcases second.outside m other with same | ⟨absent, made, above⟩
    · rw [same]
      exact first.outside m other
    · rcases first.outside m other with same | ⟨_, made', _⟩
      · exact .inr ⟨by rw [← same, absent], made, above⟩
      · exact nomatch absent.symm.trans made'

/-- What was there outside the region is still there. -/
theorem kept (h : Alters region s s') {m : Location} (other : ¬region <+: m)
    (there : s.tree.at? m ≠ none) : s'.tree.at? m = s.tree.at? m :=
  (h.outside m other).resolve_right fun ⟨absent, _⟩ => there absent

/-- What lies apart from the region is as before. -/
theorem apart (h : Alters region s s') {m : Location} (other : ¬region <+: m)
    (above : ¬m <+: region) : s'.tree.at? m = s.tree.at? m :=
  (h.outside m other).resolve_right fun ⟨_, _, part⟩ => above part

theorem of_clears (inside : region <+: s.location p) (clears : Clears s s' p) :
    Alters region s s' where
  beside := clears.touches.beside
  sound := clears.touches.sound
  opens m open_ := by
    rcases clears.gone m with same | ⟨_, _, _, _, file⟩
    · rw [same, open_]
    · exact nomatch open_.symm.trans file
  outside m other := .inl (clears.other fun same => other (same ▸ inside))

/-- Directories on the way into the region are in it or above it. -/
theorem above_of_made (inside : region <+: s.location p) (firm : s.Firm p) {m : Location} {k : Nat}
    (other : ¬region <+: m) (absent : s.tree.at? m = none)
    (way : m = Location.walk (s.start p) (p.names.take k)) : m <+: region := by
  have part := firm.prefix_of_absent (way ▸ absent)
  exact (List.prefix_or_prefix_of_prefix (way ▸ part) inside).resolve_right other

theorem of_grows (inside : region <+: s.location p) (firm : s.Firm p) (grows : Grows s s' p) :
    Alters region s s' where
  beside := grows.beside
  sound := grows.sound
  opens := grows.opens
  outside m other := by
    rcases grows.entries m with same | ⟨absent, made, k, way⟩
    · exact .inl same
    · exact .inr ⟨absent, made,
        above_of_made inside firm other absent (Tree.eq_walk_of_follow way)⟩

theorem of_file {l : Location} (inside : region <+: l) (inner : l ≠ [])
    (parent : s.tree.at? l.dropLast = some .directory) (leaf : s.tree.at? l ≠ some .directory)
    (bytes : Bytes) (mode : Nat) : Alters region s (s.insert l (.file bytes mode)) where
  beside := rfl
  sound := (Touches.of_file inner parent leaf bytes mode).sound
  opens m open_ := by
    have other : m ≠ l := by
      rintro rfl
      exact leaf open_
    rw [at?_insert inner, if_neg other, open_]
  outside m other := by
    have other' : m ≠ l := by
      rintro rfl
      exact other inside
    rw [at?_insert inner, if_neg other']
    exact .inl rfl

theorem of_writes {bytes : Bytes} (inside : region <+: s.location p) (firm : s.Firm p)
    (writes : Writes s s' p bytes) : Alters region s s' where
  beside := writes.beside
  sound := writes.sound
  opens m open_ := by
    have other : m ≠ s.location p := by
      rintro rfl
      exact writes.free open_
    rcases writes.others m other with same | ⟨absent, _⟩
    · rw [same, open_]
    · exact nomatch absent.symm.trans open_
  outside m other := by
    rcases writes.others m (fun same => other (same ▸ inside)) with same | ⟨absent, made, k, way⟩
    · exact .inl same
    · rw [Path.parent, List.dropLast_eq_take, List.take_take] at way
      exact .inr ⟨absent, made, above_of_made inside firm other absent way⟩

end Alters

/-- A path that goes on from a firm one. -/
theorem Firm.join {q : Path} (firm : s.Firm p) (relative : q.isAbsolute = false)
    (forward : upName ∉ q.names) : s.Firm (p / q) := by
  rw [Path.div_eq relative]
  obtain ⟨front, back, l, names, forward', way⟩ := firm
  exact ⟨front, back ++ q.names, l, by rw [names, List.append_assoc],
    List.not_mem_append forward' forward, way⟩

/-- A steady path stays so where its location stays as it is. -/
theorem Steady.of_alters (steady : s.Steady p) (alters : Alters region s s')
    (same : s.entryAt p ≠ none → s'.tree.at? (s.location p) = s.entryAt p) : s'.Steady p := by
  refine steady.imp_right fun there => ?_
  have entry := (locate_of_exists there).2
  exact exists_of_opens alters.opens (start_of_beside alters.beside p) there
    (by rwa [same entry])

end Site

namespace Action

open Site

variable {s : Site}

theorem copyFile_cases (source target : Path) (s : Site) :
    (∃ bytes mode, s.read source = .ok (bytes, mode) ∧ s.location target ≠ [] ∧
      s.tree.at? (s.location target).dropLast = some .directory ∧
      s.tree.at? (s.location target) ≠ some .directory ∧
      copyFile source target s = (.ok (), s.insert (s.location target) (.file bytes mode))) ∨
    ∃ f, copyFile source target s = (.error (.fault f), s) := by
  unfold copyFile
  rw [bind_apply]
  simp only [askFault, ask_apply]
  cases read : s.read source with
  | error f => exact .inr ⟨f, rfl⟩
  | ok there =>
    obtain ⟨bytes, mode⟩ := there
    simp only [Except.mapError, change, withFile]
    cases taken : s.slot? target with
    | error o => exact .inr ⟨_, rfl⟩
    | ok slot =>
      cases slot with
      | none => exact .inr ⟨_, rfl⟩
      | some l =>
        obtain ⟨rfl, inner, parent, _⟩ := slot_eq_some taken
        cases open_ : s.tree.isDirectory (s.location target) with
        | true => exact .inr ⟨_, by simp [open_]; rfl⟩
        | false =>
          have leaf : s.tree.at? (s.location target) ≠ some .directory := by
            rw [Ne, ← Tree.isDirectory_iff, open_]
            simp
          exact .inl ⟨bytes, mode, rfl, inner, parent, leaf, by simp [open_]⟩

end Action

namespace Staged

open Site

/-- A site and a project in which files can be staged. -/
structure Setting (before : Site) (project : Path) : Prop where
  written : before.Written
  sound : before.tree.Sound
  steady : before.Steady project

/-- A file that can be staged: it lies neither in nor above the staging directory. -/
structure Fits (before : Site) (project target : Path) : Prop where
  plain : target.Plain
  steady : before.Steady target
  below : ¬area before project <+: before.location target
  above : ¬before.location target <+: area before project

/-- What is staged at a place is what was there. -/
structure Tells (before s : Site) (project : Path) (place : List Text) : Prop where
  copy : ∀ bytes mode, s.tree.at? (area before project ++ suffixed ".bak" place) =
      some (.file bytes mode) →
    before.tree.at? (before.location project ++ place) = some (.file bytes mode)
  marker : ∀ bytes mode, s.tree.at? (area before project ++ suffixed ".absent" place) =
      some (.file bytes mode) →
    before.tree.at? (before.location project ++ place) = none ∧
      ∃ stop : Path, bytes = Utf8.encode stop.text

/-- A file was found as it was, or was not there. -/
def Known (before : Site) (target : Path) : Prop :=
  (∃ bytes mode, before.read target = .ok (bytes, mode)) ∨
    upName ∉ target.names ∧ before.entryAt target = none

variable {before s s' s'' : Site} {project target q : Path} {ending : Text}
variable {place place' : List Text}

theorem Tells.mono (tells : Tells before s project place)
    (files : ∀ ending, Ending ending → ∀ bytes mode,
      s'.tree.at? (area before project ++ suffixed ending place) = some (.file bytes mode) →
      s.tree.at? (area before project ++ suffixed ending place) = some (.file bytes mode)) :
    Tells before s' project place where
  copy bytes mode file := tells.copy bytes mode (files _ .copy bytes mode file)
  marker bytes mode file := tells.marker bytes mode (files _ .marker bytes mode file)

theorem Fits.other (fits : Fits before project target) :
    before.location target ≠ before.location project :=
  fun same => fits.above (same ▸ List.prefix_append ..)

/-- Staged files of different places or endings are different. -/
theorem area_append_ne {ending' : Text} (ends : Ending ending) (ends' : Ending ending')
    (inner : place ≠ []) (inner' : place' ≠ []) (other : ¬(ending = ending' ∧ place = place')) :
    area before project ++ suffixed ending place ≠
      area before project ++ suffixed ending' place' :=
  fun same => other (suffixed_inj ends ends' inner inner' (List.append_cancel_left same))

namespace Setting

variable (setting : Setting before project) (alters : Alters (area before project) before s)
include setting alters

theorem sound_of_alters : s.tree.Sound := alters.sound setting.sound

theorem firm_of_isStaged (staged : IsStaged before project ending place q) : s.Firm q := by
  rw [staged.path]
  refine Firm.join ?_ rfl staged.forward
  exact (setting.steady.firm setting.sound).of_opens alters.opens (start_of_beside alters.beside _)

end Setting

theorem IsStaged.place_of_alters (staged : IsStaged before project ending place q)
    (alters : Alters (area before project) before s) :
    s.location q = area before project ++ suffixed ending place := by
  rw [location_of_beside alters.beside, staged.location]

theorem IsStaged.inside (staged : IsStaged before project ending place q)
    (alters : Alters (area before project) before s) :
    area before project <+: s.location q := by
  rw [staged.place_of_alters alters]
  exact List.prefix_append ..

/-- Removing a staged file leaves nothing in its place. -/
theorem deleteFile_staged (setting : Setting before project)
    (alters : Alters (area before project) before s)
    (staged : IsStaged before project ending place q)
    (run : Action.deleteFile q s = (.ok (), s')) :
    Alters (area before project) s s' ∧
      s'.tree.at? (area before project ++ suffixed ending place) = none ∧
      ∀ m ≠ area before project ++ suffixed ending place, s'.tree.at? m = s.tree.at? m := by
  have at_ := staged.place_of_alters alters
  rcases Action.deleteFile_clears q s with ⟨s₁, run', clears⟩ | ⟨f, stuck⟩
  · cases run'.symm.trans run
    have gone := clears.entryAt (setting.sound_of_alters alters)
      (setting.firm_of_isStaged alters staged)
    rw [at_] at gone
    refine ⟨.of_clears (staged.inside alters) clears, gone, fun m other => clears.other ?_⟩
    rwa [at_]
  · exact nomatch stuck.symm.trans run

/-- A file that is found after some staging was found before. -/
theorem read_of_alters (setting : Setting before project) (fits : Fits before project target)
    (alters : Alters (area before project) before s) {bytes : Bytes} {mode : Nat}
    (read : s.read target = .ok (bytes, mode)) : before.read target = .ok (bytes, mode) := by
  obtain ⟨way, entry⟩ := read_eq_ok.mp read
  have start := start_of_beside alters.beside target
  have there : before.entryAt target = some (.file bytes mode) := by
    rw [Site.entryAt, location_of_beside alters.beside, alters.apart fits.below fits.above] at entry
    exact entry
  refine read_eq_ok.mpr ⟨?_, there⟩
  cases found : before.locate target with
  | ok l => rw [eq_location_of_locate found]
  | error o =>
    have long : o = .nameTooLong := by
      by_contra short
      have absent := (fits.steady.firm setting.sound).entryAt_of_error setting.sound found short
      cases there.symm.trans absent
    subst long
    have stuck := alters.opens.follow_tooLong found
    rw [← start] at stuck
    cases way.symm.trans stuck

/-- A file that is not found after some staging was not there before. -/
theorem absent_of_alters (setting : Setting before project) (fits : Fits before project target)
    (alters : Alters (area before project) before s) (missing : s.exists? target = .ok false) :
    upName ∉ target.names ∧ before.entryAt target = none := by
  have same := alters.apart fits.below fits.above
  have steady : s.Steady target := fits.steady.of_alters alters fun _ => same
  have forward := steady.resolve_right (by rw [missing]; nofun)
  refine ⟨forward, ?_⟩
  rw [Site.entryAt, ← same, ← location_of_beside alters.beside]
  exact (firm_of_forward forward).entryAt_of_not_exists (setting.sound_of_alters alters) missing

/-- What staging one file does. -/
structure Stages (before s s' : Site) (project target : Path) : Prop where
  alters : Alters (area before project) s s'
  known : Known before target
  tells : ∃ place ≠ [], before.location target = before.location project ++ place ∧
    Tells before s' project place ∧ ∀ place' ≠ [], place' ≠ place →
      Tells before s project place' → Tells before s' project place'

/-- Nothing but the copy and the marker of a place is new. -/
theorem Tells.other (inner : place ≠ []) (inner' : place' ≠ []) (other : place' ≠ place)
    (files : ∀ m ≠ area before project ++ suffixed ".bak" place,
      m ≠ area before project ++ suffixed ".absent" place → ∀ bytes mode,
      s'.tree.at? m = some (.file bytes mode) → s.tree.at? m = some (.file bytes mode))
    (tells : Tells before s project place') : Tells before s' project place' :=
  tells.mono fun _ ends => files _
    (area_append_ne ends .copy inner' inner fun same => other same.2)
    (area_append_ne ends .marker inner' inner fun same => other same.2)

/-- Copying a file stages it. -/
theorem stages_copy {copy : Path} (setting : Setting before project)
    (fits : Fits before project target) (alters : Alters (area before project) before s)
    (inner : place ≠ []) (at_ : before.location target = before.location project ++ place)
    (staged : IsStaged before project ".bak" place copy)
    (unmarked : s.tree.at? (area before project ++ suffixed ".absent" place) = none)
    (run : (do
      Action.makeDirectories copy.parent
      Action.copyFile target copy
      pure false : Action Bool) s = (.ok false, s')) :
    Alters (area before project) s s' ∧ Known before target ∧ Tells before s' project place ∧
      ∀ m ≠ area before project ++ suffixed ".bak" place, ∀ bytes mode,
        s'.tree.at? m = some (.file bytes mode) → s.tree.at? m = some (.file bytes mode) := by
  obtain ⟨⟨⟩, s₁, made, run⟩ := Action.bind_eq_ok run
  obtain ⟨⟨⟩, s₂, copied, run⟩ := Action.bind_eq_ok run
  cases run
  have makes := Action.makes_makeDirectories copy.parent s
  rw [made] at makes
  have grows := makes.grows.of_parent
  have alters₁ := Alters.of_grows (staged.inside alters) (setting.firm_of_isStaged alters staged)
    grows
  have alters₁' := alters.trans alters₁
  have place₁ := staged.place_of_alters alters₁'
  rcases Action.copyFile_cases target copy s₁ with
    ⟨bytes, mode, read, deep, parent, leaf, run⟩ | ⟨f, stuck⟩
  · cases run.symm.trans copied
    have was := read_of_alters setting fits alters₁' read
    have touches := (Touches.of_grows grows (s₁.location copy)).trans
      (.of_file deep parent leaf bytes mode)
    rw [place₁] at deep parent leaf touches ⊢
    refine ⟨alters₁.trans (.of_file (List.prefix_append ..) deep parent leaf bytes mode),
      .inl ⟨bytes, mode, was⟩, ⟨fun bytes' mode' file => ?_, fun bytes' mode' file => ?_⟩,
      touches.files⟩
    · rw [at?_insert deep, if_pos rfl] at file
      rw [← file, ← at_]
      exact (read_eq_ok.mp was).2
    · have old := touches.files _
        (area_append_ne .marker .copy inner inner fun same => nomatch same.1) _ _ file
      exact nomatch unmarked.symm.trans old
  · exact nomatch stuck.symm.trans copied

/-- Marking a file as absent stages it. -/
theorem stages_marker {marker : Path} (setting : Setting before project)
    (fits : Fits before project target) (alters : Alters (area before project) before s)
    (inner : place ≠ []) (at_ : before.location target = before.location project ++ place)
    (staged : IsStaged before project ".absent" place marker)
    (uncopied : s.tree.at? (area before project ++ suffixed ".bak" place) = none)
    (missing : s.exists? target = .ok false) {ancestor : Path}
    (run : Action.writeText marker ancestor.text s = (.ok (), s')) :
    Alters (area before project) s s' ∧ Known before target ∧ Tells before s' project place ∧
      ∀ m ≠ area before project ++ suffixed ".absent" place, ∀ bytes mode,
        s'.tree.at? m = some (.file bytes mode) → s.tree.at? m = some (.file bytes mode) := by
  obtain ⟨forward, absent⟩ := absent_of_alters setting fits alters missing
  rcases Action.writeBytes_cases marker (Utf8.encode ancestor.text) s with
    ⟨s₁, run', writes⟩ | ⟨f, s₁, stuck, _, _⟩
  · cases run'.symm.trans run
    have place₁ := staged.place_of_alters alters
    have written := writes.written
    have files := (Touches.of_writes writes).files
    have alters₁ := Alters.of_writes (staged.inside alters)
      (setting.firm_of_isStaged alters staged) writes
    rw [place₁] at written files
    refine ⟨alters₁, .inr ⟨forward, absent⟩, ⟨fun bytes mode file => ?_, fun bytes mode file => ?_⟩,
      files⟩
    -- An earlier copy was removed before the marker was written.
    · have old := files _
        (area_append_ne .copy .marker inner inner fun same => nomatch same.1) _ _ file
      exact nomatch uncopied.symm.trans old
    · cases written.symm.trans file
      exact ⟨at_ ▸ absent, ancestor, rfl⟩
  · exact nomatch stuck.symm.trans run

/-- Staging makes room for the copy and the marker of a file, and then writes one of the two. -/
theorem stage_eq_ok {directory : Path} {absent : Bool}
    (run : stage directory target project s = (.ok absent, s')) :
    ∃ copy marker s₁ s₂, copyPath directory s target project = .ok copy ∧
      markerPath directory s target project = .ok marker ∧
      Action.deleteFile copy s = (.ok (), s₁) ∧ Action.deleteFile marker s₁ = (.ok (), s₂) ∧
      (s₂.exists? target = .ok true ∧ (do
        Action.makeDirectories copy.parent
        Action.copyFile target copy
        pure false : Action Bool) s₂ = (.ok absent, s') ∨
      s₂.exists? target = .ok false ∧ ∃ ancestor, s₂.nearestAncestor target = .ok ancestor ∧
        Action.writeText marker ancestor.text s₂ = (.ok (), s')) := by
  unfold stage at run
  obtain ⟨copy, _, asked, run⟩ := Action.bind_eq_ok run
  obtain ⟨copyAsked, rfl⟩ := Action.ask_eq_ok asked
  obtain ⟨marker, _, asked, run⟩ := Action.bind_eq_ok run
  obtain ⟨markerAsked, rfl⟩ := Action.ask_eq_ok asked
  obtain ⟨⟨⟩, s₁, deleted, run⟩ := Action.bind_eq_ok run
  obtain ⟨⟨⟩, s₂, deleted', run⟩ := Action.bind_eq_ok run
  obtain ⟨there, _, asked, run⟩ := Action.bind_eq_ok run
  obtain ⟨found, rfl⟩ := Action.askFault_eq_ok asked
  refine ⟨copy, marker, s₁, s₂, copyAsked, markerAsked, deleted, deleted', ?_⟩
  cases there with
  | true => exact .inl ⟨found, run⟩
  | false =>
    obtain ⟨ancestor, _, asked, run⟩ := Action.bind_eq_ok run
    obtain ⟨nearest, rfl⟩ := Action.askFault_eq_ok asked
    obtain ⟨⟨⟩, s₃, wrote, run⟩ := Action.bind_eq_ok run
    cases run
    exact .inr ⟨found, ancestor, nearest, wrote⟩

/-- The copy and the marker for which staging makes room are those of the place of the file. -/
theorem exists_staged_of_stage {absent : Bool} (setting : Setting before project)
    (plain : target.Plain) (other : before.location target ≠ before.location project)
    (alters : Alters (area before project) before s)
    (run : stage standardDirectory target project s = (.ok absent, s')) :
    ∃ place ≠ [], before.location target = before.location project ++ place ∧
      ∃ copy marker s₁ s₂, IsStaged before project ".bak" place copy ∧
        IsStaged before project ".absent" place marker ∧
        Action.deleteFile copy s = (.ok (), s₁) ∧ Action.deleteFile marker s₁ = (.ok (), s₂) ∧
        (s₂.exists? target = .ok true ∧ (do
          Action.makeDirectories copy.parent
          Action.copyFile target copy
          pure false : Action Bool) s₂ = (.ok absent, s') ∨
        s₂.exists? target = .ok false ∧ ∃ ancestor, s₂.nearestAncestor target = .ok ancestor ∧
          Action.writeText marker ancestor.text s₂ = (.ok (), s')) := by
  obtain ⟨copy, marker, s₁, s₂, copyAsked, markerAsked, deleted, deleted', run⟩ := stage_eq_ok run
  have wd : s.workingDirectory = before.workingDirectory := by rw [alters.beside]
  rw [copyPath, stagedPath_of_workingDirectory wd] at copyAsked
  rw [markerPath, stagedPath_of_workingDirectory wd] at markerAsked
  obtain ⟨place, inner, at_⟩ := place_of_stagedPath setting.written other copyAsked
  obtain ⟨_, known, copyStaged⟩ := stagedPath_of_location setting.written plain .copy inner at_
  cases known.symm.trans copyAsked
  obtain ⟨_, known, markerStaged⟩ := stagedPath_of_location setting.written plain .marker inner at_
  cases known.symm.trans markerAsked
  exact ⟨place, inner, at_, copy, marker, s₁, s₂, copyStaged, markerStaged, deleted, deleted', run⟩

/-- Staging a file stages it. -/
theorem stages_stage {absent : Bool} (setting : Setting before project)
    (fits : Fits before project target) (alters : Alters (area before project) before s)
    (run : stage standardDirectory target project s = (.ok absent, s')) :
    Stages before s s' project target := by
  obtain ⟨place, inner, at_, copy, marker, s₁, s₂, copyStaged, markerStaged, deleted, deleted', run⟩ :=
    exists_staged_of_stage setting fits.plain fits.other alters run
  obtain ⟨alters₁, uncopied, same₁⟩ := deleteFile_staged setting alters copyStaged deleted
  obtain ⟨alters₂, unmarked, same₂⟩ :=
    deleteFile_staged setting (alters.trans alters₁) markerStaged deleted'
  have uncopied : s₂.tree.at? (area before project ++ suffixed ".bak" place) = none := by
    rw [same₂ _ (area_append_ne .copy .marker inner inner fun same => nomatch same.1), uncopied]
  have alters' := (alters.trans alters₁).trans alters₂
  -- Making room changes nothing but the copy and the marker of this place.
  have before₂ (m) (other : m ≠ area before project ++ suffixed ".bak" place)
      (other' : m ≠ area before project ++ suffixed ".absent" place) (bytes mode)
      (file : s₂.tree.at? m = some (.file bytes mode)) :
      s.tree.at? m = some (.file bytes mode) := by
    rwa [same₂ m other', same₁ m other] at file
  rcases run with ⟨_, run⟩ | ⟨missing, ancestor, _, wrote⟩
  · obtain rfl : absent = false := by
      obtain ⟨_, _, _, run⟩ := Action.bind_eq_ok run
      obtain ⟨_, _, _, run⟩ := Action.bind_eq_ok run
      cases run
      rfl
    obtain ⟨alters₃, known, tells, files⟩ :=
      stages_copy setting fits alters' inner at_ copyStaged unmarked run
    exact ⟨(alters₁.trans alters₂).trans alters₃, known, place, inner, at_, tells,
      fun _ inner' other => Tells.other inner inner' other fun m other other' bytes mode file =>
        before₂ m other other' bytes mode (files m other bytes mode file)⟩
  · obtain ⟨alters₃, known, tells, files⟩ :=
      stages_marker setting fits alters' inner at_ markerStaged uncopied missing wrote
    exact ⟨(alters₁.trans alters₂).trans alters₃, known, place, inner, at_, tells,
      fun _ inner' other => Tells.other inner inner' other fun m other other' bytes mode file =>
        before₂ m other other' bytes mode (files m other' bytes mode file)⟩

/-! ### All files of a snapshot -/

section

variable {directory : Path} {files rest absent : List Path}

theorem stageAll_cons_eq_ok
    (run : stageAll directory project (target :: rest) s = (.ok absent, s')) :
    ∃ missing s₁ more, stage directory target project s = (.ok missing, s₁) ∧
      stageAll directory project rest s₁ = (.ok more, s') := by
  unfold stageAll at run
  obtain ⟨missing, s₁, first, run⟩ := Action.bind_eq_ok run
  obtain ⟨more, s₂, others, run⟩ := Action.bind_eq_ok run
  cases run
  exact ⟨missing, s₁, more, first, others⟩

/-- What holds after the first file was staged, and then also after the others were, holds in the end. -/
theorem stageAll_cons_rule {motive : Site → Prop}
    (first : motive (stage directory target project s).2)
    (others : ∀ missing s₁, stage directory target project s = (.ok missing, s₁) → motive s₁ →
      motive (stageAll directory project rest s₁).2) :
    motive (stageAll directory project (target :: rest) s).2 := by
  unfold stageAll
  refine Action.bind_rule first fun missing s₁ staged held => ?_
  exact Action.bind_rule (others missing s₁ staged held) fun _ _ _ held => held

/-- Every file is staged at a place of its own (`A`). Where staging one file keeps an invariant (`I`) and
makes its place tell something (`T`), but no other place forget it, all places tell it in the end. -/
theorem stageAll_rule {I : Site → Prop} {A : Path → List Text → Prop}
    {T : Site → List Text → Prop}
    (step : ∀ target ∈ files, ∀ s missing s₁, I s →
      stage directory target project s = (.ok missing, s₁) →
      I s₁ ∧ ∃ place ≠ [], A target place ∧ T s₁ place ∧
        ∀ other ≠ [], other ≠ place → T s other → T s₁ other)
    (start : I s) (run : stageAll directory project files s = (.ok absent, s')) :
    I s' ∧ (∀ target ∈ files, ∃ place ≠ [], A target place ∧ T s' place) ∧
      ∀ place ≠ [], T s place → T s' place := by
  induction files generalizing s absent with
  | nil =>
    cases run
    exact ⟨start, fun _ listed => absurd listed List.not_mem_nil, fun _ _ => id⟩
  | cons target rest ih =>
    obtain ⟨missing, s₁, more, first, others⟩ := stageAll_cons_eq_ok run
    obtain ⟨step, steps⟩ := List.forall_mem_cons.mp step
    obtain ⟨inv, place, inner, at_, told, kept⟩ := step s missing s₁ start first
    obtain ⟨inv', each, later⟩ := ih steps inv others
    have own := later place inner told
    refine ⟨inv', List.forall_mem_cons.mpr ⟨⟨place, inner, at_, own⟩, each⟩, fun other inner' old => ?_⟩
    -- A file may be listed twice; its place then tells what it told the last time.
    by_cases same : other = place
    · rw [same]
      exact own
    · exact later other inner' (kept other inner' same old)

/-- A snapshot succeeds just if all files are staged. -/
theorem backup_cases (directory project : Path) (files : List Path) (s : Site) :
    (∃ absent s', stageAll directory project files s = (.ok absent, s') ∧
      backup directory files project s = (.ok ⟨strategyName, files, absent⟩, s')) ∨
    ∃ e e' s', stageAll directory project files s = (.error e', s') ∧
      backup directory files project s = (.error e, s') := by
  unfold backup
  rw [Action.bind_apply, Action.attempt_apply]
  rcases staged : stageAll directory project files s with ⟨e | absent, s₁⟩
  · right
    cases fault : e.fault? with
    | none => exact ⟨e, e, s₁, rfl, by simp only [fault, Action.throw_apply]⟩
    | some f => exact ⟨.noSnapshot f, e, s₁, rfl, by simp only [fault, Action.throw_apply]⟩
  · exact .inl ⟨absent, s₁, rfl, rfl⟩

theorem stageAll_of_backup {handle : SnapshotHandle}
    (run : backup directory files project s = (.ok handle, s')) :
    ∃ absent, stageAll directory project files s = (.ok absent, s') := by
  rcases backup_cases directory project files s with ⟨absent, _, staged, taken⟩ | ⟨_, _, _, _, failed⟩
  · cases taken.symm.trans run
    exact ⟨absent, staged⟩
  · cases failed.symm.trans run

theorem stageAll_of_failed_backup {e : Failure}
    (failed : backup directory files project s = (.error e, s')) :
    ∃ e', stageAll directory project files s = (.error e', s') := by
  rcases backup_cases directory project files s with ⟨_, _, _, taken⟩ | ⟨_, e', _, staged, run⟩
  · cases taken.symm.trans failed
  · cases run.symm.trans failed
    exact ⟨e', staged⟩

end

/-- After staging, what is staged of every file tells what it was. -/
structure StagedAll (before s : Site) (project : Path) (files : List Path) : Prop where
  alters : Alters (area before project) before s
  each : ∀ target ∈ files, Known before target ∧ ∃ place ≠ [],
    before.location target = before.location project ++ place ∧ Tells before s project place

theorem stagedAll_of_stageAll {files absent : List Path} (setting : Setting before project)
    (fits : ∀ target ∈ files, Fits before project target)
    (run : stageAll standardDirectory project files before = (.ok absent, s)) :
    StagedAll before s project files := by
  obtain ⟨alters, each, _⟩ := stageAll_rule (I := Alters (area before project) before)
    (A := fun target place => Known before target ∧
      before.location target = before.location project ++ place)
    (T := fun s => Tells before s project)
    (fun target member s _ _ alters first => by
      obtain ⟨alters₁, known, place, inner, at_, tells, kept⟩ :=
        stages_stage setting (fits target member) alters first
      exact ⟨alters.trans alters₁, place, inner, ⟨known, at_⟩, tells, kept⟩)
    (.refl _ before) run
  refine ⟨alters, fun target member => ?_⟩
  obtain ⟨place, inner, ⟨known, at_⟩, tells⟩ := each target member
  exact ⟨known, place, inner, at_, tells⟩

/-- A snapshot stages all of its files. -/
theorem stagedAll_of_backup {files : List Path} {handle : SnapshotHandle}
    (setting : Setting before project) (fits : ∀ target ∈ files, Fits before project target)
    (run : backup standardDirectory files project before = (.ok handle, s)) :
    StagedAll before s project files := by
  obtain ⟨absent, staged⟩ := stageAll_of_backup run
  exact stagedAll_of_stageAll setting fits staged

/-- Restores a file of which the copy and the marker are known. -/
def bring (copy marker target : Path) : Action Restoration := do
  if ← Action.askFault (·.exists? copy) then
    Action.writeBytes target (← Action.ask (·.readBytes copy))
    Action.copyMode copy target
    pure ⟨target, some copy, true, []⟩
  else if ← Action.askFault (·.exists? marker) then
    let ancestor := Path.ofText (← Action.ask (·.readText marker))
    Action.deleteFile target
    Action.pruneUpTo ancestor target.parent
    pure (.removed target)
  else pure (.unknown target)

/-- A file is restored from its copy or by its marker, unless there is neither or it cannot be
read. -/
theorem bring_cases (copy marker target : Path) (s : Site) :
    (∃ bytes mode, s.read copy = .ok (bytes, mode) ∧ bring copy marker target s = (do
      Action.writeBytes target bytes
      Action.copyMode copy target
      pure ⟨target, some copy, true, []⟩ : Action Restoration) s) ∨
    (∃ bytes mode, s.read marker = .ok (bytes, mode) ∧ ∀ t, Utf8.decode bytes = .ok t →
      bring copy marker target s = (do
        Action.deleteFile target
        Action.pruneUpTo (Path.ofText (Text.unifyBreaks t)) target.parent
        pure (.removed target) : Action Restoration) s) ∨
    bring copy marker target s = (.ok (.unknown target), s) ∨
    ∃ f, bring copy marker target s = (.error (.fault f), s) := by
  unfold bring
  rw [Action.bind_apply, Action.askFault, Action.ask_apply]
  cases copied : s.exists? copy with
  | error f => exact .inr (.inr (.inr ⟨f, rfl⟩))
  | ok found =>
    cases found with
    | true =>
      simp only [Except.mapError, ↓reduceIte]
      rw [Action.bind_apply, Action.ask_apply, readBytes]
      cases read : s.read copy with
      | error f => exact .inr (.inr (.inr ⟨f, rfl⟩))
      | ok there => exact .inl ⟨there.1, there.2, rfl, rfl⟩
    | false =>
      simp only [Except.mapError, Bool.false_eq_true, ↓reduceIte]
      rw [Action.bind_apply, Action.askFault, Action.ask_apply]
      cases marked : s.exists? marker with
      | error f => exact .inr (.inr (.inr ⟨f, rfl⟩))
      | ok found =>
        cases found with
        | false => exact .inr (.inr (.inl rfl))
        | true =>
          simp only [Except.mapError, ↓reduceIte]
          rw [Action.bind_apply, Action.ask_apply, readText, readBytes]
          cases read : s.read marker with
          | error f => exact .inr (.inr (.inr ⟨f, rfl⟩))
          | ok there =>
            refine .inr (.inl ⟨there.1, there.2, rfl, fun t decoded => ?_⟩)
            simp only [Except.map, Except.mapError, bind, Except.bind, decoded]

/-- A restoration finds the copy and the marker first. -/
theorem restore_eq {directory copy marker : Path}
    (copyAsked : copyPath directory s target project = .ok copy)
    (markerAsked : markerPath directory s target project = .ok marker) :
    restore directory target project s =
      Restoration.orFault target (some copy) (bring copy marker target) s := by
  unfold restore
  rw [Action.bind_apply, Action.ask_apply, copyAsked]
  simp only
  rw [Action.bind_apply, Action.ask_apply, markerAsked]
  rfl

/-- What is staged of a file restores it. -/
theorem restores_restore (setting : Setting before project) (fits : Fits before project target)
    (known : Known before target) (inner : place ≠ [])
    (at_ : before.location target = before.location project ++ place)
    (tells : Tells before s project place)
    (wd : s.workingDirectory = before.workingDirectory) (sound : s.tree.Sound) :
    Restoration.Restores true before s target (restore standardDirectory target project s) := by
  obtain ⟨copy, copyAsked, copyStaged⟩ :=
    stagedPath_of_location setting.written fits.plain .copy inner at_
  obtain ⟨marker, markerAsked, markerStaged⟩ :=
    stagedPath_of_location setting.written fits.plain .marker inner at_
  rw [← stagedPath_of_workingDirectory wd, ← copyPath] at copyAsked
  rw [← stagedPath_of_workingDirectory wd, ← markerPath] at markerAsked
  have start := start_of_workingDirectory wd target
  have places := location_of_workingDirectory wd
  rw [restore_eq copyAsked markerAsked]
  rcases bring_cases copy marker target s with
    ⟨bytes, mode, read, run⟩ | ⟨bytes, mode, read, run⟩ | run | ⟨f, run⟩
  · have file := (read_eq_ok.mp read).2
    rw [Site.entryAt, places, copyStaged.location] at file
    have was := at_ ▸ tells.copy bytes mode file
    rcases known with ⟨bytes', mode', known⟩ | ⟨_, absent⟩
    · cases (read_eq_ok.mp known).2.symm.trans was
      refine .congr run (Restoration.restores_copy known start ?_)
      intro s' writes bytes' mode' read'
      have file' := (read_eq_ok.mp read').2
      rw [Site.entryAt, location_of_beside writes.beside, places, copyStaged.location] at file'
      -- The copy is not the file, so it is the same after the writing as before.
      have other : area before project ++ suffixed ".bak" place ≠ s.location target := by
        rw [places]
        exact fun same => fits.below (same ▸ List.prefix_append ..)
      have old := tells.copy _ _ ((Touches.of_writes writes).files _ other _ _ file')
      cases (at_ ▸ old).symm.trans was
      rfl
    · cases absent.symm.trans was
  · have file := (read_eq_ok.mp read).2
    rw [Site.entryAt, places, markerStaged.location] at file
    obtain ⟨absent, stop, rfl⟩ := tells.marker bytes mode file
    rw [← at_] at absent
    rcases known with ⟨_, _, known⟩ | ⟨forward, _⟩
    · cases absent.symm.trans (read_eq_ok.mp known).2
    · refine .congr (run _ (Utf8.decode_encode _)) (Restoration.restores_absent sound ?_ forward ?_ _)
      · rw [wd]
        exact setting.written.straight
      · rwa [places]
  · rw [Restoration.orFault_ok run]
    exact ⟨.refl .., Spares.refl true before s, _, rfl, rfl, by simp [Restoration.unknown]⟩
  · exact .of_fault run

/-- No file is in the staging directory that was not staged. -/
structure Intact (before staged s : Site) (project : Path) : Prop where
  place : s.workingDirectory = before.workingDirectory
  sound : s.tree.Sound
  files : ∀ m, area before project <+: m → ∀ bytes mode,
    s.tree.at? m = some (.file bytes mode) → staged.tree.at? m = some (.file bytes mode)

theorem Intact.of_touches {staged : Site} (intact : Intact before staged s project)
    (below : ¬area before project <+: before.location target)
    (touches : Touches s s' (s.location target)) : Intact before staged s' project where
  place := by rw [touches.beside, intact.place]
  sound := touches.sound intact.sound
  files m inside bytes mode file := by
    refine intact.files m inside bytes mode (touches.files m ?_ bytes mode file)
    rintro rfl
    rw [location_of_workingDirectory intact.place] at inside
    exact below inside

/-- Restoring what is staged restores every file of which it says so. -/
theorem restoreAll_restores {staged : Site} {files : List Path} (setting : Setting before project)
    (fits : ∀ target ∈ files, Fits before project target)
    (all : StagedAll before staged project files) (intact : Intact before staged s project) :
    Restoration.RestoresAll true before s files
      (files.mapM (fun target => restore standardDirectory target project) s) := by
  refine Restoration.restoresAll (fun s' => Intact before staged s' project) ?_
    (fun target member s' s'' intact touches => intact.of_touches (fits target member).below touches)
    intact
  intro target member s' intact'
  obtain ⟨known, place, inner, at_, tells⟩ := all.each target member
  exact restores_restore setting (fits target member) known inner at_
    (tells.mono fun _ _ => intact'.files _ (List.prefix_append ..)) intact'.place intact'.sound

end Staged

end Layering
