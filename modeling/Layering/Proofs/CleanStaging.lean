import Layering.Proofs.Clearing
import Layering.Proofs.Staging

/-!
# Staging in a clean project

Where nothing was staged before, all that staging leaves is what is due in the staging directory. A
file that is restored is due no more, and forgetting what is staged leaves nothing of it.
-/

namespace Layering

namespace Site

variable {before s s' : Site} {due : Location → Prop} {p : Path} {base l : Location}
variable {rest : List Text}

theorem LeadsToDirectory.way (leads : s.LeadsToDirectory p) : s.Way p (s.location p) [] :=
  ⟨⟨p.names, (List.append_nil _).symm, leads.1⟩, leads.2, List.not_mem_nil⟩

namespace Pending

/-- A new file in a directory that is there. -/
theorem putFile (h : Pending before s due) (here : due l) (fresh : before.tree.at? l = none)
    (inner : l ≠ []) (parent : s.tree.at? l.dropLast = some .directory)
    (leaf : s.tree.at? l ≠ some .directory) (bytes : Bytes) (mode : Nat) :
    Pending before (s.insert l (.file bytes mode)) due := by
  have touches := Touches.of_file inner parent leaf bytes mode
  have file := (at?_insert (s := s) inner (.file bytes mode) l).trans (if_pos rfl)
  refine h.advance touches.beside touches.sound
    (h.tree.put (touches.sound h.sound) here file ?_ ?_)
  · intro e entry
    cases fresh.symm.trans entry
  · intro m other
    exact .inl (by rw [at?_insert inner, if_neg other])

/-- Nothing new that is due is left at the place of a file that was removed. -/
theorem deleteFile (h : Pending before s due) (way : before.Way p base rest)
    (fresh : before.entryAt p = none) (here : due (before.location p))
    (run : Action.deleteFile p s = (.ok (), s')) :
    Pending before s' due ∧ s'.tree.at? (before.location p) = none ∧
      ∀ m ≠ before.location p, s'.tree.at? m = s.tree.at? m := by
  rcases Action.deleteFile_clears p s with ⟨s₁, run', clears⟩ | ⟨f, stuck⟩
  · cases run'.symm.trans run
    have gone := clears.entryAt h.sound (h.way way).firm
    rw [h.location] at gone
    refine ⟨h.clears fresh here clears, gone, fun m other => clears.other ?_⟩
    rwa [h.location]
  · cases stuck.symm.trans run

end Pending

end Site

namespace Staged

open Site

/-- The directory in which the staging directory lies. -/
def outer (s : Site) (project : Path) : Location := s.location project ++ [".remediation".toList]

/-- A project in which nothing is staged. -/
structure Clean (before : Site) (project : Path) : Prop where
  written : before.Written
  sound : before.tree.Sound
  leads : before.LeadsToDirectory project
  bare : before.tree.at? (outer before project) = none

/-- A file of the project that can be staged, with names that a marker can hold. -/
structure Belongs (before : Site) (project target : Path) : Prop where
  plain : target.Plain
  single : ∀ name ∈ target.names, '\r' ∉ name
  inside : ∃ place ≠ [], before.location target = before.location project ++ place
  beside : ¬outer before project <+: before.location target

/-- The same of a file to which its path leads. -/
structure Suits (before : Site) (project target : Path) : Prop
    extends Belongs before project target where
  way : ∃ base rest, before.Way target base rest

/-- The place of a file in its project. -/
def placeOf (before : Site) (project target : Path) : List Text :=
  (before.location target).drop (before.location project).length

/-- Where the copy or the marker of a file lies. -/
def stagedLocation (before : Site) (project : Path) (ending : Text) (target : Path) : Location :=
  area before project ++ suffixed ending (placeOf before project target)

variable {before s s' : Site} {project target q : Path} {due : Location → Prop} {m : Location}
variable {ending : Text} {place place' : List Text}

theorem outer_prefix_area (before : Site) (project : Path) :
    outer before project <+: area before project := by
  have names : standardDirectory.names = [".remediation".toList, "staging".toList] := by
    decide
  rw [area, names, outer]
  exact ⟨["staging".toList], by simp⟩

theorem Suits.place_spec (suits : Suits before project target) :
    placeOf before project target ≠ [] ∧
      before.location target = before.location project ++ placeOf before project target := by
  obtain ⟨place, inner, at_⟩ := suits.inside
  rw [placeOf, at_, List.drop_left]
  exact ⟨inner, rfl⟩

namespace Clean

variable (clean : Clean before project)
include clean

theorem absent (inside : outer before project <+: m) : before.tree.at? m = none := by
  by_cases same : outer before project = m
  · rw [← same, clean.bare]
  · exact clean.sound.below (by simp [clean.bare]) inside same

theorem absent_area (rest : List Text) : before.tree.at? (area before project ++ rest) = none :=
  clean.absent ((outer_prefix_area before project).trans (List.prefix_append ..))

/-- Beside the staging directory all is as before, as long as nothing is due but in it. -/
theorem agree (pending : Pending before s due)
    (hidden : ∀ m, due m → outer before project <+: m) (beside : ¬outer before project <+: m) :
    s.tree.at? m = before.tree.at? m := by
  by_cases was : before.tree.at? m = none
  · by_contra changed
    rcases pending.tree.leads clean.sound was (fun absent => changed (absent.trans was.symm)) with
      here | ⟨l, here, part, other⟩
    · exact beside (hidden m here)
    -- What is new above the staging directory would be above the project.
    · rcases List.prefix_or_prefix_of_prefix part (hidden l here) with above | inside
      · rcases List.prefix_concat_iff.mp above with same | above
        · exact beside (same ▸ List.prefix_rfl)
        · have open_ : before.tree.at? (before.location project) = some .directory := clean.leads.2
          by_cases same : m = before.location project
          · rw [same, open_] at was
            cases was
          · cases was.symm.trans (clean.sound.above (by simp [open_]) above same)
      · exact beside inside
  · exact pending.tree.kept_of_not_due was fun here => beside (hidden m here)

theorem way_staged (staged : IsStaged before project ending place q) :
    before.Way q (before.location project) (standardDirectory.names ++ suffixed ending place) := by
  have way := clean.leads.way.append staged.forward
  rw [staged.path, Path.div_eq rfl]
  exact way

theorem nearest_staged (staged : IsStaged before project ending place q) :
    before.tree.Nearest (before.location project) (before.location q) := by
  have way := clean.way_staged staged
  have names : standardDirectory.names = [".remediation".toList, "staging".toList] := by
    decide
  refine ⟨?_, ?_, ?_⟩
  · rw [way.location]
    exact List.prefix_append ..
  · rw [← Site.entryAt, clean.leads.2]
    simp
  · rintro m ⟨more, rfl⟩ other part
    rw [way.location, List.prefix_append_right_inj, names] at part
    cases more with
    | nil => simp at other
    | cons next more =>
      obtain ⟨rfl, _⟩ := List.cons_prefix_cons.mp part
      exact clean.absent ⟨more, by simp [outer]⟩

/-- The path of the copy or the marker of a file. -/
theorem stagedPath (suits : Suits before project target) (ends : Ending ending)
    (wd : s.workingDirectory = before.workingDirectory) :
    ∃ q, Staged.stagedPath standardDirectory ending s target project = .ok q ∧
      IsStaged before project ending (placeOf before project target) q ∧
      before.location q = stagedLocation before project ending target := by
  obtain ⟨inner, at_⟩ := suits.place_spec
  obtain ⟨q, asked, staged⟩ := stagedPath_of_location clean.written suits.plain ends inner at_
  rw [← stagedPath_of_workingDirectory wd] at asked
  exact ⟨q, asked, staged, staged.location⟩

end Clean

/-- What is staged at a place is what was there, and a marker holds the nearest entry above. -/
structure Records (before s : Site) (project : Path) (place : List Text) : Prop
    extends Tells before s project place where
  stop : ∀ bytes mode, s.tree.at? (area before project ++ suffixed ".absent" place) =
      some (.file bytes mode) →
    ∃ stop : Path, bytes = Utf8.encode stop.text ∧
      Path.ofText (Text.unifyBreaks stop.text) = stop ∧
      before.tree.Nearest (before.location stop) (before.location project ++ place)

theorem Records.mono (records : Records before s project place)
    (files : ∀ ending, Ending ending → ∀ bytes mode,
      s'.tree.at? (area before project ++ suffixed ending place) = some (.file bytes mode) →
      s.tree.at? (area before project ++ suffixed ending place) = some (.file bytes mode)) :
    Records before s' project place where
  toTells := records.toTells.mono files
  stop bytes mode file := records.stop bytes mode (files _ .marker bytes mode file)

/-- Nothing but the copy and the marker of a place is new. -/
theorem Records.other (inner : place ≠ []) (inner' : place' ≠ []) (other : place' ≠ place)
    (files : ∀ m ≠ area before project ++ suffixed ".bak" place,
      m ≠ area before project ++ suffixed ".absent" place → ∀ bytes mode,
      s'.tree.at? m = some (.file bytes mode) → s.tree.at? m = some (.file bytes mode))
    (records : Records before s project place') : Records before s' project place' :=
  records.mono fun _ ends => files _
    (area_append_ne ends .copy inner' inner fun same => other same.2)
    (area_append_ne ends .marker inner' inner fun same => other same.2)

/-- The copies and the markers of some files. -/
def Spots (before : Site) (project : Path) (files : List Path) (m : Location) : Prop :=
  ∃ target ∈ files, ∃ ending, Ending ending ∧ stagedLocation before project ending target = m

theorem Spots.hidden {files : List Path} (spot : Spots before project files m) :
    outer before project <+: m := by
  obtain ⟨target, _, ending, _, rfl⟩ := spot
  exact (outer_prefix_area before project).trans (List.prefix_append ..)

namespace Clean

variable (clean : Clean before project)
include clean

theorem records_copy {copy : Path} {place : List Text} (suits : Suits before project target)
    (pending : Pending before s due) (hidden : ∀ m, due m → outer before project <+: m)
    (inner : place ≠ []) (at_ : before.location target = before.location project ++ place)
    (staged : IsStaged before project ".bak" place copy) (here : due (before.location copy))
    (unmarked : s.tree.at? (area before project ++ suffixed ".absent" place) = none)
    {absent : Bool}
    (run : (do
      Action.makeDirectories copy.parent
      Action.copyFile target copy
      pure false : Action Bool) s = (.ok absent, s')) :
    Pending before s' due ∧ Records before s' project place ∧
      ∀ m ≠ area before project ++ suffixed ".bak" place, ∀ bytes mode,
        s'.tree.at? m = some (.file bytes mode) → s.tree.at? m = some (.file bytes mode) := by
  obtain ⟨⟨⟩, s₁, made, run⟩ := Action.bind_eq_ok run
  obtain ⟨⟨⟩, s₂, copied, run⟩ := Action.bind_eq_ok run
  cases run
  have way := clean.way_staged staged
  have deep : standardDirectory.names ++ suffixed ".bak" place ≠ [] := by simp [suffixed]
  obtain ⟨name, _, _, last⟩ := way.last deep
  have pending₁ := pending.makeDirectories (way.parent deep) (last ▸ here)
  have grows := (Action.makes_makeDirectories copy.parent s).grows
  rw [made] at pending₁ grows
  rcases Action.copyFile_cases target copy s₁ with
    ⟨bytes, mode, read, deep, parent, leaf, run⟩ | ⟨f, stuck⟩
  · cases run.symm.trans copied
    -- Nothing but the staging directory has changed, so the copy holds what was there at first.
    have was := (read_eq_ok.mp read).2
    rw [entryAt, pending₁.location, clean.agree pending₁ hidden suits.beside, at_] at was
    have touches := (Touches.of_grows grows (s₁.location copy)).trans
      (.of_file deep parent leaf bytes mode)
    have fresh := clean.absent_area (suffixed ".bak" place)
    rw [staged.location] at here
    rw [pending₁.location, staged.location] at deep parent leaf touches ⊢
    -- No marker stands beside the copy, so the two cannot disagree.
    have unmarked' : ∀ bytes' mode', (s₁.insert (area before project ++ suffixed ".bak" place)
        (.file bytes mode)).tree.at? (area before project ++ suffixed ".absent" place) ≠
          some (.file bytes' mode') := by
      intro bytes' mode' file
      have old := touches.files _
        (area_append_ne .marker .copy inner inner fun same => absurd same.1 (by decide)) _ _ file
      cases unmarked.symm.trans old
    refine ⟨pending₁.putFile here fresh deep parent leaf bytes mode, ⟨⟨?_, ?_⟩, ?_⟩, touches.files⟩
    · intro bytes' mode' file
      rw [at?_insert deep, if_pos rfl] at file
      rw [← file, was]
    · exact fun bytes' mode' file => absurd file (unmarked' bytes' mode')
    · exact fun bytes' mode' file => absurd file (unmarked' bytes' mode')
  · cases stuck.symm.trans copied

theorem records_marker {marker ancestor : Path} {place : List Text}
    (suits : Suits before project target)
    (pending : Pending before s due) (hidden : ∀ m, due m → outer before project <+: m)
    (inner : place ≠ []) (at_ : before.location target = before.location project ++ place)
    (staged : IsStaged before project ".absent" place marker)
    (here : due (before.location marker))
    (uncopied : s.tree.at? (area before project ++ suffixed ".bak" place) = none)
    (missing : s.exists? target = .ok false) (found : s.nearestAncestor target = .ok ancestor)
    (run : Action.writeText marker ancestor.text s = (.ok (), s')) :
    Pending before s' due ∧ Records before s' project place ∧
      ∀ m ≠ area before project ++ suffixed ".absent" place, ∀ bytes mode,
        s'.tree.at? m = some (.file bytes mode) → s.tree.at? m = some (.file bytes mode) := by
  obtain ⟨base, rest, way⟩ := suits.way
  have way' := pending.way way
  have absent := way'.firm.entryAt_of_not_exists pending.sound missing
  obtain ⟨nearest, k, rfl⟩ := nearest_of_nearestAncestor pending.sound way' absent found
  -- Up to the file all is as before, and so is the nearest directory above it.
  have agree {m : Location} (part : m <+: before.location target) :
      s.tree.at? m = before.tree.at? m :=
    clean.agree pending hidden fun inside => suits.beside (inside.trans part)
  rw [pending.location, pending.location] at nearest
  have nearest' : before.tree.Nearest
      (before.location ⟨target.anchor, target.names.take k⟩) (before.location target) := by
    refine ⟨nearest.above, ?_, fun m below other part => ?_⟩
    · rw [← agree nearest.above]
      exact nearest.there
    · rw [← agree part]
      exact nearest.between m below other part
  rw [entryAt, pending.location, agree List.prefix_rfl, at_] at absent
  have plain : (⟨target.anchor, target.names.take k⟩ : Path).Plain :=
    fun name member => suits.plain name (List.mem_of_mem_take member)
  have single : ∀ name ∈ target.names.take k, '\r' ∉ name :=
    fun name member => suits.single name (List.mem_of_mem_take member)
  have text := Path.ofText_unifyBreaks_of_single plain single
  rcases Action.writeBytes_cases marker (Utf8.encode (Path.text _)) s with
    ⟨s₁, run', writes⟩ | ⟨f, s₁, stuck, _, _⟩
  · cases run'.symm.trans run
    have written := writes.written
    have files := (Touches.of_writes writes).files
    have after := pending.writes (clean.way_staged staged) here writes
    rw [pending.location, staged.location] at written files
    refine ⟨after, ⟨⟨?_, ?_⟩, ?_⟩, files⟩
    · intro bytes mode file
      have old := files _
        (area_append_ne .copy .marker inner inner fun same => absurd same.1 (by decide)) _ _ file
      cases uncopied.symm.trans old
    · intro bytes mode file
      cases written.symm.trans file
      exact ⟨absent, _, rfl⟩
    · intro bytes mode file
      cases written.symm.trans file
      exact ⟨_, rfl, text, at_ ▸ nearest'⟩
  · cases stuck.symm.trans run

/-- Staging a file first makes room for its copy and its marker, and changes nothing else by that. -/
theorem stage_steps {absent : Bool} (suits : Suits before project target)
    (pending : Pending before s due) (hidden : ∀ m, due m → outer before project <+: m)
    (here : ∀ ending, Ending ending → due (stagedLocation before project ending target))
    (run : stage standardDirectory target project s = (.ok absent, s')) :
    ∃ copy marker s₂, IsStaged before project ".bak" (placeOf before project target) copy ∧
      IsStaged before project ".absent" (placeOf before project target) marker ∧
      Pending before s₂ due ∧
      (∀ ending, Ending ending → s₂.tree.at? (stagedLocation before project ending target) = none) ∧
      (∀ m, (∀ ending, Ending ending → m ≠ stagedLocation before project ending target) →
        s₂.tree.at? m = s.tree.at? m) ∧
      (s₂.exists? target = .ok true ∧ (do
        Action.makeDirectories copy.parent
        Action.copyFile target copy
        pure false : Action Bool) s₂ = (.ok absent, s') ∨
      s₂.exists? target = .ok false ∧ ∃ ancestor, s₂.nearestAncestor target = .ok ancestor ∧
        Action.writeText marker ancestor.text s₂ = (.ok (), s')) := by
  obtain ⟨inner, at_⟩ := suits.place_spec
  obtain ⟨copy, marker, s₁, s₂, copyAsked, markerAsked, deleted, deleted', run⟩ := stage_eq_ok run
  obtain ⟨_, known, copyStaged, copyAt⟩ := clean.stagedPath suits .copy pending.place
  cases known.symm.trans copyAsked
  obtain ⟨_, known, markerStaged, markerAt⟩ := clean.stagedPath suits .marker pending.place
  cases known.symm.trans markerAsked
  have copyDue := copyAt ▸ here _ .copy
  have markerDue := markerAt ▸ here _ .marker
  have copyFresh : before.entryAt copy = none := clean.absent (hidden _ copyDue)
  have markerFresh : before.entryAt marker = none := clean.absent (hidden _ markerDue)
  -- An earlier copy and an earlier marker of this place are removed first, each at its own spot.
  obtain ⟨pending₁, uncopied, same₁⟩ :=
    pending.deleteFile (clean.way_staged copyStaged) copyFresh copyDue deleted
  obtain ⟨pending₂, unmarked, same₂⟩ :=
    pending₁.deleteFile (clean.way_staged markerStaged) markerFresh markerDue deleted'
  rw [copyAt] at uncopied same₁
  rw [markerAt] at unmarked same₂
  refine ⟨copy, marker, s₂, copyStaged, markerStaged, pending₂, ?_, ?_, run⟩
  · intro ending ends
    cases ends with
    | copy =>
      exact (same₂ _ (area_append_ne .copy .marker inner inner fun same => nomatch same.1)).trans
        uncopied
    | marker => exact unmarked
  · intro m other
    rw [same₂ m (other _ .marker), same₁ m (other _ .copy)]

theorem records_stage {absent : Bool} (suits : Suits before project target)
    (pending : Pending before s due) (hidden : ∀ m, due m → outer before project <+: m)
    (here : ∀ ending, Ending ending → due (stagedLocation before project ending target))
    (run : stage standardDirectory target project s = (.ok absent, s')) :
    let place := placeOf before project target
    Pending before s' due ∧ Records before s' project place ∧ ∀ place' ≠ [], place' ≠ place →
      Records before s project place' → Records before s' project place' := by
  intro place
  obtain ⟨inner, at_⟩ := suits.place_spec
  obtain ⟨copy, marker, s₂, copyStaged, markerStaged, pending₂, cleared, same, run⟩ :=
    clean.stage_steps suits pending hidden here run
  have before₂ (m) (other : m ≠ area before project ++ suffixed ".bak" place)
      (other' : m ≠ area before project ++ suffixed ".absent" place) (bytes mode)
      (file : s₂.tree.at? m = some (.file bytes mode)) :
      -- Only the two places of this target are cleared, so a file elsewhere stands as it stood.
      s.tree.at? m = some (.file bytes mode) := by
    refine (same m fun ending ends => ?_) ▸ file
    cases ends with
    | copy => exact other
    | marker => exact other'
  rcases run with ⟨_, run⟩ | ⟨missing, ancestor, found, wrote⟩
  · obtain ⟨pending₃, records, files⟩ := clean.records_copy suits pending₂ hidden inner at_
      copyStaged (copyStaged.location ▸ here _ .copy) (cleared _ .marker) run
    refine ⟨pending₃, records, fun _ inner' other => Records.other inner inner' other ?_⟩
    exact fun m other other' bytes mode file =>
      before₂ m other other' bytes mode (files m other bytes mode file)
  · obtain ⟨pending₃, records, files⟩ := clean.records_marker suits pending₂ hidden inner at_
      markerStaged (markerStaged.location ▸ here _ .marker) (cleared _ .copy) missing found wrote
    refine ⟨pending₃, records, fun _ inner' other => Records.other inner inner' other ?_⟩
    exact fun m other other' bytes mode file =>
      before₂ m other other' bytes mode (files m other' bytes mode file)

/-- A staged file has a copy or a marker. -/
theorem there_of_stage {absent : Bool} (suits : Suits before project target)
    (pending : Pending before s due) (hidden : ∀ m, due m → outer before project <+: m)
    (here : ∀ ending, Ending ending → due (stagedLocation before project ending target))
    (run : stage standardDirectory target project s = (.ok absent, s')) :
    ∃ ending, Ending ending ∧
      s'.tree.at? (stagedLocation before project ending target) ≠ none := by
  obtain ⟨copy, marker, s₂, copyStaged, markerStaged, pending₂, -, -, run⟩ :=
    clean.stage_steps suits pending hidden here run
  -- Either a copy was made or, for a file that was absent, a marker.
  rcases run with ⟨_, run⟩ | ⟨_, ancestor, _, wrote⟩
  · obtain ⟨⟨⟩, s₃, made, run⟩ := Action.bind_eq_ok run
    obtain ⟨⟨⟩, s₄, copied, run⟩ := Action.bind_eq_ok run
    cases run
    have beside := (Action.makes_makeDirectories copy.parent s₂).grows.beside
    rw [made] at beside
    rcases Action.copyFile_cases target copy s₃ with ⟨_, _, _, deep, _, _, run⟩ | ⟨f, stuck⟩
    · cases run.symm.trans copied
      refine ⟨_, .copy, ?_⟩
      rw [location_of_beside beside, pending₂.location, copyStaged.location] at deep ⊢
      rw [stagedLocation, at?_insert deep, if_pos rfl]
      nofun
    · cases stuck.symm.trans copied
  · rcases Action.writeBytes_cases marker (Utf8.encode ancestor.text) s₂ with
      ⟨s₃, run', writes⟩ | ⟨f, s₃, stuck, _, _⟩
    · cases run'.symm.trans wrote
      have written := writes.written
      rw [pending₂.location, markerStaged.location] at written
      exact ⟨_, .marker, by rw [stagedLocation, written]; nofun⟩
    · cases stuck.symm.trans wrote

/-- A file cannot be staged where one of its two places is on the way to something else. -/
theorem not_prefix_of_stage {absent : Bool} (suits : Suits before project target)
    (pending : Pending before s due) (hidden : ∀ m, due m → outer before project <+: m)
    (here : ∀ ending, Ending ending → due (stagedLocation before project ending target))
    (run : stage standardDirectory target project s = (.ok absent, s'))
    (there : s.tree.at? m ≠ none)
    (other : ∀ ending, Ending ending → m ≠ stagedLocation before project ending target)
    (ends : Ending ending) : ¬stagedLocation before project ending target <+: m := by
  intro part
  obtain ⟨_, _, s₂, -, -, pending₂, cleared, same, -⟩ :=
    clean.stage_steps suits pending hidden here run
  rw [← same m other] at there
  cases (cleared ending ends).symm.trans (pending₂.sound.above there part (other ending ends).symm)

theorem records_stageAll {files absent : List Path}
    (suits : ∀ target ∈ files, Suits before project target)
    (run : stageAll standardDirectory project files before = (.ok absent, s')) :
    Pending before s' (Spots before project files) ∧
      ∀ target ∈ files, Records before s' project (placeOf before project target) := by
  obtain ⟨pending, each, _⟩ := stageAll_rule
    (I := fun s => Pending before s (Spots before project files))
    (A := fun target place => place = placeOf before project target)
    (T := fun s => Records before s project)
    (fun target member s _ _ pending first => by
      obtain ⟨pending₁, records, kept⟩ := clean.records_stage (suits target member) pending
        (fun _ => Spots.hidden) (fun ending ends => ⟨target, member, ending, ends, rfl⟩) first
      exact ⟨pending₁, _, (suits target member).place_spec.1, rfl, records, kept⟩)
    (.refl clean.sound _) run
  refine ⟨pending, fun target member => ?_⟩
  obtain ⟨_, _, rfl, records⟩ := each target member
  exact records

/-- A snapshot of a clean project leaves nothing but what is staged, which tells of every file what
it was. -/
theorem records_backup {files : List Path} {handle : SnapshotHandle}
    (suits : ∀ target ∈ files, Suits before project target)
    (run : backup standardDirectory files project before = (.ok handle, s)) :
    Pending before s (Spots before project files) ∧
      ∀ target ∈ files, Records before s project (placeOf before project target) := by
  obtain ⟨absent, staged⟩ := stageAll_of_backup run
  exact clean.records_stageAll suits staged

end Clean

/-- The names of what is staged of a file are short. -/
def Short (before : Site) (project target : Path) : Prop :=
  ∀ ending, Ending ending → ∀ name ∈ suffixed ending (placeOf before project target),
    nameSize name ≤ maxNameSize

theorem short_of_marker {target : Path}
    (short : ∀ name ∈ suffixed ".absent" (placeOf before project target),
      nameSize name ≤ maxNameSize) : Short before project target := by
  intro ending ends name member
  cases ends with
  | marker => exact short name member
  | copy =>
    rcases List.mem_append.mp member with above | last
    · exact short name (List.mem_append_left _ above)
    · have longer := short _ (List.mem_append_right _ (List.mem_singleton_self _))
      rw [List.mem_singleton.mp last]
      rw [nameSize_append] at longer ⊢
      have sizes : nameSize ".bak" ≤ nameSize ".absent" := by decide
      omega

theorem name_of_place (suits : Suits before project target)
    (leaf : before.entryAt target ≠ some .directory) :
    (placeOf before project target).getLast?.getD [] = target.name := by
  obtain ⟨inner, at_⟩ := suits.place_spec
  obtain ⟨base, rest, way⟩ := suits.way
  obtain ⟨name, last, _, above⟩ := way.last (way.inner leaf)
  have same := congrArg List.getLast? (at_.symm.trans above)
  rw [List.getLast?_append_of_ne_nil _ inner, List.getLast?_concat] at same
  rw [same, Path.name, last]

/-- The marker of a file that can be restored from its copy has short names. -/
theorem short_of_copy {copy : Path} {bytes bytes' : Bytes} {mode : Nat}
    (suits : Suits before project target) (leaf : before.entryAt target ≠ some .directory)
    (staged : IsStaged before project ".bak" (placeOf before project target) copy)
    (read : s.read copy = .ok (bytes, mode)) (writes : Writes s s' target bytes') :
    Short before project target := by
  refine short_of_marker fun name member => ?_
  rcases List.mem_append.mp member with above | last
  · refine Tree.short_of_follow (read_eq_ok.mp read).1 name ?_
    rw [staged.path, Path.div_eq rfl]
    exact List.mem_append_right _ (List.mem_append_right _ (List.mem_append_left _ above))
  · -- The name under which the file is first written is longer than the one of the marker.
    have temporary := writes.short _ List.mem_cons_self
    rw [List.mem_singleton.mp last, name_of_place suits leaf, nameSize_append]
    have parts : Fault.temporaryName target.name = ".".toList ++ target.name ++
        ".XXXXXXXX.tmp".toList := rfl
    rw [parts, nameSize_append, nameSize_append] at temporary
    have sizes : nameSize ".absent" ≤ nameSize ".XXXXXXXX.tmp" := by decide
    omega

/-- What must stay as it is while files are restored. -/
def Stays (before staged s : Site) (project : Path) : Prop :=
  ∀ m, outer before project <+: m → ∀ bytes mode,
    s.tree.at? m = some (.file bytes mode) → staged.tree.at? m = some (.file bytes mode)

theorem Stays.records {staged : Site} (stays : Stays before staged s project)
    (records : Records before staged project place) : Records before s project place :=
  records.mono fun _ _ => stays _ ((outer_prefix_area before project).trans (List.prefix_append ..))

theorem Stays.of_others {staged : Site} (stays : Stays before staged s project)
    (suits : Suits before project target)
    (others : ∀ m ≠ before.location target, ∀ bytes mode,
      s'.tree.at? m = some (.file bytes mode) → s.tree.at? m = some (.file bytes mode)) :
    Stays before staged s' project := by
  intro m inside bytes mode file
  refine stays m inside bytes mode (others m ?_ bytes mode file)
  rintro rfl
  exact suits.beside inside

namespace Clean

variable (clean : Clean before project)
include clean

/-- A file that was there gets its bytes and its mode back from its copy. -/
theorem restores_from_copy {copy : Path} {bytes : Bytes} {mode : Nat} {r : Restoration}
    (suits : Suits before project target)
    (pending : Pending before s fun m => m = before.location target ∨ due m)
    (staged : IsStaged before project ".bak" (placeOf before project target) copy)
    (records : Records before s project (placeOf before project target))
    (read : s.read copy = .ok (bytes, mode))
    (run : (do
      Action.writeBytes target bytes
      Action.copyMode copy target
      pure ⟨target, some copy, true, []⟩ : Action Restoration) s = (.ok r, s')) :
    Pending before s' due ∧ Short before project target ∧
      ∀ m ≠ before.location target, s'.tree.at? m = s.tree.at? m := by
  obtain ⟨⟨⟩, s₁, wrote, run⟩ := Action.bind_eq_ok run
  obtain ⟨⟨⟩, s₂, moded, run⟩ := Action.bind_eq_ok run
  cases run
  obtain ⟨base, rest, way⟩ := suits.way
  obtain ⟨_, at_⟩ := suits.place_spec
  have copied := (read_eq_ok.mp read).2
  rw [entryAt, pending.location, staged.location] at copied
  have was : before.entryAt target = some (.file bytes mode) := by
    rw [entryAt, at_]
    exact records.copy bytes mode copied
  rcases Action.writeBytes_cases target bytes s with ⟨_, run, writes⟩ | ⟨f, _, stuck, _, _⟩
  · cases run.symm.trans wrote
    obtain ⟨pending₁, file, others⟩ := pending.restores clean.sound way was writes
    have there : s₁.entryAt target = some (.file bytes mode) := by
      rw [entryAt, pending₁.location, file]
    rcases Action.copyMode_cases copy there with ⟨bytes', mode', read', moded'⟩ | ⟨f, stuck⟩
    · cases moded'.symm.trans moded
      rw [pending₁.location]
      -- The copy was not written to, so its mode is still the one that was read with its bytes.
      have apart : area before project ++ suffixed ".bak" (placeOf before project target) ≠
          before.location target := by
        intro same
        exact suits.beside (same ▸ (outer_prefix_area before project).trans (List.prefix_append ..))
      have again := (read_eq_ok.mp read').2
      rw [entryAt, pending₁.location, staged.location, others _ apart] at again
      cases copied.symm.trans again
      have inner : before.location target ≠ [] := by
        rw [← pending.location]
        exact writes.inner
      -- Writing gave that mode already, and setting it again changes nothing.
      have same (m : Location) : (s₁.insert (before.location target)
          (.file bytes mode)).tree.at? m = s₁.tree.at? m := by
        rw [at?_insert inner]
        split
        next here => rw [here, file]
        next => rfl
      refine ⟨pending₁.congr rfl same, ?_, fun m other => (same m).trans (others m other)⟩
      exact short_of_copy suits (by simp [was]) staged read writes
    · cases stuck.symm.trans moded
  · cases stuck.symm.trans wrote

/-- A file that was absent is removed, with the directories that were made for it. -/
theorem restores_by_marker {marker stop : Path} {bytes : Bytes} {mode : Nat} {r : Restoration}
    (suits : Suits before project target)
    (pending : Pending before s fun m => m = before.location target ∨ due m)
    (staged : IsStaged before project ".absent" (placeOf before project target) marker)
    (read : s.read marker = .ok (bytes, mode)) (fresh : before.entryAt target = none)
    (nearest : before.tree.Nearest (before.location stop) (before.location target))
    (run : (do
      Action.deleteFile target
      Action.pruneUpTo stop target.parent
      pure (.removed target) : Action Restoration) s = (.ok r, s')) :
    Pending before s' due ∧ Short before project target ∧
      ∀ m ≠ before.location target, ∀ bytes mode,
        s'.tree.at? m = some (.file bytes mode) → s.tree.at? m = some (.file bytes mode) := by
  obtain ⟨⟨⟩, s₁, deleted, run⟩ := Action.bind_eq_ok run
  obtain ⟨⟨⟩, s₂, pruned, run⟩ := Action.bind_eq_ok run
  cases run
  obtain ⟨base, rest, way⟩ := suits.way
  have after := pending.removes clean.sound clean.written.straight way fresh nearest deleted
  rw [pruned] at after
  -- The way to the marker goes over the names of the file, so none of them is too long.
  have short : Short before project target := by
    refine short_of_marker fun name member => ?_
    refine Tree.short_of_follow (read_eq_ok.mp read).1 name ?_
    rw [staged.path, Path.div_eq rfl]
    exact List.mem_append_right _ (List.mem_append_right _ member)
  refine ⟨after, short, fun m other => ?_⟩
  rcases Action.deleteFile_clears target s with ⟨_, run, clears⟩ | ⟨f, stuck⟩
  · cases run.symm.trans deleted
    have straight : upName ∉ s₁.workingDirectory := by
      rw [clears.touches.beside, pending.place]
      exact clean.written.straight
    have prunes := Action.prunes_pruneUpTo straight stop target.parent
    rw [pruned] at prunes
    rw [← pending.location] at other
    exact (clears.touches.trans (.of_prunes prunes _)).files m other
  · cases stuck.symm.trans deleted

/-- Restoring what is staged of a file settles it. -/
theorem settles_restore {staged : Site} (suits : Suits before project target)
    (records : Records before staged project (placeOf before project target)) :
    Restoration.Settles before (fun s => Stays before staged s project) (Short before project)
      (fun target => restore standardDirectory target project) target := by
  intro due s r s' stays pending run success
  obtain ⟨copy, copyAsked, copyStaged, _⟩ := clean.stagedPath suits .copy pending.place
  obtain ⟨marker, markerAsked, markerStaged, _⟩ := clean.stagedPath suits .marker pending.place
  obtain ⟨_, at_⟩ := suits.place_spec
  have records := stays.records records
  simp only at run
  rw [restore_eq copyAsked markerAsked] at run
  have run := Restoration.eq_of_success run success
  -- A restoration that succeeds has found the copy or the marker.
  rcases bring_cases copy marker target s with
    ⟨bytes, mode, read, ended⟩ | ⟨bytes, mode, read, ended⟩ | ended | ⟨f, ended⟩
  · obtain ⟨after, short, others⟩ := clean.restores_from_copy suits pending copyStaged records read
      (ended ▸ run)
    refine ⟨after, stays.of_others suits fun m other bytes mode file => ?_, short⟩
    rwa [others m other] at file
  · have marked := (read_eq_ok.mp read).2
    rw [entryAt, pending.location, markerStaged.location] at marked
    obtain ⟨stop, rfl, same, nearest⟩ := records.stop bytes mode marked
    obtain ⟨absent, _⟩ := records.marker _ mode marked
    have ended := ended _ (Utf8.decode_encode _)
    rw [same] at ended
    rw [← at_] at nearest absent
    obtain ⟨after, short, files⟩ := clean.restores_by_marker suits pending markerStaged read absent
      nearest (ended ▸ run)
    exact ⟨after, stays.of_others suits files, short⟩
  · rw [ended] at run
    cases run
    cases success
  · rw [ended] at run
    cases run

end Clean

/-- No copy and no marker lies below another one. -/
def Separate (before : Site) (project : Path) (files : List Path) : Prop :=
  ∀ m m', Spots before project files m → Spots before project files m' → m <+: m' → m = m'

namespace Clean

variable (clean : Clean before project)
include clean

/-- What is staged can be removed, because nothing is in the way. -/
theorem deleteFile_staged {files : List Path} (separate : Separate before project files)
    (spot : Spots before project files (before.location q))
    (pending : Pending before s due) (only : ∀ m, due m → Spots before project files m)
    (staged : IsStaged before project ending (placeOf before project target) q)
    (ends : Ending ending) (short : Short before project target) :
    ∃ s', Action.deleteFile q s = (.ok (), s') := by
  have way := clean.way_staged staged
  have absent {m : Location} (below : before.location project <+: m) (part : m <+: before.location q)
      (other : m ≠ before.location project) : before.tree.at? m = none :=
    (clean.nearest_staged staged).between m below other part
  refine (pending.way way).deleteFile_of_clear (by simp [suffixed]) pending.sound ?_ ?_ ?_
  · intro name member
    rcases List.mem_append.mp member with outer | inner
    · have all : ∀ name ∈ standardDirectory.names, nameSize name ≤ maxNameSize := by
        decide
      exact all name outer
    · exact short ending ends name inner
  · intro m below part other bytes mode file
    rw [pending.location] at part other
    by_cases same : m = before.location project
    · rw [same, pending.tree.opens _ clean.leads.2] at file
      cases file
    -- A file on the way would be due, and hence staged above what is staged here.
    · have here := pending.tree.files m bytes mode (absent below part same) file
      exact other (separate m _ (only m here) spot part)
  · rw [entryAt, pending.location]
    intro open_
    obtain ⟨l, here, part, other⟩ :=
      pending.tree.leads_of_directory clean.sound (clean.absent spot.hidden) open_
    exact other (separate _ l spot (only l here) part)

/-- Forgetting what is staged leaves nothing of it. -/
theorem settles_forget {files : List Path} (separate : Separate before project files)
    (spot : Spots before project files (before.location q))
    (pending : Pending before s fun m => m = before.location q ∨ due m)
    (only : ∀ m, due m → Spots before project files m)
    (staged : IsStaged before project ending (placeOf before project target) q)
    (ends : Ending ending) (short : Short before project target) :
    ∃ s', forget project q s = (.ok (), s') ∧ Pending before s' due := by
  have only' : ∀ m, m = before.location q ∨ due m → Spots before project files m := by
    rintro m (rfl | here)
    · exact spot
    · exact only m here
  obtain ⟨s₁, deleted⟩ :=
    clean.deleteFile_staged separate spot pending only' staged ends short
  refine ⟨(Action.pruneUpTo project q.parent s₁).2, ?_, ?_⟩
  · unfold forget
    rw [Action.bind_apply, deleted]
    exact Action.pruneUpTo_apply project q.parent s₁
  · exact pending.removes clean.sound clean.written.straight (clean.way_staged staged)
      (clean.absent spot.hidden) (clean.nearest_staged staged) deleted

theorem settles_forgetTarget {files : List Path} (separate : Separate before project files)
    (suits : Suits before project target) (member : target ∈ files)
    (pending : Pending before s fun m => Spots before project [target] m ∨ due m)
    (only : ∀ m, due m → Spots before project files m) (short : Short before project target) :
    ∃ s', forgetTarget standardDirectory target project s = (.ok (), s') ∧
      Pending before s' due := by
  obtain ⟨copy, copyAsked, copyStaged, copyAt⟩ := clean.stagedPath suits .copy pending.place
  obtain ⟨marker, markerAsked, markerStaged, markerAt⟩ :=
    clean.stagedPath suits .marker pending.place
  have copySpot : Spots before project files (before.location copy) :=
    ⟨target, member, _, .copy, copyAt.symm⟩
  have markerSpot : Spots before project files (before.location marker) :=
    ⟨target, member, _, .marker, markerAt.symm⟩
  -- What is due of this file is its copy and its marker, which are removed in turn.
  have start : Pending before s fun m => m = before.location copy ∨
      (m = before.location marker ∨ due m) := by
    refine pending.mono fun m here => ?_
    rcases here with ⟨path, listed, ending, ends, rfl⟩ | here
    · rw [List.mem_singleton.mp listed]
      cases ends with
      | copy => exact .inl copyAt.symm
      | marker => exact .inr (.inl markerAt.symm)
    · exact .inr (.inr here)
  have only' : ∀ m, m = before.location marker ∨ due m → Spots before project files m := by
    rintro m (rfl | here)
    · exact markerSpot
    · exact only m here
  obtain ⟨s₁, forgot, pending₁⟩ :=
    clean.settles_forget separate copySpot start only' copyStaged .copy short
  obtain ⟨s₂, forgot', pending₂⟩ :=
    clean.settles_forget separate markerSpot pending₁ only markerStaged .marker short
  refine ⟨s₂, ?_, pending₂⟩
  unfold forgetTarget
  rw [Action.bind_apply, Action.ask_apply, copyPath, copyAsked]
  simp only
  rw [Action.bind_apply, Action.ask_apply, markerPath, markerAsked]
  simp only
  rw [Action.bind_apply, forgot]
  exact forgot'

/-- Forgetting some files leaves nothing of what was staged of them. -/
theorem settles_cleanup {files rest : List Path} (separate : Separate before project files)
    (suits : ∀ target ∈ files, Suits before project target)
    (short : ∀ target ∈ files, Short before project target) (part : rest ⊆ files)
    (pending : Pending before s (Spots before project rest)) :
    ∃ s', rest.forM (fun target => forgetTarget standardDirectory target project) s =
      (.ok (), s') ∧ Pending before s' fun _ => False := by
  induction rest generalizing s with
  | nil => exact ⟨s, rfl, pending.mono (by rintro m ⟨_, member, _⟩; cases member)⟩
  | cons target rest ih =>
    obtain ⟨member, part⟩ := List.cons_subset.mp part
    have start : Pending before s fun m =>
        Spots before project [target] m ∨ Spots before project rest m := by
      refine pending.mono ?_
      rintro m ⟨path, listed, spot⟩
      rcases List.mem_cons.mp listed with rfl | later
      · exact .inl ⟨path, List.mem_singleton_self _, spot⟩
      · exact .inr ⟨path, later, spot⟩
    -- The places of the targets still to come are among those of all files, which are apart.
    have only : ∀ m, Spots before project rest m → Spots before project files m := by
      rintro m ⟨path, listed, spot⟩
      exact ⟨path, part listed, spot⟩
    obtain ⟨s₁, forgot, pending₁⟩ := clean.settles_forgetTarget separate (suits target member)
      member start only (short target member)
    obtain ⟨s₂, forgot', pending₂⟩ := ih part pending₁
    refine ⟨s₂, ?_, pending₂⟩
    rw [Action.forM_cons_apply, forgot]
    exact forgot'

/-- A change of the staged files that is taken back, where every file is said to be restored, leaves
the tree as it was before the snapshot. -/
theorem undoes {s₁ s₂ s₃ : Site} {files : List Path} {handle : SnapshotHandle}
    {restored : List Restoration} (suits : ∀ target ∈ files, Suits before project target)
    (separate : Separate before project files)
    (taken : backup standardDirectory files project before = (.ok handle, s₁))
    (changed : s₁.Pending s₂ fun m => ∃ target ∈ files, s₁.location target = m)
    (back : files.mapM (fun target => restore standardDirectory target project) s₂ =
      (.ok restored, s₃)) (whole : ∀ r ∈ restored, r.success = true) :
    ∃ s₄, files.forM (fun target => forgetTarget standardDirectory target project) s₃ =
      (.ok (), s₄) ∧ ∀ m, s₄.tree.at? m = before.tree.at? m := by
  obtain ⟨pending₁, records⟩ := clean.records_backup suits taken
  simp only [pending₁.location] at changed
  -- The change is to the files alone, which lie outside the staging directory.
  have stays : Stays before s₁ s₂ project := by
    intro m inside bytes mode file
    have other : ¬∃ target ∈ files, before.location target = m := by
      rintro ⟨target, member, rfl⟩
      exact (suits target member).beside inside
    by_cases was : s₁.tree.at? m = none
    · exact absurd (changed.tree.files m bytes mode was file) other
    · rwa [changed.tree.kept_of_not_due was other] at file
  have pending₂ : Pending before s₂ fun m =>
      (∃ target ∈ files, before.location target = m) ∨ Spots before project files m :=
    (pending₁.mono fun _ => Or.inr).trans (changed.mono fun _ => Or.inl)
  obtain ⟨pending₃, _, short⟩ := Restoration.settles_mapM
    (fun target member => clean.settles_restore (suits target member) (records target member))
    stays pending₂ back whole
  obtain ⟨s₄, forgot, pending₄⟩ :=
    clean.settles_cleanup separate suits short (List.Subset.refl files) pending₃
  exact ⟨s₄, forgot, pending₄.tree.same clean.sound fun _ => id⟩

end Clean

end Staged

end Layering
