import Layering.Proofs.Alike
import Layering.Proofs.FailedSnapshots

/-!
# Neighbours in the staging directory

What is staged of one file lies beside what is staged of another, unless one of the two files lies in a
directory that is named like the other file with an ending. Then staging, restoring and forgetting the one
does not depend on what is staged of the other, and leaves it alone.
-/

namespace Layering

namespace Staged

open Site

variable {before s s' s₁ : Site} {project target other q : Path} {others : List Path}
variable {ending ending' : Text} {place : List Text} {region : Location} {due : Location → Prop}

/-- A path leads below the project. -/
def Below (s : Site) (project target : Path) : Prop :=
  ∃ place ≠ [], s.location target = s.location project ++ place

theorem Below.place_spec (below : Below s project target) : placeOf s project target ≠ [] ∧
    s.location target = s.location project ++ placeOf s project target := by
  obtain ⟨place, inner, at_⟩ := below
  rw [placeOf, at_, List.drop_left]
  exact ⟨inner, rfl⟩

theorem Below.suffixed_location (below : Below s project target) (ending : Text) :
    suffixed ending (s.location target) =
      s.location project ++ suffixed ending (placeOf s project target) := by
  obtain ⟨inner, at_⟩ := below.place_spec
  rw [at_, suffixed_append inner]

/-! ### The layout -/

/-- One of two staged files lies at the other or above it exactly if they are the same one, or the file
of the second lies in a directory that is named like the first. -/
theorem stagedLocation_prefix_iff (ends : Ending ending) (ends' : Ending ending')
    (below : Below s project target) (below' : Below s project other) :
    stagedLocation s project ending target <+: stagedLocation s project ending' other ↔
      (ending = ending' ∧ s.location target = s.location other) ∨
        suffixed ending (s.location target) <+: (s.location other).dropLast := by
  obtain ⟨inner, at_⟩ := below.place_spec
  obtain ⟨inner', at_'⟩ := below'.place_spec
  have same : suffixed ending (placeOf s project target) = suffixed ending' (placeOf s project other) ↔
      ending = ending' ∧ s.location target = s.location other := by
    rw [at_, at_', List.append_cancel_left_eq]
    constructor
    · exact suffixed_inj ends ends' inner inner'
    · rintro ⟨rfl, places⟩
      rw [places]
  rw [stagedLocation, stagedLocation, List.prefix_append_right_inj, ← same, below.suffixed_location,
    at_', List.dropLast_append_of_ne_nil inner', List.prefix_append_right_inj]
  exact List.prefix_concat_iff

/-- Two files do not cross: neither lies in a directory that is named like the other one with an ending. -/
def Uncrossed (s : Site) (target other : Path) : Prop :=
  ∀ ending, Ending ending →
    ¬suffixed ending (s.location target) <+: (s.location other).dropLast ∧
      ¬suffixed ending (s.location other) <+: (s.location target).dropLast

/-- What is staged of two files lies beside each other exactly if they do not cross. -/
theorem uncrossed_iff (below : Below s project target) (below' : Below s project other)
    (differ : s.location other ≠ s.location target) : Uncrossed s target other ↔
      ∀ m m', Spots s project [target] m → Spots s project [other] m' → ¬m <+: m' ∧ ¬m' <+: m := by
  have spot (target : Path) (ending : Text) (ends : Ending ending) :
      Spots s project [target] (stagedLocation s project ending target) :=
    ⟨target, List.mem_singleton.mpr rfl, ending, ends, rfl⟩
  constructor
  · rintro uncrossed _ _ ⟨_, member, ending, ends, rfl⟩ ⟨_, member', ending', ends', rfl⟩
    cases List.mem_singleton.mp member
    cases List.mem_singleton.mp member'
    rw [stagedLocation_prefix_iff ends ends' below below',
      stagedLocation_prefix_iff ends' ends below' below]
    refine ⟨?_, ?_⟩
    · rintro (⟨_, same⟩ | inside)
      · exact differ same.symm
      · exact (uncrossed ending ends).1 inside
    · rintro (⟨_, same⟩ | inside)
      · exact differ same
      · exact (uncrossed ending' ends').2 inside
  · intro separate ending ends
    have each := separate _ _ (spot target ending ends) (spot other ending ends)
    rw [stagedLocation_prefix_iff ends ends below below',
      stagedLocation_prefix_iff ends ends below' below] at each
    exact ⟨fun inside => each.1 (.inr inside), fun inside => each.2 (.inr inside)⟩

/-- What is staged of a file has nothing to do with what is staged of others that do not cross it. -/
theorem own_of_uncrossed (below : Below s project target) (ends : Ending ending)
    (each : ∀ other ∈ others, Below s project other ∧ s.location other ≠ s.location target ∧
      Uncrossed s target other) :
    Own (Spots s project others) (stagedLocation s project ending target) := by
  have beside (m : Location) (spot : Spots s project others m) :
      ¬stagedLocation s project ending target <+: m ∧ ¬m <+: stagedLocation s project ending target := by
    obtain ⟨other, member, ending', ends', rfl⟩ := spot
    obtain ⟨below', differ, uncrossed⟩ := each other member
    exact (uncrossed_iff below below' differ).mp uncrossed _ _
      ⟨target, List.mem_singleton.mpr rfl, ending, ends, rfl⟩
      ⟨other, List.mem_singleton.mpr rfl, ending', ends', rfl⟩
  exact ⟨fun m spot => (beside m spot).2, fun m spot => (beside m spot).1⟩

/-! ### Paths of staged files -/

/-- A file of a project can be staged: its project is there, the names in the staging directory are short
enough, and neither the project nor the file is reached by way of that directory. -/
structure Stageable (s : Site) (project target : Path) : Prop where
  written : s.Written
  plain : target.Plain
  below : Below s project target
  short : Short s project target
  leads : s.LeadsToDirectory project
  beside : s.Visible (fun m => outer s project <+: m) project
  elsewhere : s.Visible (fun m => outer s project <+: m) target

theorem outer_of_workingDirectory (place : s₁.workingDirectory = s.workingDirectory) :
    outer s₁ project = outer s project := by
  rw [outer, outer, location_of_workingDirectory place]

theorem placeOf_of_workingDirectory (place : s₁.workingDirectory = s.workingDirectory) :
    placeOf s₁ project target = placeOf s project target := by
  rw [placeOf, placeOf, location_of_workingDirectory place, location_of_workingDirectory place]

theorem stagedLocation_of_workingDirectory (place : s₁.workingDirectory = s.workingDirectory) :
    stagedLocation s₁ project ending target = stagedLocation s project ending target := by
  rw [stagedLocation, stagedLocation, placeOf_of_workingDirectory place, area, area,
    location_of_workingDirectory place]

namespace Stageable

variable (stageable : Stageable s project target)
include stageable

theorem of_leads (leads : s₁.LeadsToDirectory project)
    (place : s₁.workingDirectory = s.workingDirectory) : Stageable s₁ project target where
  written := by
    unfold Written
    rw [place]
    exact stageable.written
  plain := stageable.plain
  below := by
    unfold Below
    rw [location_of_workingDirectory place, location_of_workingDirectory place]
    exact stageable.below
  short := by
    unfold Short
    rw [placeOf_of_workingDirectory place]
    exact stageable.short
  leads := leads
  beside := by
    rw [outer_of_workingDirectory place]
    exact stageable.beside.of_place place
  elsewhere := by
    rw [outer_of_workingDirectory place]
    exact stageable.elsewhere.of_place place

theorem of_outside (place : s₁.workingDirectory = s.workingDirectory)
    (outside : ∀ m, ¬outer s project <+: m → s₁.tree.at? m = s.tree.at? m) :
    Stageable s₁ project target :=
  stageable.of_leads (stageable.leads.of_visible stageable.beside place outside) place

theorem stagedPath (ends : Ending ending) :
    ∃ q, Staged.stagedPath standardDirectory ending s target project = .ok q ∧
      IsStaged s project ending (placeOf s project target) q := by
  obtain ⟨inner, at_⟩ := stageable.below.place_spec
  exact stagedPath_of_location stageable.written stageable.plain ends inner at_

variable (ends : Ending ending) (staged : IsStaged s project ending (placeOf s project target) q)
include staged

theorem way : s.Way q (s.location project)
    (standardDirectory.names ++ suffixed ending (placeOf s project target)) := by
  rw [staged.path, Path.div_eq rfl]
  exact stageable.leads.way.append staged.forward

omit staged in
include ends in
theorem names_short : ∀ name ∈ standardDirectory.names ++ suffixed ending (placeOf s project target),
    nameSize name ≤ maxNameSize := by
  intro name member
  rcases List.mem_append.mp member with above | last
  · have all : ∀ name ∈ standardDirectory.names, nameSize name ≤ maxNameSize := by decide
    exact all name above
  · exact stageable.short ending ends name last

include ends in
theorem direct : s.Direct q := ⟨_, _, stageable.way staged, stageable.names_short ends⟩

theorem location_parent : s.location q.parent <+: s.location q := by
  obtain ⟨name, _, _, at_⟩ := (stageable.way staged).last (by simp [suffixed])
  rw [at_]
  exact List.prefix_append ..

omit stageable in
/-- The directory in which a file is staged. -/
theorem parent_eq : q.parent = ⟨project.anchor,
    project.names ++ ".remediation".toList :: "staging".toList ::
      (placeOf s project target).dropLast⟩ := by
  have names : standardDirectory.names = [".remediation".toList, "staging".toList] := by decide
  rw [staged.path, Path.div_eq rfl, Path.parent, names, suffixed]
  simp only [← List.append_assoc, List.dropLast_concat]
  simp

omit stageable in
theorem outer_above : outer s project <+: s.location q := by
  rw [staged.location]
  exact (outer_prefix_area s project).trans (List.prefix_append ..)

/-- On the way from the project to what is staged all lies in the directory of the staging directory. -/
theorem outer_above_of_inside {m : Location} (inside : s.location project <+: m)
    (other : m ≠ s.location project) (above : m <+: s.location q) : outer s project <+: m := by
  have names : standardDirectory.names = [".remediation".toList, "staging".toList] := by decide
  obtain ⟨_ | ⟨first, rest⟩, rfl⟩ := inside
  · exact absurd (List.append_nil _) other
  · rw [(stageable.way staged).location, List.prefix_append_right_inj, names] at above
    obtain ⟨rfl, _⟩ := List.cons_prefix_cons.mp above
    exact ⟨rest, by simp [outer]⟩

/-- Removing what is staged changes nothing elsewhere. -/
theorem deleteFile : Stageable (Action.deleteFile q s).2 project target := by
  rcases Action.deleteFile_clears q s with ⟨s₁, run, clears⟩ | ⟨f, run⟩
  · rw [run]
    refine stageable.of_outside (by rw [clears.touches.beside]) fun m out => clears.other ?_
    rintro rfl
    exact out (outer_above staged)
  · rw [run]
    exact stageable

theorem pruneUpTo : Stageable (Action.pruneUpTo project q.parent s).2 project target := by
  have prunes := Action.prunes_pruneUpTo stageable.written.straight project q.parent
  refine stageable.of_outside (by rw [prunes.beside]) fun m out => ?_
  refine (prunes.entries m).resolve_right fun ⟨_, _, inside, other, above⟩ => out ?_
  exact stageable.outer_above_of_inside staged inside other (above.trans (stageable.location_parent staged))

end Stageable

theorem IsStaged.of_workingDirectory (place : s₁.workingDirectory = s.workingDirectory)
    (staged : IsStaged s project ending (placeOf s project target) q) :
    IsStaged s₁ project ending (placeOf s₁ project target) q := by
  rw [placeOf_of_workingDirectory place]
  refine ⟨staged.path, staged.forward, ?_⟩
  rw [location_of_workingDirectory place, staged.location, area, area,
    location_of_workingDirectory place]

/-! ### Beside what is due -/

/-- What is staged of a file has nothing to do with what is due in the staging directory, in which two
sites differ. -/
structure Beside (region : Location) (due : Location → Prop) (project target : Path) (s s' : Site) :
    Prop where
  region_eq : region = outer s project
  stageable : Stageable s project target
  own : ∀ ending, Ending ending → Own due (stagedLocation s project ending target)
  aside : SameAside region due s s'

namespace Beside

variable {s₁' : Site} (h : Beside region due project target s s')
include h

theorem next (stageable : Stageable s₁ project target)
    (place : s₁.workingDirectory = s.workingDirectory) (aside : SameAside region due s₁ s₁') :
    Beside region due project target s₁ s₁' where
  region_eq := by rw [h.region_eq, outer_of_workingDirectory place]
  stageable := stageable
  own ending ends := by
    rw [stagedLocation_of_workingDirectory place]
    exact h.own ending ends
  aside := aside

theorem stageable' : Stageable s' project target :=
  h.stageable.of_outside h.aside.place (h.region_eq ▸ h.aside.outside)

theorem visible : s.Visible (fun m => region <+: m) target := h.region_eq ▸ h.stageable.elsewhere

theorem stagedPath_eq : Staged.stagedPath standardDirectory ending s' target project =
    Staged.stagedPath standardDirectory ending s target project :=
  stagedPath_of_workingDirectory h.aside.place

/-- Runs that first ask for the copy and the marker of the file go alike if the rest does. -/
theorem ask_bind {α : Type} {f : Path → Path → Action α}
    (later : ∀ copy marker, IsStaged s project ".bak" (placeOf s project target) copy →
      IsStaged s project ".absent" (placeOf s project target) marker →
      Alike region due s s' (f copy marker s) (f copy marker s')) :
    Alike region due s s'
      ((do
        let copy ← Action.ask fun s => copyPath standardDirectory s target project
        let marker ← Action.ask fun s => markerPath standardDirectory s target project
        f copy marker : Action α) s)
      ((do
        let copy ← Action.ask fun s => copyPath standardDirectory s target project
        let marker ← Action.ask fun s => markerPath standardDirectory s target project
        f copy marker : Action α) s') := by
  obtain ⟨copy, copyAsked, copyStaged⟩ := h.stageable.stagedPath .copy
  obtain ⟨marker, markerAsked, markerStaged⟩ := h.stageable.stagedPath .marker
  refine .ask_bind h.aside h.stagedPath_eq fun copy' copyAsked' => ?_
  cases copyAsked.symm.trans copyAsked'
  refine .ask_bind h.aside h.stagedPath_eq fun marker' markerAsked' => ?_
  cases markerAsked.symm.trans markerAsked'
  exact later copy marker copyStaged markerStaged

section

variable (ends : Ending ending) (staged : IsStaged s project ending (placeOf s project target) q)
include ends staged

theorem direct : s.Direct q := h.stageable.direct ends staged

theorem direct' : s'.Direct q := h.stageable'.direct ends (staged.of_workingDirectory h.aside.place)

theorem own_staged : Own due (s.location q) := by
  rw [staged.location]
  exact h.own ending ends

theorem exists_eq : s'.exists? q = s.exists? q :=
  h.aside.exists_eq (h.direct ends staged) (h.direct' ends staged) (h.own_staged ends staged)

theorem read_eq : s'.read q = s.read q :=
  h.aside.read_eq (h.direct ends staged) (h.direct' ends staged) (h.own_staged ends staged)

theorem deleteFile : Alike region due s s' (Action.deleteFile q s) (Action.deleteFile q s') :=
  h.aside.deleteFile (h.direct ends staged) (h.direct' ends staged) (h.own_staged ends staged)

/-- Two runs that remove what is staged go on alike. -/
theorem deleteFile_bind {α : Type} {f : Unit → Action α}
    (later : ∀ s₁ s₁', s₁.workingDirectory = s.workingDirectory →
      Beside region due project target s₁ s₁' → Alike region due s₁ s₁' (f () s₁) (f () s₁')) :
    Alike region due s s' ((Action.deleteFile q >>= f) s) ((Action.deleteFile q >>= f) s') := by
  refine .bind (h.deleteFile ends staged) fun _ s₁ s₁' run _ aside₁ => ?_
  have stageable₁ := h.stageable.deleteFile staged
  have place : (Action.deleteFile q s).2.workingDirectory = s.workingDirectory := by
    rcases Action.deleteFile_clears q s with ⟨s₁, run, clears⟩ | ⟨f, run⟩
    · rw [run, clears.touches.beside]
    · rw [run]
  rw [run] at stageable₁ place
  exact later s₁ s₁' place (h.next stageable₁ place aside₁)

/-- Pruning from where a file is staged goes alike. -/
theorem pruneUpTo : Alike region due s s' (Action.pruneUpTo project q.parent s)
    (Action.pruneUpTo project q.parent s') := by
  have forward := staged.forward
  have short := h.stageable.names_short ends
  have names : standardDirectory.names = [".remediation".toList, "staging".toList] := by decide
  have part : ".remediation".toList :: "staging".toList :: (placeOf s project target).dropLast ⊆
      standardDirectory.names ++ suffixed ending (placeOf s project target) := by
    rw [names, suffixed]
    intro name member
    simp only [List.mem_append, List.mem_cons] at member ⊢
    tauto
  rw [Stageable.parent_eq staged]
  refine h.aside.pruneUpTo_region h.stageable.written.straight h.stageable.leads
    (h.region_eq ▸ h.stageable.beside) h.region_eq _ (fun up => forward (part up))
    (fun name member => short name (part member)) fun m here above => ?_
  refine (h.own_staged ends staged).above m here (above.trans ?_)
  rw [staged.location, h.region_eq, outer, area, names, suffixed]
  simp

/-- Two runs that forget what is staged go on alike. -/
theorem forget_bind {α : Type} {f : Unit → Action α}
    (later : ∀ s₁ s₁', s₁.workingDirectory = s.workingDirectory →
      Beside region due project target s₁ s₁' → Alike region due s₁ s₁' (f () s₁) (f () s₁')) :
    Alike region due s s' ((forget project q >>= f) s) ((forget project q >>= f) s') := by
  unfold forget
  simp only [bind_assoc]
  refine h.deleteFile_bind ends staged fun s₁ s₁' place₁ h₁ => ?_
  have staged₁ := staged.of_workingDirectory place₁
  refine .bind (h₁.pruneUpTo ends staged₁) fun _ s₂ s₂' run _ aside₂ => ?_
  have prunes := Action.prunes_pruneUpTo h₁.stageable.written.straight project q.parent
  have place₂ : (Action.pruneUpTo project q.parent s₁).2.workingDirectory = s₁.workingDirectory := by
    rw [prunes.beside]
  have stageable₂ := h₁.stageable.pruneUpTo staged₁
  rw [run] at place₂ stageable₂
  exact later s₂ s₂' (place₂.trans place₁) (h₁.next stageable₂ place₂ aside₂)

/-- The staging directory is there where something is staged. -/
theorem region_there (there : s.exists? q = .ok true) :
    s.tree.at? region ≠ none ∧ s'.tree.at? region ≠ none := by
  have part : region <+: s.location q := h.region_eq ▸ Stageable.outer_above staged
  have above {s : Site} (sound : s.tree.Sound) (direct : s.Direct q) (there : s.exists? q = .ok true)
      (part : region <+: s.location q) : s.tree.at? region ≠ none := by
    rw [direct.exists? sound] at there
    have entry : s.entryAt q ≠ none := Option.isSome_iff_ne_none.mp (Except.ok.inj there)
    by_cases same : region = s.location q
    · rw [same]
      exact entry
    · rw [sound.above entry part same]
      simp
  refine ⟨above h.aside.sound (h.direct ends staged) there part, ?_⟩
  refine above h.aside.sound' (h.direct' ends staged) ((h.exists_eq ends staged).trans there) ?_
  rw [location_of_workingDirectory h.aside.place]
  exact part

end

/-- A file is staged alike. -/
theorem stage : Alike region due s s' (Staged.stage standardDirectory target project s)
    (Staged.stage standardDirectory target project s') := by
  unfold Staged.stage
  refine h.ask_bind fun copy marker copyStaged markerStaged => ?_
  refine h.deleteFile_bind .copy copyStaged fun s₁ s₁' place₁ h₁ => ?_
  refine h₁.deleteFile_bind .marker (markerStaged.of_workingDirectory place₁)
    fun s₂ s₂' place₂ h₂ => ?_
  have place := place₂.trans place₁
  refine .askFault_bind h₂.aside (h₂.visible.exists?_eq h₂.aside.place h₂.aside.outside)
    fun there _ => ?_
  cases there with
  | true =>
    have staged := copyStaged.of_workingDirectory place
    have own := h₂.own_staged .copy staged
    have free (m : Location) (here : due m) : ¬m <+: s₂.location copy.parent :=
      fun part => own.above m here (part.trans (h₂.stageable.location_parent staged))
    refine .underneath (h₂.aside.makeDirectories (h₂.direct .copy staged).parent
      (h₂.direct' .copy staged).parent free) fun s₃ s₃' aside leads leads' grows => ?_
    have place₃ : s₃.workingDirectory = s₂.workingDirectory := by rw [grows.beside]
    rw [← location_of_workingDirectory place₃] at own
    refine .bind (aside.copyFile leads leads' own.not_due (aside.entryAt_eq own) ?_)
      fun _ _ _ _ _ aside₄ => .refl aside₄ _
    exact (h₂.visible.of_place place₃).read_eq aside.place aside.outside
  | false =>
    have staged := markerStaged.of_workingDirectory place
    refine .askFault_bind h₂.aside (h₂.visible.nearestAncestor_eq h₂.aside.place h₂.aside.outside)
      fun ancestor _ => ?_
    refine .bind (h₂.aside.writeBytes (h₂.direct .marker staged) (h₂.direct' .marker staged)
      (h₂.own_staged .marker staged) (h₂.stageable.location_parent staged) _)
      fun _ _ _ _ _ aside₃ => .refl aside₃ _

/-- A file is restored alike. -/
theorem restore : Alike region due s s' (Staged.restore standardDirectory target project s)
    (Staged.restore standardDirectory target project s') := by
  unfold Staged.restore
  refine h.ask_bind fun copy marker copyStaged markerStaged => ?_
  refine .orFault ?_
  refine .askFault_bind h.aside (h.exists_eq .copy copyStaged) fun copied _ => ?_
  cases copied with
  | true =>
    have read (s s' : Site) (same : s'.read copy = s.read copy) :
        s'.readBytes copy = s.readBytes copy := by
      rw [readBytes, readBytes, same]
    refine .ask_bind h.aside (read s s' (h.read_eq .copy copyStaged)) fun bytes _ => ?_
    refine .bind (h.aside.writeBytes_visible h.visible bytes) fun _ s₁ s₁' run _ aside₁ => ?_
    have writes := Action.writes_of_writeBytes run
    have place : s₁.workingDirectory = s.workingDirectory := by rw [writes.beside]
    have h₁ := h.next (h.stageable.of_leads (h.stageable.leads.of_opens writes.opens place) place)
      place aside₁
    refine .bind (aside₁.copyMode_visible h₁.visible
      (h₁.read_eq .copy (copyStaged.of_workingDirectory place))) fun _ _ _ _ _ aside₂ => .refl aside₂ _
  | false =>
    refine .askFault_bind h.aside (h.exists_eq .marker markerStaged) fun marked there => ?_
    cases marked with
    | true =>
      have read : s'.readText marker = s.readText marker := by
        rw [readText, readText, readBytes, readBytes, h.read_eq .marker markerStaged]
      refine .ask_bind h.aside read fun t _ => ?_
      refine .bind (h.aside.deleteFile_visible h.visible) fun _ s₁ s₁' run run' aside₁ => ?_
      have clears := Action.clears_of_deleteFile run
      have clears' := Action.clears_of_deleteFile run'
      -- The region is not the file, so the removal leaves it, and pruning stops there in both.
      have other : region ≠ s.location target :=
        fun same => h.visible.location (same ▸ List.prefix_rfl)
      have place : s₁.workingDirectory = s.workingDirectory := by rw [clears.touches.beside]
      obtain ⟨region₀, region₀'⟩ := h.region_there .marker markerStaged there
      have region₁ : s₁.tree.at? region ≠ none := by
        rwa [clears.other other]
      have region₁' : s₁'.tree.at? region ≠ none := by
        rwa [clears'.other (by rwa [location_of_workingDirectory h.aside.place])]
      refine .bind (aside₁.pruneUpTo_visible region₁ region₁' (h.visible.parent.of_place place) _)
        fun _ _ _ _ _ aside₂ => .refl aside₂ _
    | false => exact .refl h.aside _

/-- What is staged of a file is forgotten alike. -/
theorem forgetTarget : Alike region due s s' (Staged.forgetTarget standardDirectory target project s)
    (Staged.forgetTarget standardDirectory target project s') := by
  unfold Staged.forgetTarget
  refine h.ask_bind fun copy marker copyStaged markerStaged => ?_
  refine h.forget_bind .copy copyStaged fun s₁ s₁' place₁ h₁ => ?_
  have staged := markerStaged.of_workingDirectory place₁
  exact h₁.deleteFile_bind .marker staged fun s₂ s₂' place₂ h₂ =>
    h₂.pruneUpTo .marker (staged.of_workingDirectory place₂)

end Beside

/-! ### What is left beside -/

/-- What is staged of a file is due in the staging directory. -/
structure Awaits (region : Location) (due : Location → Prop) (project target : Path) (s : Site) :
    Prop where
  region_eq : region = outer s project
  stageable : Stageable s project target
  sound : s.tree.Sound
  hidden : ∀ m, due m → region <+: m
  due : ∀ ending, Ending ending → due (stagedLocation s project ending target)

namespace Awaits

variable (h : Awaits region due project target s)
include h

theorem next (aside : SameAside region due s s₁) : Awaits region due project target s₁ where
  region_eq := by rw [h.region_eq, outer_of_workingDirectory aside.place]
  stageable := h.stageable.of_outside aside.place (h.region_eq ▸ aside.outside)
  sound := aside.sound'
  hidden := h.hidden
  due ending ends := by
    rw [stagedLocation_of_workingDirectory aside.place]
    exact h.due ending ends

section

variable (ends : Ending ending) (staged : IsStaged s project ending (placeOf s project target) q)
include ends staged

theorem due_staged : due (s.location q) := by
  rw [staged.location]
  exact h.due ending ends

/-- The directories above what is staged, up to that of the project, are on the way to it. -/
theorem onWay {m : Location} (inside : s.location project <+: m) (other : m ≠ s.location project)
    (part : m <+: s.location q.parent) : region <+: m ∧ OnWay due m := by
  have above := h.stageable.location_parent staged
  obtain ⟨name, _, _, at_⟩ := (h.stageable.way staged).last (by simp [suffixed])
  refine ⟨?_, _, h.due_staged ends staged, part.trans above, ?_⟩
  · rw [h.region_eq]
    exact h.stageable.outer_above_of_inside staged inside other (part.trans above)
  · rintro rfl
    have longer := part.length_le
    rw [at_, List.length_append, List.length_singleton] at longer
    omega

/-- A directory that is made for what is staged is on the way to it. -/
theorem onWay_of_absent {m : Location} {k : Nat} (absent : s.tree.at? m = none)
    (way : m = Location.walk (s.start q.parent) (q.parent.names.take k)) :
    region <+: m ∧ OnWay due m := by
  have open_ : s.tree.at? (s.location project) = some .directory := h.stageable.leads.2
  have other : m ≠ s.location project := by
    rintro rfl
    cases absent.symm.trans open_
  have part : m <+: s.location q.parent := by
    obtain ⟨_, _, direct, _⟩ := (h.stageable.direct ends staged).parent
    rw [way] at absent ⊢
    exact direct.firm.prefix_of_absent absent
  have below : s.location project <+: s.location q := by
    rw [(h.stageable.way staged).location]
    exact List.prefix_append ..
  rcases List.prefix_or_prefix_of_prefix (part.trans (h.stageable.location_parent staged)) below
    with outside | inside
  · cases absent.symm.trans (h.sound.above (by simp [open_]) outside other)
  · exact h.onWay ends staged inside other part

theorem deleteFile : SameAside region due s (Action.deleteFile q s).2 := by
  rcases Action.deleteFile_clears q s with ⟨s₁, run, clears⟩ | ⟨f, run⟩
  · rw [run]
    refine .of_due h.hidden clears.touches.beside h.sound (clears.touches.sound h.sound) fun m => ?_
    rcases clears.gone m with same | ⟨rfl, gone, bytes, mode, file⟩
    · exact .inl same
    · exact .inr (.inl ⟨h.due_staged ends staged, by simp [file], by simp [gone]⟩)
  · rw [run]
    exact .refl h.sound h.hidden

theorem of_grows (grows : Grows s s₁ q.parent) : SameAside region due s s₁ := by
  refine .of_due h.hidden grows.beside h.sound (grows.sound h.sound) fun m => ?_
  rcases grows.entries m with same | ⟨absent, made, k, way⟩
  · exact .inl same
  · refine .inr (.inr ⟨?_, by simp [absent], by simp [made]⟩)
    exact h.onWay_of_absent ends staged absent (Tree.eq_walk_of_follow way)

theorem copyFile : SameAside region due s (Action.copyFile target q s).2 := by
  rcases Action.copyFile_cases target q s with ⟨bytes, mode, _, inner, parent, leaf, run⟩ | ⟨f, run⟩
  · rw [run]
    refine .of_due h.hidden rfl h.sound
      ((Touches.of_file inner parent leaf bytes mode).sound h.sound) fun m => ?_
    rw [at?_insert inner]
    split
    next here =>
      rw [here]
      exact .inr (.inl ⟨h.due_staged ends staged, leaf, by simp⟩)
    next => exact .inl rfl
  · rw [run]
    exact .refl h.sound h.hidden

theorem writeText (t : Text) : SameAside region due s (Action.writeText q t s).2 := by
  rcases Action.writeBytes_cases q (Utf8.encode t) s with ⟨s₁, run, writes⟩ | ⟨f, s₁, run, grows, _⟩
  · rw [Action.writeText, run]
    refine .of_due h.hidden writes.beside h.sound (writes.sound h.sound) fun m => ?_
    by_cases here : m = s.location q
    · rw [here, writes.written]
      exact .inr (.inl ⟨h.due_staged ends staged, writes.free, by simp⟩)
    · rcases writes.others m here with same | ⟨absent, made, k, way⟩
      · exact .inl same
      · exact .inr (.inr ⟨h.onWay_of_absent ends staged absent way, by simp [absent], by simp [made]⟩)
  · rw [Action.writeText, run]
    exact h.of_grows ends staged grows

theorem pruneUpTo : SameAside region due s (Action.pruneUpTo project q.parent s).2 := by
  have prunes := Action.prunes_pruneUpTo h.stageable.written.straight project q.parent
  refine .of_due h.hidden prunes.beside h.sound (prunes.sound h.sound) fun m => ?_
  rcases prunes.entries m with same | ⟨there, gone, inside, other, part⟩
  · exact .inl same
  · exact .inr (.inr ⟨h.onWay ends staged inside other part, by simp [there], by simp [gone]⟩)

theorem forget : SameAside region due s (Staged.forget project q s).2 := by
  unfold Staged.forget
  refine Action.bind_rule (h.deleteFile ends staged) fun _ s₁ _ aside₁ => ?_
  exact aside₁.trans ((h.next aside₁).pruneUpTo ends (staged.of_workingDirectory aside₁.place))

end

/-- What first asks for the copy and the marker of the file leaves as much as the rest. -/
theorem asks {α : Type} {f : Path → Path → Action α}
    (later : ∀ copy marker, IsStaged s project ".bak" (placeOf s project target) copy →
      IsStaged s project ".absent" (placeOf s project target) marker →
      SameAside region due s (f copy marker s).2) :
    SameAside region due s ((do
      let copy ← Action.ask fun s => copyPath standardDirectory s target project
      let marker ← Action.ask fun s => markerPath standardDirectory s target project
      f copy marker : Action α) s).2 := by
  have start : SameAside region due s s := .refl h.sound h.hidden
  refine Action.bind_rule start fun copy s₁ asked _ => ?_
  obtain ⟨copyAsked, rfl⟩ := Action.ask_eq_ok asked
  obtain ⟨_, known, copyStaged⟩ := h.stageable.stagedPath .copy
  cases known.symm.trans copyAsked
  refine Action.bind_rule start fun marker s₁ asked _ => ?_
  obtain ⟨markerAsked, rfl⟩ := Action.ask_eq_ok asked
  obtain ⟨_, known, markerStaged⟩ := h.stageable.stagedPath .marker
  cases known.symm.trans markerAsked
  exact later copy marker copyStaged markerStaged

/-- However staging a file ends, it leaves a site that differs in what is due. -/
theorem stage : SameAside region due s (Staged.stage standardDirectory target project s).2 := by
  unfold Staged.stage
  refine h.asks fun copy marker copyStaged markerStaged => ?_
  refine Action.bind_rule (h.deleteFile .copy copyStaged) fun _ s₁ _ aside₁ => ?_
  have marker₁ := markerStaged.of_workingDirectory aside₁.place
  refine Action.bind_rule (aside₁.trans ((h.next aside₁).deleteFile .marker marker₁))
    fun _ s₂ _ aside₂ => ?_
  refine Action.bind_rule aside₂ fun there s₃ asked _ => ?_
  obtain ⟨_, rfl⟩ := Action.askFault_eq_ok asked
  have h₂ := h.next aside₂
  cases there with
  | true =>
    have copy₂ := copyStaged.of_workingDirectory aside₂.place
    have grows := (Action.makes_makeDirectories copy.parent s₂).grows
    refine Action.bind_rule (aside₂.trans (h₂.of_grows .copy copy₂ grows)) fun _ s₃ _ aside₃ => ?_
    have copy₃ := copyStaged.of_workingDirectory aside₃.place
    exact Action.bind_rule (aside₃.trans ((h.next aside₃).copyFile .copy copy₃))
      fun _ _ _ aside => aside
  | false =>
    refine Action.bind_rule aside₂ fun ancestor s₃ asked _ => ?_
    obtain ⟨_, rfl⟩ := Action.askFault_eq_ok asked
    have marker₂ := markerStaged.of_workingDirectory aside₂.place
    exact Action.bind_rule (aside₂.trans (h₂.writeText .marker marker₂ _)) fun _ _ _ aside => aside

/-- The same is true of forgetting what is staged. -/
theorem forgetTarget : SameAside region due s (Staged.forgetTarget standardDirectory target project s).2 := by
  unfold Staged.forgetTarget
  refine h.asks fun copy marker copyStaged markerStaged => ?_
  refine Action.bind_rule (h.forget .copy copyStaged) fun _ s₁ _ aside₁ => ?_
  exact aside₁.trans ((h.next aside₁).forget .marker (markerStaged.of_workingDirectory aside₁.place))

end Awaits

/-- Staging files leaves a site that differs in what is staged of them. -/
theorem sameAside_stageAll (sound : s.tree.Sound)
    (each : ∀ other ∈ others, Stageable s project other) :
    SameAside (outer s project) (Spots s project others) s
      (stageAll standardDirectory project others s).2 := by
  suffices all : ∀ rest ⊆ others, ∀ s₁, SameAside (outer s project) (Spots s project others) s s₁ →
      SameAside (outer s project) (Spots s project others) s
        (stageAll standardDirectory project rest s₁).2 from
    all others (List.Subset.refl _) s (.refl sound fun _ => Spots.hidden)
  intro rest
  induction rest with
  | nil =>
    intro _ s₁ aside
    exact aside
  | cons other rest ih =>
    intro part s₁ aside
    obtain ⟨member, part⟩ := List.cons_subset.mp part
    have start : Awaits (outer s project) (Spots s project others) project other s :=
      ⟨rfl, each other member, sound, fun _ => Spots.hidden,
        fun ending ends => ⟨other, member, ending, ends, rfl⟩⟩
    exact stageAll_cons_rule (aside.trans (start.next aside).stage) fun _ s₂ _ aside₂ => ih part s₂ aside₂

/-- Where other files are staged as well that do not cross a file, it is staged, restored and forgotten as
if they were not: what is staged of it lies beside what is staged of them, each operation ends with the
same answer and makes the same changes, and what is staged of the others stays as it is. -/
theorem staged_beside (stageable : Stageable s project target)
    (each : ∀ other ∈ others, Below s project other ∧ s.location other ≠ s.location target ∧
      Uncrossed s target other)
    (aside : SameAside (outer s project) (Spots s project others) s s') :
    (∀ m m', Spots s project [target] m → Spots s project others m' → ¬m <+: m' ∧ ¬m' <+: m) ∧
    Alike (outer s project) (Spots s project others) s s'
      (stage standardDirectory target project s) (stage standardDirectory target project s') ∧
    Alike (outer s project) (Spots s project others) s s'
      (restore standardDirectory target project s) (restore standardDirectory target project s') ∧
    Alike (outer s project) (Spots s project others) s s'
      (forgetTarget standardDirectory target project s)
      (forgetTarget standardDirectory target project s') := by
  have h : Beside (outer s project) (Spots s project others) project target s s' :=
    ⟨rfl, stageable, fun ending ends => own_of_uncrossed stageable.below ends each, aside⟩
  refine ⟨?_, h.stage, h.restore, h.forgetTarget⟩
  rintro m m' spot ⟨other, member, spot'⟩
  obtain ⟨below, differ, uncrossed⟩ := each other member
  exact (uncrossed_iff stageable.below below differ).mp uncrossed m m' spot
    ⟨other, List.mem_singleton.mpr rfl, spot'⟩

/-! ### Two files in one directory, and one that is in the way -/

theorem Workshop.stageable {target : Path} (place : List Text) (plain : target.Plain)
    (forward : upName ∉ target.names) (inner : place ≠ [])
    (at_ : site.location target = site.location {} ++ place)
    (elsewhere : ¬outer site {} <+: site.location target)
    (short : ∀ name ∈ suffixed ".absent" (placeOf site {} target), nameSize name ≤ maxNameSize) :
    Stageable site {} target where
  written := clean.written
  plain := plain
  below := ⟨place, inner, at_⟩
  short := short_of_marker short
  leads := clean.leads
  beside := .of_forward (by decide) (by decide)
  elsewhere := .of_forward forward elsewhere

/-- A file is staged as ever while another one, which is absent, is staged in the same directory. -/
theorem staged_beside_marker :
    let s' := (stageAll standardDirectory {} ["b"] Workshop.site).2
    s'.tree.at? (["ws", ".remediation", "staging", "b.absent"].map String.toList) ≠ none ∧
      (stage standardDirectory "a" {} s').1 = (stage standardDirectory "a" {} Workshop.site).1 ∧
      ∀ m, Spots Workshop.site {} ["b"] m →
        (forgetTarget standardDirectory "a" {} s').2.tree.at? m = s'.tree.at? m := by
  intro s'
  have first : Stageable Workshop.site {} "a" :=
    Workshop.stageable [['a']] (Path.plain_ofText _) (by decide) (by decide) (by decide) (by decide)
      (by decide)
  have second : Stageable Workshop.site {} "b" :=
    Workshop.stageable [['b']] (Path.plain_ofText _) (by decide) (by decide) (by decide) (by decide)
      (by decide)
  have uncrossed : Uncrossed Workshop.site "a" "b" := by
    intro ending ends
    cases ends with
    | copy => decide
    | marker => decide
  have aside : SameAside (outer Workshop.site {}) (Spots Workshop.site {} ["b"]) Workshop.site s' :=
    sameAside_stageAll Workshop.clean.sound (List.forall_mem_singleton.mpr second)
  have each := staged_beside first
    (List.forall_mem_singleton.mpr ⟨second.below, by decide, uncrossed⟩) aside
  exact ⟨by decide +kernel, each.2.1.result, each.2.2.2.kept'⟩

/-- A second file, in a directory that is named like the copy of the first one. -/
def Workshop.crossed : Site :=
  (site.insert ["ws".toList, "a.bak".toList] .directory).insert
    ["ws".toList, "a.bak".toList, "b".toList] (.file [2] 0o644)

/-- What is staged of one file is in the way of the other, although the files differ: each of the two can
be staged alone, but not the second one after the first. -/
theorem copy_in_the_way :
    Below Workshop.crossed {} "a" ∧ Below Workshop.crossed {} "a.bak/b" ∧
      Workshop.crossed.location "a" ≠ Workshop.crossed.location "a.bak/b" ∧
      stagedLocation Workshop.crossed {} ".bak" "a" <+:
        stagedLocation Workshop.crossed {} ".bak" "a.bak/b" ∧
      (backup standardDirectory ["a"] {} Workshop.crossed).1.toOption.isSome ∧
      (backup standardDirectory ["a.bak/b"] {} Workshop.crossed).1.toOption.isSome ∧
      (backup standardDirectory ["a", "a.bak/b"] {} Workshop.crossed).1.toOption = none := by
  refine ⟨⟨[['a']], by decide, by decide⟩, ⟨["a.bak".toList, ['b']], by decide, by decide⟩, by decide,
    by decide, ?_, ?_, ?_⟩
  · decide +kernel
  · decide +kernel
  · decide +kernel

end Staged

end Layering
