import Layering.Proofs.CleanMemory
import Layering.Proofs.Hindrances

/-!
# Working side by side

Work that is confined to some files changes nothing else, but for the directories that hold them. Where
no file lies on the way to another, sites that differ only in the files of others look the same to it.
-/

namespace Layering

/-- What is remembered of a file, without the directory that was nearest to it if it was absent. -/
def Held.bytes? : Held → Option Bytes
  | contents bytes => some bytes
  | absent _ => none

namespace Site

variable {due due' own mine other : Location → Prop} {before s s' s'' t t' : Site} {l m : Location}

/-- Nothing differs but files that are due, and directories that were made for them. -/
structure Within (due : Location → Prop) (before s : Site) : Prop where
  place : s.workingDirectory = before.workingDirectory
  sound : s.tree.Sound
  opens : before.tree.Opens s.tree
  files : ∀ l, ¬due l → ∀ bytes mode,
    s.tree.at? l = some (.file bytes mode) ↔ before.tree.at? l = some (.file bytes mode)
  made : ∀ l, s.tree.at? l = some .directory → before.tree.at? l = some .directory ∨
    ∃ m, due m ∧ l <+: m ∧ l ≠ m

/-- No file that is due lies on the way to another, unless it was a directory before. -/
def Level (due : Location → Prop) (before : Site) : Prop :=
  ∀ l m, due l → due m → l <+: m → before.tree.at? l ≠ some .directory → l = m

namespace Within

theorem refl (sound : s.tree.Sound) (due : Location → Prop) : Within due s s where
  place := rfl
  sound := sound
  opens _ := id
  files _ _ _ _ := Iff.rfl
  made _ := .inl

theorem mono (h : Within due before s) (more : ∀ l, due l → due' l) : Within due' before s where
  place := h.place
  sound := h.sound
  opens := h.opens
  files l undue := h.files l (mt (more l) undue)
  made l open_ := by
    refine (h.made l open_).imp_right ?_
    rintro ⟨m, here, part, differ⟩
    exact ⟨m, more m here, part, differ⟩

theorem trans (first : Within due before s) (second : Within due s s') : Within due before s' where
  place := second.place.trans first.place
  sound := second.sound
  opens l open_ := second.opens l (first.opens l open_)
  files l undue bytes mode := (second.files l undue bytes mode).trans (first.files l undue bytes mode)
  made l open_ := (second.made l open_).elim (first.made l) .inr

theorem of_tree (h : Within due before s) (place : s'.workingDirectory = s.workingDirectory)
    (tree : s'.tree = s.tree) : Within due before s' where
  place := place.trans h.place
  sound := tree ▸ h.sound
  opens := tree ▸ h.opens
  files := tree ▸ h.files
  made := tree ▸ h.made

/-- A file was put in its place or left, and directories were made on its way. -/
theorem of_put (place : s'.workingDirectory = s.workingDirectory) (sound : s'.tree.Sound)
    (put : s'.tree.at? l = s.tree.at? l ∨
      s.tree.at? l ≠ some .directory ∧ ∃ bytes mode, s'.tree.at? l = some (.file bytes mode))
    (others : ∀ m ≠ l, s'.tree.at? m = s.tree.at? m ∨
      s.tree.at? m = none ∧ s'.tree.at? m = some .directory ∧ m <+: l) :
    Within (· = l) s s' where
  place := place
  sound := sound
  -- The file itself and the directories above it are the only places that can differ.
  opens m open_ := by
    by_cases same : m = l
    · subst same
      rcases put with kept | ⟨leaf, _⟩
      · rw [kept, open_]
      · exact absurd open_ leaf
    · rcases others m same with kept | ⟨absent, _⟩
      · rw [kept, open_]
      · cases absent.symm.trans open_
  files m differ bytes mode := by
    rcases others m differ with kept | ⟨absent, new, _⟩
    · rw [kept]
    · simp [absent, new]
  made m open_ := by
    by_cases same : m = l
    · subst same
      rcases put with kept | ⟨_, bytes, mode, file⟩
      · exact .inl (kept ▸ open_)
      · cases open_.symm.trans file
    · rcases others m same with kept | ⟨_, _, part⟩
      · exact .inl (kept ▸ open_)
      · exact .inr ⟨l, rfl, part, same⟩

theorem location (h : Within due before s) (p : Path) : s.location p = before.location p :=
  location_of_workingDirectory h.place p

theorem resolve_eq (h : Within due before s) (straight : upName ∉ before.workingDirectory)
    (p : Path) : s.resolve p = ⟨.root, before.location p⟩ := by
  rw [resolve_of_workingDirectory h.place, Site.resolve_eq straight]

section

variable (h : Within due before s) (level : Level due before) (here : due l)
include h level here

/-- No directory comes or goes where a file is due. -/
theorem open_iff : s.tree.at? l = some .directory ↔ before.tree.at? l = some .directory := by
  refine ⟨fun open_ => ?_, h.opens l⟩
  by_contra leaf
  obtain ⟨m, there, part, differ⟩ := (h.made l open_).resolve_left leaf
  exact differ (level l m here there part leaf)

/-- No file comes or goes on the way to one that is due. -/
theorem blocked_iff : s.tree.Blocked l ↔ before.tree.Blocked l := by
  have same {m : Location} (part : m <+: l) (differ : m ≠ l) (bytes : Bytes) (mode : Nat) :
      s.tree.at? m = some (.file bytes mode) ↔ before.tree.at? m = some (.file bytes mode) := by
    by_cases open_ : before.tree.at? m = some .directory
    · rw [open_, h.opens m open_]
    · exact h.files m (fun there => differ (level m l there here part open_)) bytes mode
  constructor
  · rintro ⟨m, bytes, mode, part, differ, file⟩
    exact ⟨m, bytes, mode, part, differ, (same part differ bytes mode).mp file⟩
  · rintro ⟨m, bytes, mode, part, differ, file⟩
    exact ⟨m, bytes, mode, part, differ, (same part differ bytes mode).mpr file⟩

/-- Where the same file is due at two sites, the same is there. -/
theorem eq_of_files (h' : Within due before s')
    (same : ∀ bytes mode, s'.tree.at? l = some (.file bytes mode) ↔
      s.tree.at? l = some (.file bytes mode)) : s'.tree.at? l = s.tree.at? l := by
  have open_ := (h'.open_iff level here).trans (h.open_iff level here).symm
  rcases entry : s.tree.at? l with _ | ⟨_ | ⟨bytes, mode⟩⟩
  · rcases entry' : s'.tree.at? l with _ | ⟨_ | ⟨bytes, mode⟩⟩
    · rfl
    · cases entry.symm.trans (open_.mp entry')
    · cases entry.symm.trans ((same bytes mode).mp entry')
  · exact open_.mpr entry
  · exact (same bytes mode).mpr entry

end

end Within

/-! ### What two sites show -/

/-- Two sites show the same at some locations, and the same is remembered of these. -/
structure SameAt (own : Location → Prop) (s s' : Site) : Prop where
  entries : ∀ l, own l → s'.tree.at? l = s.tree.at? l
  held : ∀ l, own l → (Entries.get? ⟨.root, l⟩ s'.held).map Held.bytes? =
    (Entries.get? ⟨.root, l⟩ s.held).map Held.bytes?

/-- Two sites have the same files but for some locations, and the same is remembered of the others. -/
structure SameBeside (own : Location → Prop) (s s' : Site) : Prop where
  files : ∀ l, ¬own l → ∀ bytes mode,
    s'.tree.at? l = some (.file bytes mode) ↔ s.tree.at? l = some (.file bytes mode)
  held : ∀ l, ¬own l → Entries.get? ⟨.root, l⟩ s'.held = Entries.get? ⟨.root, l⟩ s.held

theorem SameAt.refl (own : Location → Prop) (s : Site) : SameAt own s s :=
  ⟨fun _ _ => rfl, fun _ _ => rfl⟩

theorem SameAt.symm (h : SameAt own s s') : SameAt own s' s :=
  ⟨fun l here => (h.entries l here).symm, fun l here => (h.held l here).symm⟩

theorem SameAt.trans (first : SameAt own s s') (second : SameAt own s' s'') : SameAt own s s'' where
  entries l here := (second.entries l here).trans (first.entries l here)
  held l here := (second.held l here).trans (first.held l here)

theorem SameBeside.refl (own : Location → Prop) (s : Site) : SameBeside own s s :=
  ⟨fun _ _ _ _ => Iff.rfl, fun _ _ => rfl⟩

theorem SameBeside.mono (h : SameBeside own s s') (more : ∀ l, own l → other l) :
    SameBeside other s s' where
  files l beside := h.files l (mt (more l) beside)
  held l beside := h.held l (mt (more l) beside)

theorem SameBeside.trans (first : SameBeside own s s') (second : SameBeside own s' s'') :
    SameBeside own s s'' where
  files l beside bytes mode := (second.files l beside bytes mode).trans (first.files l beside bytes mode)
  held l beside := (second.held l beside).trans (first.held l beside)

theorem Within.sameBeside (h : Within own s s') (held : s'.held = s.held) : SameBeside own s s' where
  files := h.files
  held _ _ := by rw [held]

/-- What changes nothing beside some files does not show at others. -/
theorem SameBeside.sameAt (beside : SameBeside own s s') (level : Level due before)
    (h : Within due before s) (h' : Within due before s')
    (others : ∀ l, other l → due l ∧ ¬own l) : SameAt other s s' where
  entries l here := h.eq_of_files level (others l here).1 h' (beside.files l (others l here).2)
  held l here := by rw [beside.held l (others l here).2]

/-! ### Sites of a run -/

/-- There was no directory on the way from a location to a place below it. -/
def Unopened (before : Site) (stop l : Location) : Prop :=
  ∀ m, stop <+: m → m ≠ stop → m <+: l → before.tree.at? m ≠ some .directory

/-- A site as it may be while work goes on that is confined to some files: what is remembered of an
absent file leads to the removal of no directory that was there before. -/
structure Fares (due : Location → Prop) (before s : Site) : Prop extends Within due before s where
  marks : ∀ l stop, due l → Entries.get? ⟨.root, l⟩ s.held = some (.absent stop) →
    before.Unopened (before.location stop) l

theorem Fares.onward (fares : Fares due before s) (within : Within due before s')
    (held : s'.held = s.held) : Fares due before s' :=
  { within with marks := by rw [held]; exact fares.marks }

/-- Two sites of runs that show the same at the files of some work. -/
structure Twins (due own : Location → Prop) (before s s' : Site) : Prop where
  first : Fares due before s
  second : Fares due before s'
  same : SameAt own s s'

theorem Twins.symm (h : Twins due own before s s') : Twins due own before s' s :=
  ⟨h.second, h.first, h.same.symm⟩

/-- Sites that show the same still do so when some of it was changed alike at both. -/
theorem Twins.onward (twins : Twins due own before s s') (level : Level due before)
    (owned : ∀ l, own l → due l) (fares : Fares due before t) (fares' : Fares due before t')
    (beside : SameBeside mine s t) (beside' : SameBeside mine s' t') (same : SameAt mine t t') :
    Twins due own before t t' := by
  refine ⟨fares, fares', ⟨fun l here => ?_, fun l here => ?_⟩⟩
  · by_cases inside : mine l
    · exact same.entries l inside
    · have others : ∀ m, m = l → due m ∧ ¬mine m := by
        rintro m rfl
        exact ⟨owned m here, inside⟩
      have kept := (beside.sameAt level twins.first.toWithin fares.toWithin others).entries l rfl
      have kept' := (beside'.sameAt level twins.second.toWithin fares'.toWithin others).entries l rfl
      rw [kept, kept', twins.same.entries l here]
  · by_cases inside : mine l
    · exact same.held l inside
    · rw [beside.held l inside, beside'.held l inside]
      exact twins.same.held l here

end Site

end Layering
