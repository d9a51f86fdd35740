import Layering.Proofs.DirectEffects
import Layering.Proofs.Targets

/-!
# Runs that go alike

Two sites may differ in some files that are due in a region of the tree, and in the directories that hold
them. What is done elsewhere, or in the region but to other files, goes alike on both: it ends with the
same answer, makes the same changes, and leaves what is due alone.
-/

namespace Layering

namespace Site

variable {region l m : Location} {due : Location → Prop} {s s' s₁ s₁' : Site} {p q : Path}

/-! ### Paths that keep out of a region -/

section

variable (visible : s.Visible (fun m => region <+: m) p)
variable (place : s'.workingDirectory = s.workingDirectory)
variable (outside : ∀ m, ¬region <+: m → s'.tree.at? m = s.tree.at? m)
include visible place outside

theorem Visible.read_eq : s'.read p = s.read p :=
  read_congr (visible.locate_eq place outside) (outside _ visible.location)

theorem Visible.slot_eq : s'.slot? p = s.slot? p :=
  slot_congr (visible.parent.locate_eq place outside) (outside _ visible.parent.location)

theorem Visible.nearestAncestor_eq : s'.nearestAncestor p = s.nearestAncestor p := by
  suffices same : ∀ n q, s.Visible (fun m => region <+: m) q →
      nearestAncestor.up s' q n = nearestAncestor.up s q n from same _ _ visible.parent
  -- The questions go up along the parents, so the path is let free under the fuel.
  intro n
  induction n with
  | zero =>
    intro q _
    rfl
  | succ n ih =>
    intro q visible
    unfold nearestAncestor.up
    rw [visible.exists?_eq place outside, ih _ visible.parent]

theorem LeadsToDirectory.of_visible (leads : s.LeadsToDirectory p) : s'.LeadsToDirectory p := by
  constructor
  · rw [visible.locate_eq place outside, location_of_workingDirectory place, leads.1]
  · rw [visible.entryAt_eq place outside, leads.2]

end

/-! ### Sites that differ in what is due -/

/-- The way to something that is due leads on from a location. -/
def OnWay (due : Location → Prop) (l : Location) : Prop := ∃ m, due m ∧ l <+: m ∧ l ≠ m

/-- Two sites differ in nothing but files that are due in a region, and in directories of the region on
the way to them. -/
structure SameAside (region : Location) (due : Location → Prop) (s s' : Site) : Prop where
  beside : s' = { s with tree := s'.tree }
  sound : s.tree.Sound
  sound' : s'.tree.Sound
  hidden : ∀ m, due m → region <+: m
  files : ∀ l, ¬due l → ∀ bytes mode,
    s'.tree.at? l = some (.file bytes mode) ↔ s.tree.at? l = some (.file bytes mode)
  directories : ∀ l, ¬(region <+: l ∧ OnWay due l) →
    (s'.tree.at? l = some .directory ↔ s.tree.at? l = some .directory)

/-- A location has nothing to do with what is due: neither is on the way to the other. -/
structure Own (due : Location → Prop) (l : Location) : Prop where
  above : ∀ m, due m → ¬m <+: l
  below : ∀ m, due m → ¬l <+: m

theorem Own.not_due (own : Own due l) : ¬due l := fun here => own.above l here List.prefix_rfl

theorem Own.deeper (own : Own due l) (part : l <+: m) : Own due m where
  above k here inside :=
    (List.prefix_or_prefix_of_prefix inside part).elim (own.above k here) (own.below k here)
  below k here inside := own.below k here (part.trans inside)

theorem modeAt_congr (same : s'.tree.at? l = s.tree.at? l) : s'.modeAt l = s.modeAt l := by
  rw [modeAt, modeAt, same]

namespace SameAside

theorem refl (sound : s.tree.Sound) (hidden : ∀ m, due m → region <+: m) : SameAside region due s s :=
  ⟨rfl, sound, sound, hidden, fun _ _ _ _ => .rfl, fun _ _ => .rfl⟩

theorem symm (aside : SameAside region due s s') : SameAside region due s' s where
  beside := by rw [aside.beside]
  sound := aside.sound'
  sound' := aside.sound
  hidden := aside.hidden
  files l other bytes mode := (aside.files l other bytes mode).symm
  directories l off := (aside.directories l off).symm

theorem trans (first : SameAside region due s s') (second : SameAside region due s' s₁) :
    SameAside region due s s₁ where
  beside := by rw [second.beside, first.beside]
  sound := first.sound
  sound' := second.sound'
  hidden := first.hidden
  files l other bytes mode := (second.files l other bytes mode).trans (first.files l other bytes mode)
  directories l off := (second.directories l off).trans (first.directories l off)

/-- Files that are due come and go, and so do directories on the way to them. -/
theorem of_due (hidden : ∀ m, due m → region <+: m) (beside : s' = { s with tree := s'.tree })
    (sound : s.tree.Sound) (sound' : s'.tree.Sound)
    (each : ∀ m, s'.tree.at? m = s.tree.at? m ∨
      (due m ∧ s.tree.at? m ≠ some .directory ∧ s'.tree.at? m ≠ some .directory) ∨
      ((region <+: m ∧ OnWay due m) ∧ (∀ bytes mode, s.tree.at? m ≠ some (.file bytes mode)) ∧
        ∀ bytes mode, s'.tree.at? m ≠ some (.file bytes mode))) : SameAside region due s s' where
  beside := beside
  sound := sound
  sound' := sound'
  hidden := hidden
  -- A place that is not due can differ only as a directory on the way to one, which is a file
  -- in neither.
  files l other bytes mode := by
    rcases each l with same | ⟨here, _⟩ | ⟨_, no, no'⟩
    · rw [same]
    · exact absurd here other
    · exact ⟨fun file => absurd file (no' bytes mode), fun file => absurd file (no bytes mode)⟩
  directories l off := by
    rcases each l with same | ⟨_, leaf, leaf'⟩ | ⟨on, _⟩
    · rw [same]
    · exact ⟨fun made => absurd made leaf', fun made => absurd made leaf⟩
    · exact absurd on off

variable (aside : SameAside region due s s')
include aside

theorem place : s'.workingDirectory = s.workingDirectory := by rw [aside.beside]

theorem entry_eq (other : ¬due l) (off : ¬(region <+: l ∧ OnWay due l)) :
    s'.tree.at? l = s.tree.at? l := by
  rcases entry : s.tree.at? l with _ | ⟨_ | ⟨bytes, mode⟩⟩
  · rcases entry' : s'.tree.at? l with _ | ⟨_ | ⟨bytes, mode⟩⟩
    · rfl
    · cases entry.symm.trans ((aside.directories l off).mp entry')
    · cases entry.symm.trans ((aside.files l other bytes mode).mp entry')
  · exact (aside.directories l off).mpr entry
  · exact (aside.files l other bytes mode).mpr entry

theorem own (own : Own due l) : s'.tree.at? l = s.tree.at? l := by
  refine aside.entry_eq own.not_due ?_
  rintro ⟨-, m, here, part, -⟩
  exact own.below m here part

theorem outside (l : Location) (other : ¬region <+: l) : s'.tree.at? l = s.tree.at? l :=
  aside.entry_eq (fun here => other (aside.hidden l here)) fun on => other on.1

/-- A file lies on the way at one of the two sites exactly if it does at the other. -/
theorem blocked_iff (free : ∀ m, due m → ¬m <+: l) : s'.tree.Blocked l ↔ s.tree.Blocked l := by
  constructor
  · rintro ⟨m, bytes, mode, part, differ, file⟩
    exact ⟨m, bytes, mode, part, differ,
      (aside.files m (fun here => free m here part) bytes mode).mp file⟩
  · rintro ⟨m, bytes, mode, part, differ, file⟩
    exact ⟨m, bytes, mode, part, differ,
      (aside.files m (fun here => free m here part) bytes mode).mpr file⟩

/-- Sites that change in the same places to the same, or lose directories that hold what is due, differ
in no more than before. -/
theorem update (place : s₁ = { s with tree := s₁.tree }) (place' : s₁' = { s' with tree := s₁'.tree })
    (sound : s₁.tree.Sound) (sound' : s₁'.tree.Sound)
    (each : ∀ m, s₁'.tree.at? m = s₁.tree.at? m ∨
      s₁.tree.at? m = s.tree.at? m ∧ s₁'.tree.at? m = s'.tree.at? m ∨
      (region <+: m ∧ OnWay due m) ∧ (∀ bytes mode, s₁.tree.at? m ≠ some (.file bytes mode)) ∧
        ∀ bytes mode, s₁'.tree.at? m ≠ some (.file bytes mode)) : SameAside region due s₁ s₁' where
  beside := by rw [place', aside.beside, place]
  sound := sound
  sound' := sound'
  hidden := aside.hidden
  files l other bytes mode := by
    rcases each l with same | ⟨kept, kept'⟩ | ⟨-, no, no'⟩
    · rw [same]
    · rw [kept, kept']
      exact aside.files l other bytes mode
    · exact ⟨fun file => absurd file (no' bytes mode), fun file => absurd file (no bytes mode)⟩
  directories l off := by
    rcases each l with same | ⟨kept, kept'⟩ | ⟨on, -⟩
    · rw [same]
    · rw [kept, kept']
      exact aside.directories l off
    · exact absurd on off

end SameAside

/-! ### Runs -/

/-- Two runs of an action from sites that differ in what is due end alike, in sites that differ no more
than that, and leave what is due alone. -/
structure Alike (region : Location) (due : Location → Prop) {α : Type} (s s' : Site)
    (ended ended' : Except Failure α × Site) : Prop where
  result : ended'.1 = ended.1
  aside : SameAside region due ended.2 ended'.2
  kept : ∀ m, due m → ended.2.tree.at? m = s.tree.at? m
  kept' : ∀ m, due m → ended'.2.tree.at? m = s'.tree.at? m

namespace Alike

variable {α β : Type}

/-- Nothing is done but to give an answer. -/
theorem refl (aside : SameAside region due s s') (result : Except Failure α) :
    Alike region due s s' (result, s) (result, s') :=
  ⟨rfl, aside, fun _ _ => rfl, fun _ _ => rfl⟩

theorem after {first : Except Failure α} {ended ended' : Except Failure β × Site}
    (before : Alike region due s s' (first, s₁) (first, s₁'))
    (rest : Alike region due s₁ s₁' ended ended') : Alike region due s s' ended ended' where
  result := rest.result
  aside := rest.aside
  kept m here := (rest.kept m here).trans (before.kept m here)
  kept' m here := (rest.kept' m here).trans (before.kept' m here)

/-- What is not due changes to the same, or nothing changes. -/
theorem of_change (aside : SameAside region due s s') (result : Except Failure α)
    (beside : s₁ = { s with tree := s₁.tree }) (beside' : s₁' = { s' with tree := s₁'.tree })
    (sound : s₁.tree.Sound) (sound' : s₁'.tree.Sound)
    (each : ∀ m, ¬due m ∧ s₁'.tree.at? m = s₁.tree.at? m ∨
      s₁.tree.at? m = s.tree.at? m ∧ s₁'.tree.at? m = s'.tree.at? m) :
    Alike region due s s' (result, s₁) (result, s₁') where
  result := rfl
  aside := aside.update beside beside' sound sound' fun m =>
    (each m).elim (fun changed => .inl changed.2) fun kept => .inr (.inl kept)
  kept m here := ((each m).resolve_left fun changed => changed.1 here).1
  kept' m here := ((each m).resolve_left fun changed => changed.1 here).2

/-- One entry changes to the same. -/
theorem of_entry (aside : SameAside region due s s') (result : Except Failure α)
    (beside : s₁ = { s with tree := s₁.tree }) (beside' : s₁' = { s' with tree := s₁'.tree })
    (sound : s₁.tree.Sound) (sound' : s₁'.tree.Sound) (other : ¬due l) {entry : Option Entry}
    (each : ∀ m, s₁.tree.at? m = if m = l then entry else s.tree.at? m)
    (each' : ∀ m, s₁'.tree.at? m = if m = l then entry else s'.tree.at? m) :
    Alike region due s s' (result, s₁) (result, s₁') := by
  refine .of_change aside result beside beside' sound sound' fun m => ?_
  rw [each, each']
  by_cases here : m = l
  · rw [if_pos here, if_pos here, here]
    exact .inl ⟨other, rfl⟩
  · rw [if_neg here, if_neg here]
    exact .inr ⟨rfl, rfl⟩

theorem bind {x : Action α} {f : α → Action β} (first : Alike region due s s' (x s) (x s'))
    (later : ∀ a s₁ s₁', x s = (.ok a, s₁) → x s' = (.ok a, s₁') → SameAside region due s₁ s₁' →
      Alike region due s₁ s₁' (f a s₁) (f a s₁')) :
    Alike region due s s' ((x >>= f) s) ((x >>= f) s') := by
  rw [Action.bind_apply, Action.bind_apply]
  rcases run : x s with ⟨first', s₁⟩
  rcases run' : x s' with ⟨again, s₁'⟩
  rw [run, run'] at first
  obtain rfl : again = first' := first.result
  rcases again with e | a
  · exact ⟨rfl, first.aside, first.kept, first.kept'⟩
  · exact first.after (later a s₁ s₁' run run' first.aside)

theorem ask_bind {question : Site → Except Failure α} {f : α → Action β}
    (aside : SameAside region due s s') (same : question s' = question s)
    (later : ∀ a, question s = .ok a → Alike region due s s' (f a s) (f a s')) :
    Alike region due s s' ((Action.ask question >>= f) s) ((Action.ask question >>= f) s') := by
  rw [Action.bind_apply, Action.bind_apply, Action.ask_apply, Action.ask_apply, same]
  rcases answer : question s with e | a
  · exact .refl aside _
  · exact later a answer

theorem askFault_bind {question : Site → Except Fault α} {f : α → Action β}
    (aside : SameAside region due s s') (same : question s' = question s)
    (later : ∀ a, question s = .ok a → Alike region due s s' (f a s) (f a s')) :
    Alike region due s s' ((Action.askFault question >>= f) s)
      ((Action.askFault question >>= f) s') := by
  refine ask_bind aside ?_ fun a answer => later a (Except.mapError_eq_ok answer)
  exact congrArg (Except.mapError Failure.fault) same

theorem orFault {target : Path} {copy : Option Path} {x : Action Restoration}
    (h : Alike region due s s' (x s) (x s')) :
    Alike region due s s' (Restoration.orFault target copy x s)
      (Restoration.orFault target copy x s') := by
  unfold Restoration.orFault
  rw [Action.bind_apply, Action.bind_apply, Action.attempt_apply, Action.attempt_apply]
  obtain ⟨result, aside, kept, kept'⟩ := h
  simp only [result]
  rcases (x s).1 with e | r
  · simp only
    rcases e.fault? with _ | f
    · exact ⟨rfl, aside, kept, kept'⟩
    · exact ⟨rfl, aside, kept, kept'⟩
  · exact ⟨rfl, aside, kept, kept'⟩

end Alike

/-- A file is written alike in a directory that is there. -/
theorem SameAside.placeBytes (aside : SameAside region due s s') (leads : s.LeadsToDirectory p.parent)
    (leads' : s'.LeadsToDirectory p.parent) (other : ¬due (s.location p))
    (same : s'.entryAt p = s.entryAt p) (bytes : Bytes) :
    Alike region due s s' (Action.placeBytes p bytes s) (Action.placeBytes p bytes s') := by
  have at_ := location_of_workingDirectory aside.place p
  have here : s'.here = s.here := by rw [Site.here, Site.here, aside.place]
  have mode : s'.modeAt (s.location p) = s.modeAt (s.location p) := by
    rw [entryAt, entryAt, at_] at same
    exact modeAt_congr same
  -- Both sites give the same answers here, so the case of one is the case of the other.
  have cases' := Action.placeBytes_cases leads' aside.sound' bytes
  rw [here, same, at_, mode] at cases'
  rcases Action.placeBytes_cases leads aside.sound bytes with
    ⟨long, run⟩ | ⟨short, open_, s₁, run, beside, sound, kept⟩ |
      ⟨short, leaf, s₁, run, beside, sound, each⟩
  · rcases cases' with ⟨_, run'⟩ | ⟨short', _⟩ | ⟨short', _⟩
    · rw [run, run']
      exact .refl aside _
    · exact absurd long (Nat.not_lt.mpr short')
    · exact absurd long (Nat.not_lt.mpr short')
  · rcases cases' with ⟨long', _⟩ | ⟨_, _, s₁', run', beside', sound', kept'⟩ | ⟨_, leaf', _⟩
    · exact absurd long' (Nat.not_lt.mpr short)
    · rw [run, run']
      exact .of_change aside _ beside beside' sound sound' fun m => .inr ⟨kept m, kept' m⟩
    · exact absurd open_ leaf'
  · rcases cases' with ⟨long', _⟩ | ⟨_, open_', _⟩ | ⟨_, _, s₁', run', beside', sound', each'⟩
    · exact absurd long' (Nat.not_lt.mpr short)
    · exact absurd open_' leaf
    · rw [run, run']
      exact .of_entry aside _ beside beside' sound sound' other each each'

/-! ### Elsewhere -/

section

variable (aside : SameAside region due s s') (visible : s.Visible (fun m => region <+: m) p)
include aside visible

theorem SameAside.not_due_of_visible : ¬due (s.location p) :=
  fun here => visible.location (aside.hidden _ here)

/-- Where a new directory goes. -/
theorem SameAside.withDirectory_cases :
    (∃ f, s.withDirectory p = .error f ∧ s'.withDirectory p = .error f) ∨
      ∃ s₁ s₁', s.withDirectory p = .ok s₁ ∧ s'.withDirectory p = .ok s₁' ∧
        Alike region due s s' ((.ok (), s₁) : Except Failure Unit × Site) (.ok (), s₁') := by
  have slot := visible.slot_eq aside.place aside.outside
  rcases taken : s.slot? p with o | _ | l
  · exact .inl ⟨_, withDirectory_of_stuck taken, withDirectory_of_stuck (slot.trans taken)⟩
  · exact .inl ⟨_, withDirectory_of_nameless taken, withDirectory_of_nameless (slot.trans taken)⟩
  · obtain ⟨rfl, inner, _⟩ := slot_eq_some taken
    have entry := aside.outside _ visible.location
    by_cases free : s.tree.at? (s.location p) = none
    · have made := withDirectory_of_free taken free
      have made' := withDirectory_of_free (slot.trans taken) (entry.trans free)
      refine .inr ⟨_, _, made, made', .of_entry aside _ rfl rfl ?_ ?_
        (aside.not_due_of_visible visible) (at?_insert inner _) (at?_insert inner _)⟩
      · exact (grows_withDirectory made).1.sound aside.sound
      · exact (grows_withDirectory made').1.sound aside.sound'
    · have there : s'.tree.at? (s.location p) ≠ none := fun free' => free (entry.symm.trans free')
      exact .inl ⟨_, withDirectory_of_there taken free, withDirectory_of_there (slot.trans taken) there⟩

theorem SameAside.acceptDirectory (f : Fault) :
    Alike region due s s' (Action.makeDirectories.acceptDirectory p f s)
      (Action.makeDirectories.acceptDirectory p f s') := by
  refine .askFault_bind aside ?_ fun is _ => ?_
  · rw [isDirectory?, isDirectory?, visible.entryOf?_eq aside.place aside.outside]
  · cases is with
    | true => exact .refl aside _
    | false => exact .refl aside _

/-- Where a directory can be made, or is missing above, or is there already, is the same. -/
theorem SameAside.tried {missing : Path → Action Unit}
    (rest : ∀ q, Alike region due s s' (missing q s) (missing q s')) :
    Alike region due s s'
      ((match s.withDirectory p with
        | .ok s₁ => set s₁
        | .error (.notFound q) => missing q
        | .error f => Action.makeDirectories.acceptDirectory p f : Action Unit) s)
      ((match s'.withDirectory p with
        | .ok s₁ => set s₁
        | .error (.notFound q) => missing q
        | .error f => Action.makeDirectories.acceptDirectory p f : Action Unit) s') := by
  rcases aside.withDirectory_cases visible with ⟨f, stuck, stuck'⟩ | ⟨s₁, s₁', made, made', alike⟩
  · rw [stuck, stuck']
    cases f with
    | notFound q => exact rest q
    | _ => exact aside.acceptDirectory visible _
  · rw [made, made']
    exact alike

end

/-- Directories are made alike elsewhere. -/
theorem SameAside.makeDirectories_visible (aside : SameAside region due s s')
    (visible : s.Visible (fun m => region <+: m) p) :
    Alike region due s s' (Action.makeDirectories p s) (Action.makeDirectories p s') := by
  suffices each : ∀ depth p, s.Visible (fun m => region <+: m) p → ∀ s₁ s₁',
      s₁.workingDirectory = s.workingDirectory → SameAside region due s₁ s₁' →
      Alike region due s₁ s₁' (Action.makeDirectories.up depth p s₁)
        (Action.makeDirectories.up depth p s₁') from each _ p visible s s' rfl aside
  intro depth
  -- The directories above change both sites, so the induction is for all sites seen from one directory.
  induction depth with
  | zero =>
    intro p visible s₁ s₁' place aside
    unfold Action.makeDirectories.up
    rw [Action.bind_apply, Action.bind_apply, Action.get_apply, Action.get_apply]
    exact aside.tried (visible.of_place place) fun q => .refl aside _
  | succ depth ih =>
    intro p visible s₁ s₁' place aside
    unfold Action.makeDirectories.up
    rw [Action.bind_apply, Action.bind_apply, Action.get_apply, Action.get_apply]
    refine aside.tried (visible.of_place place) fun q => ?_
    refine .bind (ih p.parent visible.parent s₁ s₁' place aside) fun _ s₂ s₂' run _ aside₂ => ?_
    have made := (Action.makes_up depth p.parent s₁).grows.beside
    rw [run] at made
    have place₂ : s₂.workingDirectory = s.workingDirectory :=
      (congrArg Site.workingDirectory made).trans place
    rw [Action.bind_apply, Action.bind_apply, Action.get_apply, Action.get_apply]
    exact aside₂.tried (visible.of_place place₂) fun q => .refl aside₂ _

/-- Two runs that make the directories above a path go on alike. -/
theorem Alike.underneath {α : Type} {f : Unit → Action α}
    (made : Alike region due s s' (Action.makeDirectories p s) (Action.makeDirectories p s'))
    (later : ∀ s₁ s₁', SameAside region due s₁ s₁' → s₁.LeadsToDirectory p → s₁'.LeadsToDirectory p →
      Site.Grows s s₁ p → Alike region due s₁ s₁' (f () s₁) (f () s₁')) :
    Alike region due s s' ((Action.makeDirectories p >>= f) s)
      ((Action.makeDirectories p >>= f) s') := by
  refine .bind made fun _ s₁ s₁' run run' aside₁ => ?_
  have makes := Action.makes_makeDirectories p s
  have makes' := Action.makes_makeDirectories p s'
  rw [run] at makes
  rw [run'] at makes'
  exact later s₁ s₁' aside₁ (makes.leads rfl) (makes'.leads rfl) makes.grows

section

variable (aside : SameAside region due s s') (visible : s.Visible (fun m => region <+: m) p)
include aside visible

theorem SameAside.writeBytes_visible (bytes : Bytes) :
    Alike region due s s' (Action.writeBytes p bytes s) (Action.writeBytes p bytes s') := by
  rw [Action.writeBytes_eq]
  refine .underneath (aside.makeDirectories_visible visible.parent) fun s₁ s₁' aside₁ leads leads' grows => ?_
  have place : s₁.workingDirectory = s.workingDirectory := by rw [grows.beside]
  have visible₁ := visible.of_place place
  exact aside₁.placeBytes leads leads' (aside₁.not_due_of_visible visible₁)
    (visible₁.entryAt_eq aside₁.place aside₁.outside) bytes

/-- A file is removed alike elsewhere. -/
theorem SameAside.deleteFile_visible :
    Alike region due s s' (Action.deleteFile p s) (Action.deleteFile p s') := by
  have slot := visible.slot_eq aside.place aside.outside
  have refused {f : Fault} (removed : s.withoutFile p = .error f)
      (removed' : s'.withoutFile p = .error f) :
      Alike region due s s' (Action.deleteFile p s) (Action.deleteFile p s') := by
    by_cases missing : ∃ q, f = .notFound q
    · obtain ⟨q, rfl⟩ := missing
      rw [Action.deleteFile_of_missing removed, Action.deleteFile_of_missing removed']
      exact .refl aside _
    · rw [Action.deleteFile_of_refused removed (not_exists.mp missing),
        Action.deleteFile_of_refused removed' (not_exists.mp missing)]
      exact .refl aside _
  -- What the path leads to is seen alike, so one reason refuses both or neither is refused.
  rcases taken : s.slot? p with o | _ | l
  · exact refused (withoutFile_of_stuck taken) (withoutFile_of_stuck (slot.trans taken))
  · exact refused (withoutFile_of_nameless taken) (withoutFile_of_nameless (slot.trans taken))
  · have taken' := slot.trans taken
    obtain ⟨rfl, inner, _⟩ := slot_eq_some taken
    have entry := aside.outside _ visible.location
    rcases there : s.tree.at? (s.location p) with _ | ⟨_ | ⟨bytes, mode⟩⟩
    · exact refused (withoutFile_of_absent taken there)
        (withoutFile_of_absent taken' (entry.trans there))
    · exact refused (withoutFile_of_open taken there) (withoutFile_of_open taken' (entry.trans there))
    · rw [Action.deleteFile_of_ok (withoutFile_of_file taken there),
        Action.deleteFile_of_ok (withoutFile_of_file taken' (entry.trans there))]
      exact .of_entry aside _ rfl rfl (Action.sound_erase_file aside.sound inner there)
        (Action.sound_erase_file aside.sound' inner (entry.trans there)) (aside.not_due_of_visible visible)
        (at?_erase inner) (at?_erase inner)

/-- A file gets the mode alike that another has. -/
theorem SameAside.copyMode_visible (same : s'.read q = s.read q) :
    Alike region due s s' (Action.copyMode q p s) (Action.copyMode q p s') := by
  refine .askFault_bind aside same fun (_, mode) _ => ?_
  simp only [Action.change, withMode, visible.locate_eq aside.place aside.outside]
  rcases way : s.locate p with o | l
  · exact .refl aside _
  · obtain rfl := eq_location_of_locate way
    have entry := aside.outside _ visible.location
    simp only [entry]
    rcases there : s.tree.at? (s.location p) with _ | ⟨_ | ⟨bytes, old⟩⟩
    · exact .refl aside _
    · exact .refl aside _
    · have inner : s.location p ≠ [] := by
        intro outer
        rw [outer] at there
        cases there
      exact .of_entry aside _ rfl rfl ((Touches.of_mode there mode).sound aside.sound)
        ((Touches.of_mode (entry.trans there) mode).sound aside.sound')
        (aside.not_due_of_visible visible) (at?_insert inner _) (at?_insert inner _)

end

/-! ### Empty directories -/

section

variable (aside : SameAside region due s s') (there : s.tree.at? region ≠ none)
variable (there' : s'.tree.at? region ≠ none)
include aside there there'

/-- A directory elsewhere is empty at one of the two sites exactly if it is at the other. -/
theorem SameAside.isEmpty_eq (other : ¬region <+: l) :
    (s'.tree.below l).isEmpty = (s.tree.below l).isEmpty := by
  rw [Bool.eq_iff_iff, Tree.below_isEmpty_iff, Tree.below_isEmpty_iff]
  by_cases above : l <+: region
  · -- The region itself is in it, at both sites.
    have differ : region ≠ l := by
      rintro rfl
      exact other List.prefix_rfl
    have inner : region ≠ [] := by
      rintro rfl
      exact other List.nil_prefix
    rw [Tree.at?_of_ne_nil inner] at there there'
    exact ⟨fun none => absurd (none region above differ) there',
      fun none => absurd (none region above differ) there⟩
  · refine forall_congr' fun m => forall₂_congr fun part differ => ?_
    have inner : m ≠ [] := by
      rintro rfl
      exact differ (List.prefix_nil.mp part).symm
    have beyond : ¬region <+: m := fun inside =>
      (List.prefix_or_prefix_of_prefix inside part).elim other above
    rw [← Tree.at?_of_ne_nil inner, ← Tree.at?_of_ne_nil inner, aside.outside m beyond]

theorem SameAside.withoutDirectory_cases (visible : s.Visible (fun m => region <+: m) p) :
    ((∃ f, s.withoutDirectory p = .error f) ∧ ∃ f, s'.withoutDirectory p = .error f) ∨
      s.withoutDirectory p = .ok (s.erase (s.location p)) ∧
        s'.withoutDirectory p = .ok (s'.erase (s.location p)) := by
  have slot := visible.slot_eq aside.place aside.outside
  unfold withoutDirectory
  rw [slot]
  rcases taken : s.slot? p with o | _ | l
  · exact .inl ⟨⟨_, rfl⟩, _, rfl⟩
  · exact .inl ⟨⟨_, rfl⟩, _, rfl⟩
  · obtain ⟨rfl, _⟩ := slot_eq_some taken
    have entry := aside.outside _ visible.location
    simp only [entry, aside.isEmpty_eq there there' visible.location]
    rcases s.tree.at? (s.location p) with _ | ⟨_ | ⟨bytes, mode⟩⟩
    · exact .inl ⟨⟨_, rfl⟩, _, rfl⟩
    · rcases (s.tree.below (s.location p)).isEmpty
      · exact .inl ⟨⟨_, rfl⟩, _, rfl⟩
      · exact .inr ⟨rfl, rfl⟩
    · exact .inl ⟨⟨_, rfl⟩, _, rfl⟩

end

/-- An empty directory goes alike. -/
theorem SameAside.erase {result : Except Failure Unit} (aside : SameAside region due s s') (other : ¬due l)
    (inner : l ≠ []) (empty : ∀ name, s.tree.at? (l ++ [name]) = none)
    (empty' : ∀ name, s'.tree.at? (l ++ [name]) = none) :
    Alike region due s s' (result, s.erase l) (result, s'.erase l) :=
  .of_entry aside _ rfl rfl (aside.sound.erase inner empty) (aside.sound'.erase inner empty') other
    (at?_erase inner) (at?_erase inner)

/-- Empty directories elsewhere go alike, where the region is there. -/
theorem SameAside.pruneUpTo_visible (aside : SameAside region due s s') (there : s.tree.at? region ≠ none)
    (there' : s'.tree.at? region ≠ none) (visible : s.Visible (fun m => region <+: m) p)
    (stop : Path) :
    Alike region due s s' (Action.pruneUpTo stop p s) (Action.pruneUpTo stop p s') := by
  -- By induction on how deep the directory lies.
  induction size : (s.location p).length using Nat.strong_induction_on generalizing p s s' with
  | h n ih =>
    rw [Action.pruneUpTo_eq, Action.pruneUpTo_eq, resolve_of_workingDirectory aside.place,
      resolve_of_workingDirectory aside.place]
    split
    · rcases aside.withoutDirectory_cases there there' visible with
        ⟨⟨f, stuck⟩, f', stuck'⟩ | ⟨removed, removed'⟩
      · rw [stuck, stuck']
        exact .refl aside _
      · rw [removed, removed']
        obtain ⟨_, inner, _, empty, name, longer⟩ := Action.withoutDirectory_eq_ok removed
        obtain ⟨_, _, _, empty', _⟩ := Action.withoutDirectory_eq_ok removed'
        rw [location_of_workingDirectory aside.place] at empty'
        have gone : Alike region due s s' (.ok (), s.erase (s.location p))
            (.ok (), s'.erase (s.location p)) := by
          refine aside.erase (aside.not_due_of_visible visible) inner (fun _ => ?_) fun _ => ?_
          · exact empty _ (List.prefix_append ..) (by simp)
          · exact empty' _ (List.prefix_append ..) (by simp)
        have other : region ≠ s.location p := fun same => visible.location (same ▸ List.prefix_rfl)
        refine gone.after (ih _ ?_ gone.aside ?_ ?_ (visible.parent.of_place rfl) rfl)
        · change (s.location p.parent).length < n
          rw [← size, longer, List.length_append, List.length_singleton]
          exact Nat.lt_succ_self _
        · rwa [at?_erase inner, if_neg other]
        · rwa [at?_erase inner, if_neg other]
    · exact .refl aside _

/-! ### In the region -/

theorem SameAside.entryAt_eq (aside : SameAside region due s s') (own : Own due (s.location p)) :
    s'.entryAt p = s.entryAt p := by
  rw [entryAt, entryAt, location_of_workingDirectory aside.place]
  exact aside.own own

section

variable (aside : SameAside region due s s') (direct : s.Direct p) (direct' : s'.Direct p)
variable (own : Own due (s.location p))
include aside direct direct' own

theorem SameAside.locate_eq : s'.locate p = s.locate p := by
  have entry := aside.entryAt_eq own
  have blocked := aside.blocked_iff own.above
  have at_ := location_of_workingDirectory aside.place p
  have cases' := direct'.locate_cases aside.sound'
  rw [entry, at_, blocked] at cases'
  rcases direct.locate_cases aside.sound with ⟨there, found⟩ | ⟨gone, free, found⟩ | ⟨gone, stuck, found⟩
  · rcases cases' with ⟨_, found'⟩ | ⟨gone', _⟩ | ⟨gone', _⟩
    · rw [found, found']
    · exact absurd gone' there
    · exact absurd gone' there
  · rcases cases' with ⟨there', _⟩ | ⟨_, _, found'⟩ | ⟨_, stuck', _⟩
    · exact absurd gone there'
    · rw [found, found']
    · exact absurd stuck' free
  · rcases cases' with ⟨there', _⟩ | ⟨_, free', _⟩ | ⟨_, _, found'⟩
    · exact absurd gone there'
    · exact absurd stuck free'
    · rw [found, found']

theorem SameAside.exists_eq : s'.exists? p = s.exists? p := by
  rw [direct.exists? aside.sound, direct'.exists? aside.sound', aside.entryAt_eq own]

theorem SameAside.read_eq : s'.read p = s.read p :=
  read_congr (aside.locate_eq direct direct' own) (aside.own own)

/-- A file is removed alike. -/
theorem SameAside.deleteFile :
    Alike region due s s' (Action.deleteFile p s) (Action.deleteFile p s') := by
  have at_ := location_of_workingDirectory aside.place p
  have entry := aside.entryAt_eq own
  have blocked := aside.blocked_iff own.above
  -- Nine pairs of endings: what stands at the place and what blocks it are the same in both, so
  -- only equal ones go together.
  rcases Action.deleteFile_exact direct aside.sound with
    ⟨leaf, free, s₁, run, beside, sound, each⟩ | ⟨stuck, run⟩ | ⟨open_, run⟩
  all_goals rcases Action.deleteFile_exact direct' aside.sound' with
    ⟨leaf', free', s₁', run', beside', sound', each'⟩ | ⟨stuck', run'⟩ | ⟨open_', run'⟩
  all_goals rw [run, run']
  · rw [at_] at each'
    exact .of_entry aside _ beside beside' sound sound' own.not_due each each'
  · exact absurd (blocked.mp (at_ ▸ stuck')) free
  · exact absurd (entry.symm.trans open_') leaf
  · exact absurd (at_ ▸ blocked.mpr stuck) free'
  · exact .refl aside _
  · have there : s.entryAt p = some .directory := entry.symm.trans open_'
    exact absurd stuck (aside.sound.not_blocked (by rw [← entryAt, there]; simp))
  · exact absurd (entry.trans open_) leaf'
  · have there : s'.entryAt p = some .directory := entry.trans open_
    exact absurd stuck' (aside.sound'.not_blocked (by rw [← entryAt, there]; simp))
  · exact .refl aside _

end

/-- Directories are made alike where nothing that is due is on the way. -/
theorem SameAside.makeDirectories (aside : SameAside region due s s') (direct : s.Direct p)
    (direct' : s'.Direct p) (free : ∀ m, due m → ¬m <+: s.location p) :
    Alike region due s s' (Action.makeDirectories p s) (Action.makeDirectories p s') := by
  have at_ := location_of_workingDirectory aside.place p
  have blocked := aside.blocked_iff free
  have file (bytes : Bytes) (mode : Nat) : s'.entryAt p = some (.file bytes mode) ↔
      s.entryAt p = some (.file bytes mode) := by
    rw [entryAt, entryAt, at_]
    exact aside.files _ (fun here => free _ here List.prefix_rfl) bytes mode
  have clear : Action.Clear s' (s.location p) ↔ Action.Clear s (s.location p) := by
    rw [Action.clear_iff, Action.clear_iff, blocked]
    refine and_congr_right fun _ => forall₂_congr fun bytes mode => not_congr ?_
    exact aside.files _ (fun here => free _ here List.prefix_rfl) bytes mode
  -- Whether directories can be made depends only on files above, and those are the same in both.
  have cases' := Action.makeDirectories_cases direct' aside.sound'
  rw [at_, clear, blocked] at cases'
  have open_of {bytes : Bytes} {mode : Nat} (there : s.entryAt p = some (.file bytes mode)) :
      ¬s.tree.Blocked (s.location p) := by
    refine aside.sound.not_blocked ?_
    rw [← entryAt, there]
    simp
  rcases Action.makeDirectories_cases direct aside.sound with
    ⟨able, s₁, run, fills⟩ | ⟨stuck, run⟩ | ⟨⟨bytes, mode, there⟩, run⟩
  · rcases cases' with ⟨_, s₁', run', fills'⟩ | ⟨stuck', _⟩ | ⟨⟨bytes, mode, there'⟩, _⟩
    · rw [run, run']
      refine .of_change aside _ fills.beside fills'.beside fills.sound fills'.sound fun m => ?_
      by_cases part : m <+: s.location p
      · rw [fills.inside m part, fills'.inside m part]
        exact .inl ⟨fun here => free m here part, rfl⟩
      · exact .inr ⟨fills.outside m part, fills'.outside m part⟩
    · exact absurd stuck' (Action.clear_iff.mp able).1
    · exact absurd ((file bytes mode).mp there') ((Action.clear_iff.mp able).2 bytes mode)
  · rcases cases' with ⟨able', _⟩ | ⟨_, run'⟩ | ⟨⟨bytes, mode, there'⟩, _⟩
    · exact absurd stuck (Action.clear_iff.mp able').1
    · rw [run, run']
      exact .refl aside _
    · exact absurd stuck (open_of ((file bytes mode).mp there'))
  · rcases cases' with ⟨able', _⟩ | ⟨stuck', _⟩ | ⟨_, run'⟩
    · exact absurd there ((Action.clear_iff.mp able').2 bytes mode)
    · exact absurd stuck' (open_of there)
    · rw [run, run']
      exact .refl aside _

/-- A file of the region is written alike. -/
theorem SameAside.writeBytes (aside : SameAside region due s s') (direct : s.Direct p) (direct' : s'.Direct p)
    (own : Own due (s.location p)) (above : s.location p.parent <+: s.location p) (bytes : Bytes) :
    Alike region due s s' (Action.writeBytes p bytes s) (Action.writeBytes p bytes s') := by
  have free (m : Location) (here : due m) : ¬m <+: s.location p.parent :=
    fun part => own.above m here (part.trans above)
  rw [Action.writeBytes_eq]
  refine .underneath (aside.makeDirectories direct.parent direct'.parent free) ?_
  intro s₁ s₁' aside₁ leads leads' grows
  rw [← location_of_beside grows.beside p] at own
  exact aside₁.placeBytes leads leads' own.not_due (aside₁.entryAt_eq own) bytes

/-- The place that a new file takes in a directory that is there. -/
theorem slot_eq_of_leads (place : s'.workingDirectory = s.workingDirectory)
    (leads : s.LeadsToDirectory p.parent) (leads' : s'.LeadsToDirectory p.parent) :
    s'.slot? p = s.slot? p := by
  have same := location_of_workingDirectory place p.parent
  refine slot_congr ?_ ?_
  · rw [leads'.1, leads.1, same]
  · have open_ : s.tree.at? (s.location p.parent) = some .directory := leads.2
    have open_' : s'.tree.at? (s'.location p.parent) = some .directory := leads'.2
    rw [open_, ← same, open_']

/-- A file is copied alike to a directory that is there. -/
theorem SameAside.copyFile (aside : SameAside region due s s') (leads : s.LeadsToDirectory p.parent)
    (leads' : s'.LeadsToDirectory p.parent) (other : ¬due (s.location p))
    (same : s'.entryAt p = s.entryAt p) (read : s'.read q = s.read q) :
    Alike region due s s' (Action.copyFile q p s) (Action.copyFile q p s') := by
  refine .askFault_bind aside read fun (bytes, mode) _ => ?_
  rw [entryAt, entryAt, location_of_workingDirectory aside.place] at same
  simp only [Action.change, withFile, slot_eq_of_leads aside.place leads leads']
  rcases taken : s.slot? p with o | _ | l
  · exact .refl aside _
  · exact .refl aside _
  · have taken' := (slot_eq_of_leads aside.place leads leads').trans taken
    obtain ⟨rfl, inner, parent, _⟩ := slot_eq_some taken
    obtain ⟨_, _, parent', _⟩ := slot_eq_some taken'
    simp only [Tree.isDirectory, same]
    by_cases open_ : s.tree.at? (s.location p) = some .directory
    · simp only [open_, decide_true, if_true]
      exact .refl aside _
    · simp only [open_, decide_false, Bool.false_eq_true, if_false]
      have leaf : s'.tree.at? (s.location p) ≠ some .directory := by rwa [same]
      exact .of_entry aside _ rfl rfl
        ((Touches.of_file inner parent open_ bytes mode).sound aside.sound)
        ((Touches.of_file inner parent' leaf bytes mode).sound aside.sound') other
        (at?_insert inner _) (at?_insert inner _)

/-- A directory that has nothing to do with what is due can be removed at both sites or at none. -/
theorem SameAside.withoutDirectory_ok (aside : SameAside region due s s') {base : Location}
    {rest : List Text} (way : s'.Way p base rest) (inner : rest ≠ [])
    (short : ∀ name ∈ rest, nameSize name ≤ maxNameSize) (own : Own due (s.location p))
    (removed : s.withoutDirectory p = .ok s₁) : ∃ s₁', s'.withoutDirectory p = .ok s₁' := by
  have at_ := location_of_workingDirectory aside.place p
  obtain ⟨_, _, open_, empty, _⟩ := Action.withoutDirectory_eq_ok removed
  refine way.withoutDirectory inner aside.sound' ?_ ?_ fun name => ?_
  · rw [way.location]
    exact .of_short short
  · rw [aside.entryAt_eq own, open_]
  · have part : s.location p <+: s.location p ++ [name] := List.prefix_append ..
    rw [at_, aside.own (own.deeper part)]
    exact empty _ part (by simp)

/-- Pruning from a directory that has nothing to do with what is due removes it at both sites, and goes
on, or at none. -/
theorem SameAside.pruneUpTo_own (aside : SameAside region due s s') {base : Location} {rest : List Text}
    (way : s.Way p base rest) (way' : s'.Way p base rest) (inner : rest ≠ [])
    (short : ∀ name ∈ rest, nameSize name ≤ maxNameSize) (own : Own due (s.location p)) {stop : Path}
    (later : SameAside region due (s.erase (s.location p)) (s'.erase (s.location p)) →
      Alike region due (s.erase (s.location p)) (s'.erase (s.location p))
        (Action.pruneUpTo stop p.parent (s.erase (s.location p)))
        (Action.pruneUpTo stop p.parent (s'.erase (s.location p)))) :
    Alike region due s s' (Action.pruneUpTo stop p s) (Action.pruneUpTo stop p s') := by
  have at_ := location_of_workingDirectory aside.place p
  rw [Action.pruneUpTo_eq, Action.pruneUpTo_eq, resolve_of_workingDirectory aside.place,
    resolve_of_workingDirectory aside.place]
  split
  · -- A directory is empty in both or in neither, since the places below it agree.
    rcases removed : s.withoutDirectory p with f | s₁
    · rcases removed' : s'.withoutDirectory p with f' | s₁'
      · exact .refl aside _
      · obtain ⟨_, removed''⟩ := aside.symm.withoutDirectory_ok way inner short (at_ ▸ own) removed'
        cases removed.symm.trans removed''
    · obtain ⟨s₁', removed'⟩ := aside.withoutDirectory_ok way' inner short own removed
      rw [removed']
      obtain ⟨rfl, deep, _, empty, _⟩ := Action.withoutDirectory_eq_ok removed
      obtain ⟨rfl, _, _, empty', _⟩ := Action.withoutDirectory_eq_ok removed'
      rw [at_] at empty'
      have gone : Alike region due s s' ((.ok (), s.erase (s.location p)) : Except Failure Unit × Site)
          (.ok (), s'.erase (s.location p)) := by
        refine aside.erase own.not_due deep (fun _ => ?_) fun _ => ?_
        · exact empty _ (List.prefix_append ..) (by simp)
        · exact empty' _ (List.prefix_append ..) (by simp)
      rw [at_]
      exact gone.after (later gone.aside)
  · exact .refl aside _

/-- Above what is due, pruning removes no more than directories that hold it. -/
theorem SameAside.of_prunes {result : Except Failure Unit} {top : Location} (aside : SameAside region due s s')
    (prunes : Action.Prunes s s₁ top l) (prunes' : Action.Prunes s' s₁' top l)
    (below : ∀ m, top <+: m → m ≠ top → m <+: l → region <+: m) (on : OnWay due l)
    (free : ∀ m, due m → ¬m <+: l) : Alike region due s s' (result, s₁) (result, s₁') := by
  obtain ⟨k, here, part, -⟩ := on
  refine ⟨rfl, ?_, fun m here => prunes.kept (free m here), fun m here => prunes'.kept (free m here)⟩
  refine aside.update prunes.beside prunes'.beside (prunes.sound aside.sound)
    (prunes'.sound aside.sound') fun m => ?_
  -- A directory that goes at one of the two sites is no file at the other one.
  have changed (inside : top <+: m) (other : m ≠ top) (above : m <+: l)
      (none : ∀ bytes mode, s.tree.at? m ≠ some (.file bytes mode)) :
      (region <+: m ∧ OnWay due m) ∧ (∀ bytes mode, s₁.tree.at? m ≠ some (.file bytes mode)) ∧
        ∀ bytes mode, s₁'.tree.at? m ≠ some (.file bytes mode) := by
    refine ⟨⟨below m inside other above, k, here, above.trans part, ?_⟩, prunes.not_file none,
      prunes'.not_file fun bytes mode file => none bytes mode ?_⟩
    · rintro rfl
      exact free m here above
    · exact (aside.files m (fun here => free m here above) bytes mode).mp file
  rcases prunes.entries m with same | ⟨there, _, inside, other, above⟩
  · rcases prunes'.entries m with same' | ⟨there', _, inside, other, above⟩
    · exact .inr (.inl ⟨same, same'⟩)
    · refine .inr (.inr (changed inside other above fun bytes mode file => ?_))
      cases there'.symm.trans ((aside.files m (fun here => free m here above) bytes mode).mpr file)
  · exact .inr (.inr (changed inside other above (by simp [there])))

/-- Pruning from a directory of the region takes the next step at both sites, or goes no further than
over directories that hold what is due. -/
theorem SameAside.pruneUpTo_step (aside : SameAside region due s s') (straight : upName ∉ s.workingDirectory)
    {stop : Path} (leads : s.LeadsToDirectory stop) (visible : s.Visible (fun m => region <+: m) stop)
    {name : Text} (at_ : region = s.location stop ++ [name]) (more : List Text)
    (forward : upName ∉ name :: more) (short : ∀ n ∈ name :: more, nameSize n ≤ maxNameSize)
    (free : ∀ m, due m → ¬m <+: region ++ more)
    (later : SameAside region due (s.erase (region ++ more)) (s'.erase (region ++ more)) →
      (s.erase (region ++ more)).LeadsToDirectory stop →
      Alike region due (s.erase (region ++ more)) (s'.erase (region ++ more))
        (Action.pruneUpTo stop (⟨stop.anchor, stop.names ++ name :: more⟩ : Path).parent
          (s.erase (region ++ more)))
        (Action.pruneUpTo stop (⟨stop.anchor, stop.names ++ name :: more⟩ : Path).parent
          (s'.erase (region ++ more)))) :
    Alike region due s s' (Action.pruneUpTo stop ⟨stop.anchor, stop.names ++ name :: more⟩ s)
      (Action.pruneUpTo stop ⟨stop.anchor, stop.names ++ name :: more⟩ s') := by
  have leads' := leads.of_visible visible aside.place aside.outside
  have way := leads.way.append forward
  have way' := leads'.way.append forward
  rw [location_of_workingDirectory aside.place] at way'
  have deep : s.location ⟨stop.anchor, stop.names ++ name :: more⟩ = region ++ more := by
    rw [way.location, at_, List.append_assoc]
    rfl
  -- A directory that holds what is due may go at one site only, and so may those above it. One that
  -- has nothing to do with what is due goes at both or at none.
  by_cases on : OnWay due (region ++ more)
  · have prunes := Action.prunes_pruneUpTo straight stop ⟨stop.anchor, stop.names ++ name :: more⟩
    have prunes' := Action.prunes_pruneUpTo (aside.place ▸ straight) stop
      ⟨stop.anchor, stop.names ++ name :: more⟩
    rw [deep] at prunes
    rw [location_of_workingDirectory aside.place, location_of_workingDirectory aside.place, deep]
      at prunes'
    rw [Action.pruneUpTo_apply _ _ s, Action.pruneUpTo_apply _ _ s']
    refine aside.of_prunes prunes prunes' (fun m inside other above => ?_) on free
    obtain ⟨_ | ⟨first, rest⟩, rfl⟩ := inside
    · exact absurd (List.append_nil _) other
    · rw [at_, List.append_assoc, List.prefix_append_right_inj] at above
      obtain ⟨rfl, _⟩ := List.cons_prefix_cons.mp above
      exact ⟨rest, by rw [at_, List.append_assoc]; rfl⟩
  · have own : Own due (region ++ more) := by
      refine ⟨free, fun m here part => ?_⟩
      by_cases same : region ++ more = m
      · exact free m here (same ▸ List.prefix_rfl)
      · exact on ⟨m, here, part, same⟩
    refine aside.pruneUpTo_own way way' (by simp) short (deep ▸ own) ?_
    rw [deep]
    intro aside₁
    refine later aside₁ (leads.of_visible visible rfl fun m other => ?_)
    rw [at?_erase (by simp [at_]), if_neg]
    rintro rfl
    exact other (List.prefix_append ..)

/-- Pruning from a directory of the region goes alike, as far as the directory that holds the region. -/
theorem SameAside.pruneUpTo_region (aside : SameAside region due s s') (straight : upName ∉ s.workingDirectory)
    {stop : Path} (leads : s.LeadsToDirectory stop) (visible : s.Visible (fun m => region <+: m) stop)
    {name : Text} (at_ : region = s.location stop ++ [name]) (more : List Text)
    (forward : upName ∉ name :: more) (short : ∀ n ∈ name :: more, nameSize n ≤ maxNameSize)
    (free : ∀ m, due m → ¬m <+: region ++ more) :
    Alike region due s s' (Action.pruneUpTo stop ⟨stop.anchor, stop.names ++ name :: more⟩ s)
      (Action.pruneUpTo stop ⟨stop.anchor, stop.names ++ name :: more⟩ s') := by
  -- By induction on the names below the region, from the last one up.
  induction more using List.reverseRecOn generalizing s s' with
  | nil =>
    refine aside.pruneUpTo_step straight leads visible at_ [] forward short free fun aside₁ _ => ?_
    have above : (⟨stop.anchor, stop.names ++ [name]⟩ : Path).parent = stop := by
      rw [Path.parent, List.dropLast_concat]
    rw [above, Action.pruneUpTo_self, Action.pruneUpTo_self]
    exact .refl aside₁ _
  | append_singleton more next ih =>
    refine aside.pruneUpTo_step straight leads visible at_ _ forward short free fun aside₁ leads₁ => ?_
    have above : (⟨stop.anchor, stop.names ++ name :: (more ++ [next])⟩ : Path).parent =
        ⟨stop.anchor, stop.names ++ name :: more⟩ := by
      rw [Path.parent, ← List.cons_append, ← List.append_assoc, List.dropLast_concat]
    rw [above]
    refine ih aside₁ straight leads₁ (visible.of_place rfl) at_ ?_ ?_ ?_
    · exact fun up => forward (List.mem_append_left [next] up)
    · exact fun n member => short n (List.mem_append_left [next] member)
    · intro m here part
      refine free m here (part.trans ?_)
      rw [← List.append_assoc]
      exact List.prefix_append ..

end Site

end Layering
