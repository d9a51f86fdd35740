import Layering.Proofs.Hindrances

/-!
# Effects at direct paths

At a direct path each operation does one thing, which is told by what lies at its location and on the way
to it: directories are made or something is in the way, and a file is written or one of few things is wrong.
-/

namespace Layering

namespace Site

variable {s s' s₁ : Site} {p : Path} {l m : Location}

/-- A direct path leads to what is there, to the first name that is missing, or to a file on the way. -/
theorem Direct.locate_cases (direct : s.Direct p) (sound : s.tree.Sound) :
    (s.entryAt p ≠ none ∧ s.locate p = .ok (s.location p)) ∨
    (s.entryAt p = none ∧ ¬s.tree.Blocked (s.location p) ∧ s.locate p = .error .notFound) ∨
    (s.entryAt p = none ∧ s.tree.Blocked (s.location p) ∧ s.locate p = .error .notDirectory) := by
  obtain ⟨base, rest, way, short⟩ := direct
  have found := sound.follow_cases way.directory way.forward short
  rw [← way.location, ← way.locate] at found
  rcases found with there | absent | ⟨blocked, stuck⟩
  · exact .inl there
  · exact .inr (.inl absent)
  · refine .inr (.inr ⟨?_, blocked, stuck⟩)
    by_contra there
    exact sound.not_blocked there blocked

/-- All directories on the way to a location are there, the location among them, and nothing else
happened. -/
structure Fills (s s' : Site) (l : Location) : Prop where
  beside : s' = { s with tree := s'.tree }
  sound : s'.tree.Sound
  inside : ∀ m, m <+: l → s'.tree.at? m = some .directory
  outside : ∀ m, ¬m <+: l → s'.tree.at? m = s.tree.at? m

end Site

namespace Action

open Site

variable {s s' : Site} {p : Path} {l : Location}

/-- No file lies at a location or on the way to it exactly if none is on the way and none there. -/
theorem clear_iff : Clear s l ↔ ¬s.tree.Blocked l ∧ ∀ bytes mode, s.tree.at? l ≠ some (.file bytes mode) := by
  constructor
  · intro clear
    refine ⟨?_, fun bytes mode => clear l bytes mode List.prefix_rfl⟩
    rintro ⟨m, bytes, mode, part, -, file⟩
    exact clear m bytes mode part file
  · rintro ⟨free, leaf⟩ m bytes mode part file
    by_cases here : m = l
    · exact leaf bytes mode (here ▸ file)
    · exact free ⟨m, bytes, mode, part, here, file⟩

/-- What is refused for another reason than something missing is refused at once. -/
theorem makeDirectories_of_fault {f : Fault} (refused : s.withDirectory p = .error f)
    (other : ∀ q, f ≠ .notFound q) (no : s.isDirectory? p = .ok false) :
    makeDirectories p s = (.error (.fault f), s) := by
  have accepted : makeDirectories.acceptDirectory p f s = (.error (.fault f), s) := by
    unfold makeDirectories.acceptDirectory
    rw [bind_apply]
    simp only [askFault, ask_apply, no, Except.mapError]
    rfl
  unfold makeDirectories makeDirectories.up
  rw [bind_apply, get_apply]
  simp only [refused]
  cases f with
  | notFound q => exact absurd rfl (other q)
  | _ => exact accepted

/-- Where no file is on a direct way, its directories are made. -/
theorem makeDirectories_fills (direct : s.Direct p) (sound : s.tree.Sound)
    (clear : Clear s (s.location p)) :
    ∃ s', makeDirectories p s = (.ok (), s') ∧ Fills s s' (s.location p) := by
  have made := makeDirectories_ok direct sound clear
  have makes := makes_makeDirectories p s
  rcases run : makeDirectories p s with ⟨e | ⟨⟩, s'⟩
  · rw [run] at made
    cases made
  rw [run] at makes
  have grows := makes.grows
  have sound' := grows.sound sound
  have open_ := (makes.leads rfl).2
  rw [entryAt, location_of_beside grows.beside] at open_
  -- The places above the path hold directories now, and any other place is as it was.
  refine ⟨s', rfl, grows.beside, sound', fun m part => ?_, fun m other => ?_⟩
  · by_cases here : m = s.location p
    · rw [here, open_]
    · exact sound'.above (by simp [open_]) part here
  · refine (grows.entries m).resolve_right ?_
    rintro ⟨absent, _, k, way⟩
    have at_ := Tree.eq_walk_of_follow way
    obtain ⟨_, _, direct, _⟩ := direct
    exact other (at_ ▸ direct.firm.prefix_of_absent (at_ ▸ absent))

/-- Directories are made on a direct way, unless a file lies on it or at its end. -/
theorem makeDirectories_cases (direct : s.Direct p) (sound : s.tree.Sound) :
    (Clear s (s.location p) ∧ ∃ s', makeDirectories p s = (.ok (), s') ∧
      Fills s s' (s.location p)) ∨
    (s.tree.Blocked (s.location p) ∧
      makeDirectories p s = (.error (.fault (.notDirectory p)), s)) ∨
    ((∃ bytes mode, s.entryAt p = some (.file bytes mode)) ∧
      makeDirectories p s = (.error (.fault (.alreadyExists p)), s)) := by
  have asked := direct.isDirectory? sound
  -- A file on the way, a file in its place, or neither.
  by_cases blocked : s.tree.Blocked (s.location p)
  · refine .inr (.inl ⟨blocked, ?_⟩)
    have absent : s.entryAt p = none := by
      by_contra there
      exact sound.not_blocked there blocked
    refine makeDirectories_of_fault ?_ (by simp) (by rw [asked, absent]; rfl)
    rcases direct.slot_cases sound (by simp [absent]) with ⟨_, stuck⟩ | ⟨free, _⟩ | ⟨free, _⟩
    · exact withDirectory_of_stuck stuck
    · exact absurd blocked free
    · exact absurd blocked free
  by_cases file : ∃ bytes mode, s.entryAt p = some (.file bytes mode)
  · refine .inr (.inr ⟨file, ?_⟩)
    obtain ⟨bytes, mode, file⟩ := file
    refine makeDirectories_of_fault ?_ (by simp) (by rw [asked, file]; rfl)
    rcases direct.slot_cases sound (by simp [file]) with ⟨stuck, _⟩ | ⟨_, absent, _⟩ | ⟨_, taken⟩
    · exact absurd stuck blocked
    · obtain ⟨base, rest, way, _⟩ := direct
      obtain ⟨name, _, _, at_⟩ := way.last (way.inner (by simp [file]))
      have above := sound (s.location p.parent) name (by rw [← at_, ← entryAt, file]; simp)
      cases above.symm.trans absent
    · have there : s.tree.at? (s.location p) = some (.file bytes mode) := file
      exact withDirectory_of_there taken (by simp [there])
  · have clear : Clear s (s.location p) :=
      clear_iff.mpr ⟨blocked, fun bytes mode there => file ⟨bytes, mode, there⟩⟩
    exact .inl ⟨clear, makeDirectories_fills direct sound clear⟩

/-! ### Removing -/

/-- A directory that is found takes its slot, unless the path ends with two points or nowhere. -/
theorem slot_of_leads (leads : s.LeadsToDirectory p) :
    s.slot? p = .ok none ∨ s.slot? p = .ok (some (s.location p)) := by
  have open_ : s.tree.at? (s.location p) = some .directory := leads.2
  -- A path of no name is a start; otherwise the last name says whether it leads up.
  rcases List.eq_nil_or_concat p.names with none | ⟨before, name, names⟩
  · rw [location, none] at open_
    have open_ : s.tree.at? (s.start p) = some .directory := open_
    left
    unfold slot?
    rw [none]
    simp [bind, Except.bind, Tree.follow, Tree.isDirectory, open_]
  · rw [List.concat_eq_append] at names
    have way := leads.1
    rw [locate, names, Tree.follow_append] at way
    cases first : s.tree.follow (s.start p) before with
    | error o =>
      rw [first] at way
      cases way
    | ok l =>
      rw [first] at way
      have above := Tree.directory_of_follow way (by simp)
      unfold slot?
      rw [names, List.dropLast_concat, first, List.getLast?_concat]
      simp only [bind, Except.bind, Tree.isDirectory_iff.mpr above]
      by_cases up : name = upName
      · left
        simp [up]
      · right
        have fits := Tree.short_of_follow way name List.mem_cons_self
        have at_ : s.location p = l ++ [name] := by
          rw [Tree.eq_walk_of_follow way, Location.walk_eq_append (by simpa using Ne.symm up)]
        simp [up, Nat.not_lt.mpr fits, at_]

theorem withoutFile_of_directory (leads : s.LeadsToDirectory p) :
    s.withoutFile p = .error (.isDirectory p) := by
  rcases slot_of_leads leads with nameless | taken
  · exact withoutFile_of_nameless nameless
  · exact withoutFile_of_open taken leads.2

/-- A file at a direct path is removed, or a file on the way or a directory in its place is in the way. -/
theorem deleteFile_exact (direct : s.Direct p) (sound : s.tree.Sound) :
    (s.entryAt p ≠ some .directory ∧ ¬s.tree.Blocked (s.location p) ∧
      ∃ s', deleteFile p s = (.ok (), s') ∧ s' = { s with tree := s'.tree } ∧ s'.tree.Sound ∧
        ∀ m, s'.tree.at? m = if m = s.location p then none else s.tree.at? m) ∨
    (s.tree.Blocked (s.location p) ∧ deleteFile p s = (.error (.fault (.notDirectory p)), s)) ∨
    (s.entryAt p = some .directory ∧ deleteFile p s = (.error (.fault (.isDirectory p)), s)) := by
  by_cases open_ : s.entryAt p = some .directory
  · refine .inr (.inr ⟨open_, deleteFile_of_refused (withoutFile_of_directory ?_) (by simp)⟩)
    exact ⟨direct.locate sound (by simp [open_]), open_⟩
  -- Blocked, absent and present: in the last two the deletion goes through and does the same.
  rcases direct.slot_cases sound open_ with ⟨blocked, stuck⟩ | ⟨free, _⟩ | ⟨free, _⟩
  · exact .inr (.inl ⟨blocked, deleteFile_of_refused (withoutFile_of_stuck stuck) nofun⟩)
  all_goals
    have done := (deleteFile_ok_iff direct sound).mpr ⟨open_, free⟩
    rcases deleteFile_clears p s with ⟨s', run, clears⟩ | ⟨f, run⟩
    · obtain ⟨_, _, way, _⟩ := direct
      refine .inl ⟨open_, free, s', run, clears.touches.beside, clears.touches.sound sound, fun m => ?_⟩
      split
      next here => rw [here, clears.entryAt sound way.firm]
      next other => exact clears.other other
    · rw [run] at done
      cases done

/-! ### Writing -/

/-- Writes a file beside its place and moves it there, once the directories above it were made. -/
def placeBytes (p : Path) (bytes : Bytes) : Action Unit := do
  let directory := p.parent.absolute (← get).here
  if nameSize (Fault.temporaryName p.name) > maxNameSize then
    refuse (.temporaryTooLong directory p.name)
  else match freeLocation? (← get) directory.names p.name with
  | none => refuse .noFreeName
  | some temporary =>
    modify fun s => s.insert temporary (.file bytes newFileMode)
    match ← attempt (replace temporary directory p) with
    | .ok () => pure ()
    | .error e =>
      modify fun s => s.erase temporary
      throw e

theorem writeBytes_eq (p : Path) (bytes : Bytes) :
    writeBytes p bytes = makeDirectories p.parent >>= fun _ => placeBytes p bytes := rfl

theorem location_last {name : Text} (last : p.names.getLast? = some name) :
    s.location p = Location.walk (s.location p.parent) [name] := by
  rw [location, ← List.dropLast_append_getLast? name last, Location.walk_append]
  rfl

/-- A name is shorter than the one under which the file is first written. -/
theorem fits_of_temporary (short : nameSize (Fault.temporaryName p.name) ≤ maxNameSize) {name : Text}
    (last : p.names.getLast? = some name) : nameSize name ≤ maxNameSize := by
  have parts : Fault.temporaryName p.name = ".".toList ++ p.name ++ ".XXXXXXXX.tmp".toList := rfl
  rw [parts, nameSize_append, nameSize_append, Path.name, last, Option.getD_some] at short
  omega

/-- A path that does not end with a name of its own has no slot, and leads to the directory above or to the
one that it is seen from. -/
theorem nameless (leads : s.LeadsToDirectory p.parent)
    (ends : p.names.getLast? = none ∨ p.names.getLast? = some upName) :
    s.locate p = .ok (s.location p) ∧ s.slot? p = .ok none ∧
      (s.tree.Sound → s.entryAt p = some .directory) := by
  obtain ⟨found, open_⟩ := leads
  have found : s.tree.follow (s.start p) p.names.dropLast = .ok (s.location p.parent) := found
  have open_ : s.tree.at? (s.location p.parent) = some .directory := open_
  have slot : s.slot? p = .ok none := by
    unfold slot?
    rw [found]
    simp only [bind, Except.bind, Tree.isDirectory_iff.mpr open_]
    rcases ends with none | up
    · rw [none]
      rfl
    · rw [up]
      rfl
  rcases ends with none | up
  · have empty := List.getLast?_eq_none_iff.mp none
    have same : p.parent = p := by
      obtain ⟨anchor, names⟩ := p
      cases empty
      rfl
    rw [same] at found open_
    rw [empty, List.dropLast_nil, ← empty] at found
    exact ⟨found, slot, fun _ => open_⟩
  -- The last step leads back up, so the place is the one above the parent.
  · have at_ : s.location p = (s.location p.parent).dropLast := location_last up
    refine ⟨?_, slot, fun sound => ?_⟩
    · rw [locate, ← List.dropLast_append_getLast? upName up, Tree.follow_append, found, at_]
      simp [Except.bind, Tree.follow, Tree.isDirectory_iff.mpr open_]
    · rw [entryAt, at_]
      rcases List.eq_nil_or_concat (s.location p.parent) with top | ⟨before, name, lower⟩
      · rw [top]
        rfl
      · rw [lower, List.concat_eq_append] at open_
        rw [lower, List.concat_eq_append, List.dropLast_concat]
        exact sound before name (by simp [open_])

/-- A path in a directory that ends with a name of its own has the slot of that name. -/
theorem slot_of_named (leads : s.LeadsToDirectory p.parent)
    (fits : ∀ name, p.names.getLast? = some name → name ≠ upName → nameSize name ≤ maxNameSize)
    (ends : ¬(p.names.getLast? = none ∨ p.names.getLast? = some upName)) :
    s.slot? p = .ok (some (s.location p)) := by
  rw [not_or] at ends
  obtain ⟨name, last⟩ := Option.ne_none_iff_exists'.mp ends.1
  have other : name ≠ upName := fun same => ends.2 (same ▸ last)
  have step : Location.walk (s.location p.parent) [name] = s.location p.parent ++ [name] :=
    Location.walk_eq_append (by simpa using Ne.symm other) _
  rw [slot_of_parent leads.1 leads.2 last other, if_neg (Nat.not_lt.mpr (fits name last other)),
    location_last last, step]

/-- What is wrong with a path that a new file cannot be moved to because a directory is there. -/
def occupied (directory p : Path) : Fault :=
  if p.names.getLast? = none ∨ p.names.getLast? = some upName then .busy directory p.name p
  else .cannotReplace directory p.name p

/-- New contents cannot be moved to where a directory is. -/
theorem replace_occupied {temporary : Location} {bytes : Bytes} {fresh : Nat} (directory p : Path)
    (written : s.tree.at? temporary = some (.file bytes fresh))
    (leads : s.LeadsToDirectory p.parent)
    (fits : ∀ name, p.names.getLast? = some name → name ≠ upName → nameSize name ≤ maxNameSize)
    (open_ : s.entryAt p = some .directory) :
    replace temporary directory p s = (.error (.fault (occupied directory p)), s) := by
  unfold replace change occupied
  simp only [bind, Except.bind]
  by_cases ends : p.names.getLast? = none ∨ p.names.getLast? = some upName
  · obtain ⟨found, slot, _⟩ := nameless leads ends
    rw [entryOf?_of_locate found, slot, if_pos ends]
  · have taken := slot_of_named leads fits ends
    have there : s.tree.at? (s.location p) = some .directory := open_
    rw [if_neg ends]
    simp only [entry_of_slot taken, taken, written, there]

/-- New contents stand beside their place until they are moved there, or are gone again. -/
theorem placeBytes_beside (p : Path) (bytes : Bytes) (s : Site)
    (short : nameSize (Fault.temporaryName p.name) ≤ maxNameSize) :
    ∃ temporary, s.tree.at? temporary = none ∧ temporary ≠ [] ∧ placeBytes p bytes s =
      match replace temporary (p.parent.absolute s.here) p
          (s.insert temporary (.file bytes newFileMode)) with
      | (.ok (), t) => (.ok (), t)
      | (.error e, t) => (.error e, t.erase temporary) := by
  obtain ⟨temporary, found⟩ := Option.isSome_iff_exists.mp
    (freeLocation_isSome s (p.parent.absolute s.here).names p.name)
  obtain ⟨unused, deep⟩ := freeLocation_eq_some found
  refine ⟨temporary, unused, deep, ?_⟩
  unfold placeBytes
  rw [bind_apply, get_apply]
  simp only
  rw [if_neg (Nat.not_lt.mpr short), bind_apply, get_apply]
  simp only [found]
  rw [bind_apply, modify_apply]
  simp only
  rw [bind_apply, attempt_apply]
  -- The temporary file is taken away again only where the replacement is refused.
  rcases replace temporary (p.parent.absolute s.here) p (s.insert temporary (.file bytes newFileMode))
    with ⟨e | ⟨⟩, t⟩ <;> rfl

section

variable {temporary : Location} (unused : s.tree.at? temporary = none) (deep : temporary ≠ [])
include unused deep

theorem opens_insert (entry : Entry) : s.tree.Opens (s.insert temporary entry).tree := by
  intro m open_
  rw [at?_insert deep, if_neg, open_]
  rintro rfl
  cases unused.symm.trans open_

/-- What goes again from where nothing was leaves no trace. -/
theorem at?_withdrawn (entry : Entry) (m : Location) :
    ((s.insert temporary entry).erase temporary).tree.at? m = s.tree.at? m := by
  rw [at?_erase deep, at?_insert deep]
  split
  next here => rw [here, unused]
  next => rfl

/-- New contents that stand beside their place are moved there, unless a directory is in it. -/
theorem replace_moves (leads : s.LeadsToDirectory p.parent) (sound : s.tree.Sound) (bytes : Bytes)
    (directory : Path) (short : nameSize (Fault.temporaryName p.name) ≤ maxNameSize)
    (leaf : s.entryAt p ≠ some .directory) :
    ∃ t, replace temporary directory p (s.insert temporary (.file bytes newFileMode)) = (.ok (), t) ∧
      t = { s with tree := t.tree } ∧ t.tree.Sound ∧ ∀ m, t.tree.at? m =
        if m = s.location p then some (.file bytes (s.modeAt (s.location p))) else s.tree.at? m := by
  have written : (s.insert temporary (.file bytes newFileMode)).tree.at? temporary =
      some (.file bytes newFileMode) := by rw [at?_insert deep, if_pos rfl]
  have taken : s.slot? p = .ok (some (s.location p)) := by
    refine slot_of_named leads (fun name last _ => fits_of_temporary short last) fun ends => ?_
    exact leaf ((nameless leads ends).2.2 sound)
  have taken' : (s.insert temporary (.file bytes newFileMode)).slot? p =
      .ok (some (s.location p)) := slot_of_opens (opens_insert unused deep _) rfl taken
  obtain ⟨_, inner, _⟩ := slot_eq_some taken
  rcases replace_cases temporary directory p _ written with ⟨l, mode, taken'', before, moved⟩ | ⟨f, stuck⟩
  · cases taken'.symm.trans taken''
    have writes := writes_of_moved (.refl s p.parent) short unused deep taken' before
    rw [moved]
    -- The temporary file was at no place that was taken, so beside the target all is as before.
    refine ⟨_, rfl, writes.beside, writes.sound sound, fun m => ?_⟩
    split
    next here => rw [here, writes.written]
    next away =>
      rw [at?_insert inner, if_neg away]
      exact at?_withdrawn unused deep _ m
  · have leaf' : (s.insert temporary (.file bytes newFileMode)).tree.at? (s.location p) ≠
        some .directory := by
      rw [at?_insert deep]
      split
      · simp
      · exact leaf
    have moved := replace_ok directory p written taken' leaf'
    rw [stuck] at moved
    cases moved

end

/-- A file is written in a directory that is there, unless its name is too long to be written beside it
first or a directory is in its place. -/
theorem placeBytes_cases (leads : s.LeadsToDirectory p.parent) (sound : s.tree.Sound)
    (bytes : Bytes) :
    (maxNameSize < nameSize (Fault.temporaryName p.name) ∧ placeBytes p bytes s =
      (.error (.fault (.temporaryTooLong (p.parent.absolute s.here) p.name)), s)) ∨
    (nameSize (Fault.temporaryName p.name) ≤ maxNameSize ∧ s.entryAt p = some .directory ∧
      ∃ s', placeBytes p bytes s =
          (.error (.fault (occupied (p.parent.absolute s.here) p)), s') ∧
        s' = { s with tree := s'.tree } ∧ s'.tree.Sound ∧ ∀ m, s'.tree.at? m = s.tree.at? m) ∨
    (nameSize (Fault.temporaryName p.name) ≤ maxNameSize ∧ s.entryAt p ≠ some .directory ∧
      ∃ s', placeBytes p bytes s = (.ok (), s') ∧ s' = { s with tree := s'.tree } ∧
        s'.tree.Sound ∧ ∀ m, s'.tree.at? m =
          if m = s.location p then some (.file bytes (s.modeAt (s.location p)))
          else s.tree.at? m) := by
  -- The name of the temporary file is the longer one; where it fits, so does that of the file.
  rcases Nat.lt_or_ge maxNameSize (nameSize (Fault.temporaryName p.name)) with long | short
  · refine .inl ⟨long, ?_⟩
    unfold placeBytes
    rw [bind_apply, get_apply]
    simp only
    rw [if_pos long]
    rfl
  right
  obtain ⟨temporary, unused, deep, placed⟩ := placeBytes_beside p bytes s short
  by_cases open_ : s.entryAt p = some .directory
  · have written : (s.insert temporary (.file bytes newFileMode)).tree.at? temporary =
        some (.file bytes newFileMode) := by rw [at?_insert deep, if_pos rfl]
    have opens := opens_insert unused deep (.file bytes newFileMode)
    have traceless := at?_withdrawn unused deep (.file bytes newFileMode)
    rw [replace_occupied _ p written (leads.of_opens opens rfl)
      (fun name last _ => fits_of_temporary short last) (opens _ open_)] at placed
    refine .inl ⟨short, open_, _, placed, rfl, fun m name => ?_, traceless⟩
    rw [traceless, traceless]
    exact sound m name
  · obtain ⟨t, moved, beside, sound', each⟩ :=
      replace_moves unused deep leads sound bytes (p.parent.absolute s.here) short open_
    rw [moved] at placed
    exact .inr ⟨short, open_, t, placed, beside, sound', each⟩

/-- A file is written, unless a directory or a file is in the way, or its name is too long to be
written beside it first. -/
theorem writeBytes_ok_iff (direct : s.Direct p) (sound : s.tree.Sound) (bytes : Bytes) :
    (writeBytes p bytes s).1 = .ok () ↔ s.entryAt p ≠ some .directory ∧
      ¬s.tree.Blocked (s.location p) ∧ nameSize (Fault.temporaryName p.name) ≤ maxNameSize := by
  constructor
  · intro done
    rcases writeBytes_cases p bytes s with ⟨s', _, writes⟩ | ⟨f, s', run, _⟩
    · refine ⟨writes.free, ?_, writes.short _ List.mem_cons_self⟩
      -- Writing changes no other file, and a file has no directory below it.
      rintro ⟨m, old, mode, part, other, file⟩
      have kept : s'.tree.at? m = some (.file old mode) := by
        rcases writes.others m other with same | ⟨absent, _⟩
        · rw [same, file]
        · cases absent.symm.trans file
      have open_ := (writes.sound sound).above (by simp [writes.written]) part other
      cases open_.symm.trans kept
    · rw [run] at done
      cases done
  · rintro ⟨leaf, free, short⟩
    have above := direct.parent
    obtain ⟨base, rest, way, _⟩ := direct
    obtain ⟨name, _, _, at_⟩ := way.last (way.inner leaf)
    have clear : Clear s (s.location p.parent) := by
      intro m old mode part file
      refine free ⟨m, old, mode, part.trans (at_ ▸ List.prefix_append ..), ?_, file⟩
      rintro rfl
      simpa [at_] using part.length_le
    have made := makeDirectories_ok above sound clear
    obtain ⟨grows, _, leads⟩ := makes_makeDirectories p.parent s
    rw [writeBytes_eq, bind_apply]
    rcases run : makeDirectories p.parent s with ⟨e | ⟨⟩, s₁⟩
    · rw [run] at made
      cases made
    rw [run] at grows leads
    have leaf₁ : s₁.entryAt p ≠ some .directory := by
      rw [entryAt, location_of_beside grows.beside, at?_of_grows_above way grows]
      exact leaf
    rcases placeBytes_cases (leads rfl) (grows.sound sound) bytes with
      ⟨long, _⟩ | ⟨_, open_, _⟩ | ⟨_, _, s₂, placed, _⟩
    · exact absurd short (Nat.not_le_of_lt long)
    · exact absurd open_ leaf₁
    · simp only [placed]

end Action

end Layering
