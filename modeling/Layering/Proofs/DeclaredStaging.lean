import Layering.Proofs.Targets

/-!
# Staging declared files

No copy or marker of a file that a bundled fixer declares is in the way of another one, once all of
them are staged.
-/

namespace Layering

namespace Staged

open Site

variable {before s : Site} {project : Path} {files : List Path}

/-- No copy and no marker is a source. -/
theorem not_source {ending : Text} (ends : Ending ending) (name : Text) :
    sourceEnding.isSuffixOf (name ++ ending) = false := by
  rw [Bool.eq_false_iff, Ne, List.isSuffixOf_iff_suffix]
  rintro ⟨stem, same⟩
  have letters := congrArg List.getLast? same
  cases ends <;> simp [sourceEnding] at letters

/-- A snapshot of a clean project hides what it leaves. -/
theorem Clean.hides (clean : Clean before project)
    (suits : ∀ target ∈ files, Suits before project target) {handle : SnapshotHandle}
    (taken : backup standardDirectory files project before = (.ok handle, s)) :
    Hides (fun m => outer before project <+: m) before s := by
  obtain ⟨pending, _⟩ := clean.records_backup suits taken
  refine ⟨pending.place, fun m => clean.agree pending fun _ => Spots.hidden,
    fun m => clean.absent, fun m inside => ?_, fun m inside bytes mode file => ?_⟩
  · rcases List.prefix_concat_iff.mp inside with same | above
    · have other : ".remediation".toList = descriptorName := by
        simpa [outer] using (List.append_inj' same rfl).2
      exact absurd other (by decide)
    · exact above
  · obtain ⟨target, _, ending, ends, rfl⟩ :=
      pending.tree.files m bytes mode (clean.absent inside) file
    rw [stagedLocation, suffixed, ← List.append_assoc, List.getLast?_concat]
    exact not_source ends _

theorem Suits.suffixed_location {target : Path} (suits : Suits before project target)
    (ending : Text) : suffixed ending (before.location target) =
      before.location project ++ suffixed ending (placeOf before project target) := by
  obtain ⟨inner, spec⟩ := suits.place_spec
  rw [spec, suffixed_append inner]

/-- What is staged lies apart where no location with an ending is on the way to another file. -/
theorem separate_of_locations (suits : ∀ target ∈ files, Suits before project target)
    (apart : ∀ target ∈ files, ∀ target' ∈ files, ∀ ending, Ending ending →
      ¬suffixed ending (before.location target) <+: before.location target') :
    Separate before project files := by
  rintro _ _ ⟨target, member, ending, ends, rfl⟩ ⟨target', member', ending', ends', rfl⟩ part
  unfold stagedLocation at part ⊢
  rw [List.prefix_append_right_inj] at part
  rw [List.append_cancel_left_eq]
  rcases List.prefix_concat_iff.mp part with same | above
  · exact same
  · refine absurd ?_ (apart target member target' member' ending ends)
    rw [(suits target member).suffixed_location, (suits target' member').place_spec.2,
      List.prefix_append_right_inj]
    exact above.trans (List.dropLast_prefix _)

/-- No name with an ending is a name on the way to another file. -/
def Apart (places : List (List Text)) : Prop :=
  ∀ place ∈ places, ∀ place' ∈ places, ∀ ending, Ending ending → ¬suffixed ending place <+: place'

theorem separate_of_apart (suits : ∀ target ∈ files, Suits before project target)
    (front : Location) {places : List (List Text)} (apart : Apart places)
    (at_ : ∀ target ∈ files, ∃ place ∈ places, place ≠ [] ∧
      before.location target = front ++ place) : Separate before project files := by
  refine separate_of_locations suits fun target member target' member' ending ends part => ?_
  obtain ⟨place, listed, inner, here⟩ := at_ target member
  obtain ⟨place', listed', _, here'⟩ := at_ target' member'
  refine apart place listed place' listed' ending ends ?_
  rwa [here, here', suffixed_append inner, List.prefix_append_right_inj] at part

theorem not_suffixed_prefix {ending : Text} (ends : Ending ending) {place : List Text}
    (inner : place ≠ []) : ¬suffixed ending place <+: place := by
  intro part
  have same := part.eq_of_length (length_suffixed ending inner)
  have longer := congrArg (fun names => (names.getLast?.getD []).length) same
  simp [suffixed] at longer
  cases ends <;> cases longer

/-- No descriptor with an ending has the name of a module or of its directory of sources. -/
theorem descriptor_ne {ending : Text} (ends : Ending ending) (m : Scaffolding.NewModule) :
    descriptorName ++ ending ≠ m.name ∧ descriptorName ++ ending ≠ ['s', 'r', 'c'] := by
  have dash : '-' ∈ m.name := List.mem_append_right _ List.mem_cons_self
  cases ends with
  | copy => exact ⟨fun named => absurd (named ▸ dash) (by decide), by decide⟩
  | marker => exact ⟨fun named => absurd (named ▸ dash) (by decide), by decide⟩

/-- The names of a new module are apart: no name with an ending is that of the module, and the name
after it tells the descriptor from the source. -/
theorem apart_newModule (m : Scaffolding.NewModule) :
    Apart [[m.name, descriptorName], m.name :: m.sourceNames, [descriptorName]] := by
  obtain ⟨next, more, source⟩ : ∃ next more, m.sourceNames = ['s', 'r', 'c'] :: next :: more :=
    ⟨_, _, rfl⟩
  intro place listed place' listed' ending ends
  simp only [List.mem_cons, List.not_mem_nil, or_false] at listed listed'
  rcases listed with rfl | rfl | rfl <;> rcases listed' with rfl | rfl | rfl
  case inl.inl | inr.inl.inr.inl | inr.inr.inr.inr => exact not_suffixed_prefix ends (by simp)
  case inl.inr.inl => simp [suffixed, source, (descriptor_ne ends m).2]
  case inl.inr.inr => simp [suffixed]
  case inr.inl.inl => simp [suffixed, source, descriptorName]
  case inr.inl.inr.inr => simp [suffixed, source]
  case inr.inr.inl => simp [suffixed, (descriptor_ne ends m).1]
  case inr.inr.inr.inl => simp [suffixed, (descriptor_ne ends m).1]

theorem apart_wrapper : Apart (Wrapper.files.map fun file => (Path.ofText file).names) := by
  have copies : ∀ place ∈ Wrapper.files.map fun file => (Path.ofText file).names,
      ∀ place' ∈ Wrapper.files.map fun file => (Path.ofText file).names,
        ¬suffixed ".bak" place <+: place' ∧ ¬suffixed ".absent" place <+: place' := by
    decide
  intro place listed place' listed' ending ends
  cases ends with
  | copy => exact (copies place listed place' listed').1
  | marker => exact (copies place listed place' listed').2

/-- When two files are staged one after the other, the later one was not in the way of what is staged
of the earlier one. -/
theorem Clean.not_prefix_of_backup (clean : Clean before project) {first second : Path}
    {rest : List Path} {handle : SnapshotHandle}
    (suits : ∀ target ∈ first :: second :: rest, Suits before project target)
    (taken : backup standardDirectory (first :: second :: rest) project before = (.ok handle, s))
    {ending : Text} (ends : Ending ending) :
    ¬suffixed ending (before.location second) <+: (before.location first).dropLast := by
  intro part
  obtain ⟨absent, run⟩ := stageAll_of_backup taken
  obtain ⟨_, s₁, staged, run⟩ := Action.bind_eq_ok run
  obtain ⟨_, _, run, _⟩ := Action.bind_eq_ok run
  obtain ⟨_, s₂, staged', _⟩ := Action.bind_eq_ok run
  have spot {target : Path} (member : target ∈ first :: second :: rest) (ending : Text)
      (ends : Ending ending) : Spots before project (first :: second :: rest)
        (stagedLocation before project ending target) := ⟨target, member, ending, ends, rfl⟩
  have suit := suits first (by simp)
  have suit' := suits second (by simp)
  have start := Pending.refl clean.sound (Spots before project (first :: second :: rest))
  obtain ⟨ending', ends', there⟩ :=
    clean.there_of_stage suit start (fun _ => Spots.hidden) (spot (by simp)) staged
  obtain ⟨pending, _⟩ :=
    clean.records_stage suit start (fun _ => Spots.hidden) (spot (by simp)) staged
  -- In the staging directory the later file is above the earlier one as well, and is a shorter way.
  obtain ⟨inner, spec⟩ := suit.place_spec
  obtain ⟨inner', _⟩ := suit'.place_spec
  rw [suit'.suffixed_location, spec, List.dropLast_append_of_ne_nil inner,
    List.prefix_append_right_inj] at part
  have shorter := part.length_le
  rw [length_suffixed ending inner', List.length_dropLast] at shorter
  have long := List.length_pos_iff.mpr inner
  refine clean.not_prefix_of_stage suit' pending (fun _ => Spots.hidden) (spot (by simp)) staged'
    there ?_ ends ?_
  · intro ending'' _ same
    have size := congrArg List.length (List.append_cancel_left same)
    rw [length_suffixed _ inner, length_suffixed _ inner'] at size
    omega
  · unfold stagedLocation
    rw [List.prefix_append_right_inj]
    exact part.trans (List.prefix_append ..)

/-- The package of a new module may be a place of its own in the file system. What is staged of its
source then is in no one's way: the directories have no point in their names, and the descriptor is
staged before it. -/
theorem apart_elsewhere {l front : Location} {name : Text}
    (other : ∀ ending, Ending ending → descriptorName ++ ending ≠ name)
    (single : ∀ name ∈ l, '.' ∉ name) (staged : ∀ ending, Ending ending →
      ¬suffixed ending (l ++ [packageInfoName]) <+: front ++ [name]) :
    Apart [front ++ [name, descriptorName], l ++ [packageInfoName], front ++ [descriptorName]] := by
  have last (front : List Text) (name ending : Text) :
      suffixed ending (front ++ [name]) = front ++ [name ++ ending] := by simp [suffixed]
  have split : front ++ [name, descriptorName] = front ++ [name] ++ [descriptorName] := by simp
  -- The two names differ in their first letters, whatever is put behind them.
  have different (ending ending' : Text) : descriptorName ++ ending ≠ packageInfoName ++ ending' := by
    intro same
    have letters := congrArg (List.take 2) same
    rw [List.take_append_of_le_length (by decide), List.take_append_of_le_length (by decide)] at letters
    exact absurd letters (by decide)
  have beside (front : List Text) (ending : Text) :
      ¬front ++ [descriptorName ++ ending] <+: l ++ [packageInfoName] := by
    intro part
    rcases List.prefix_concat_iff.mp part with same | above
    · have letters := List.singleton_inj.mp (List.append_inj' same rfl).2
      exact different ending [] (letters.trans (List.append_nil _).symm)
    · refine single _ (above.subset (List.mem_append_right _ List.mem_cons_self)) ?_
      exact List.mem_append_left _ (by decide)
  have unstaged {ending : Text} (ends : Ending ending) {place : List Text}
      (part : place <+: front ++ [name]) :
      ¬l ++ [packageInfoName ++ ending] <+: place ++ [descriptorName] := by
    intro part'
    rcases List.prefix_concat_iff.mp part' with same | above
    · have letters := List.singleton_inj.mp (List.append_inj' same rfl).2
      exact different [] ending ((List.append_nil _).trans letters.symm)
    · exact staged ending ends (last l packageInfoName ending ▸ above.trans part)
  intro place listed place' listed' ending ends
  simp only [List.mem_cons, List.not_mem_nil, or_false] at listed listed'
  rcases listed with rfl | rfl | rfl <;> rcases listed' with rfl | rfl | rfl
  case inl.inl | inr.inl.inr.inl | inr.inr.inr.inr => exact not_suffixed_prefix ends (by simp)
  case inl.inr.inl =>
    rw [split, last]
    exact beside _ ending
  case inl.inr.inr =>
    intro part
    have size := part.length_le
    simp [suffixed] at size
  case inr.inl.inl =>
    rw [split, last]
    exact unstaged ends List.prefix_rfl
  case inr.inl.inr.inr =>
    rw [last]
    exact unstaged ends (List.prefix_append ..)
  case inr.inr.inl =>
    rw [last, List.prefix_append_right_inj]
    simp [other ending ends]
  case inr.inr.inr.inl =>
    rw [last]
    exact beside _ ending

section

variable {m : Scaffolding.NewModule} {base : Location} {rest : List Text}
variable (way : before.Way m.root base rest)
include way

theorem location_below {more : List Text} (forward : upName ∉ more) :
    before.location ⟨m.root.anchor, m.root.names ++ m.name :: more⟩ = base ++ rest ++ m.name :: more := by
  rw [(Scaffolding.NewModule.way_name way forward).location, List.append_assoc]

theorem location_descriptor :
    before.location m.descriptor = base ++ rest ++ [m.name, descriptorName] := by
  rw [m.descriptor_eq, location_below way (by decide)]

theorem location_parent : before.location m.parent = base ++ rest ++ [descriptorName] := by
  have way : before.Way m.parent base (rest ++ [descriptorName]) := way.append (by decide)
  rw [way.location, List.append_assoc]

variable (suits : ∀ target ∈ [m.descriptor, m.packageInfo, m.parent], Suits before project target)
include suits

/-- What is staged of a new module lies apart where its package lies in it. -/
theorem separate_newModule (relative : (Scaffolding.NewModule.packagePath m.package).isAbsolute = false) :
    Separate before project [m.descriptor, m.packageInfo, m.parent] := by
  refine separate_of_apart suits (base ++ rest) (apart_newModule m) ?_
  intro target member
  simp only [List.mem_cons, List.not_mem_nil, or_false] at member
  rcases member with rfl | rfl | rfl
  · exact ⟨[m.name, descriptorName], by simp, by simp, location_descriptor way⟩
  · refine ⟨m.name :: m.sourceNames, by simp, by simp, ?_⟩
    rw [Scaffolding.NewModule.packageInfo_eq relative, location_below way m.sourceNames_forward]
  · exact ⟨[descriptorName], by simp, by simp, location_parent way⟩

/-- It does so as well where its package lies elsewhere, because the descriptor was staged first. -/
theorem separate_newModule_elsewhere (clean : Clean before project) (housed : before.Housed)
    (absolute : (Scaffolding.NewModule.packagePath m.package).isAbsolute = true)
    {handle : SnapshotHandle} (taken : backup standardDirectory
      [m.descriptor, m.packageInfo, m.parent] project before = (.ok handle, s)) :
    Separate before project [m.descriptor, m.packageInfo, m.parent] := by
  have source := Scaffolding.NewModule.packageInfo_eq_absolute absolute
  have sourceAt : before.location m.packageInfo =
      (Scaffolding.NewModule.packagePath m.package).names ++ [packageInfoName] := by
    have forward : upName ∉ m.packageInfo.names := by
      rw [source]
      exact List.not_mem_append (Scaffolding.packagePath_forward _) (by decide)
    have outside : before.start m.packageInfo = [] := by
      rw [source]
      exact if_pos absolute
    rw [(way_of_forward housed forward).location, outside, source]
    rfl
  -- The backup went through, so no copy of the sources lies on the way to the descriptor.
  have staged (ending : Text) (ends : Ending ending) :
      ¬suffixed ending (before.location m.packageInfo) <+: base ++ rest ++ [m.name] := by
    have order := clean.not_prefix_of_backup suits taken ends
    rwa [location_descriptor way, List.append_cons, List.dropLast_concat] at order
  rw [sourceAt] at staged
  have apart := apart_elsewhere (fun _ ends => (descriptor_ne ends m).1)
    (Scaffolding.point_not_mem_packagePath _) staged
  refine separate_of_apart suits [] apart ?_
  intro target member
  simp only [List.mem_cons, List.not_mem_nil, or_false] at member
  rcases member with rfl | rfl | rfl
  · exact ⟨_, by simp, by simp, location_descriptor way⟩
  · exact ⟨_, by simp, by simp, sourceAt⟩
  · exact ⟨_, by simp, by simp, location_parent way⟩

end

/-- One file alone is in no one's way. -/
theorem separate_source {source : Option Path}
    (suits : ∀ target ∈ source.toList, Suits before project target) :
    Separate before project source.toList := by
  have apart : Apart (source.toList.map (placeOf before project)) := by
    intro place listed place' listed' ending ends
    obtain ⟨file, member, rfl⟩ := List.mem_map.mp listed
    obtain ⟨file', member', rfl⟩ := List.mem_map.mp listed'
    rw [Option.mem_toList] at member member'
    cases member.symm.trans member'
    exact not_suffixed_prefix ends (suits file (Option.mem_toList.mpr member)).place_spec.1
  refine separate_of_apart suits (before.location project) apart ?_
  intro file member
  exact ⟨_, List.mem_map_of_mem member, (suits file member).place_spec⟩

theorem separate_wrapper {root : Path} {base : Location} {rest : List Text}
    (way : before.Way root base rest)
    (suits : ∀ target ∈ Wrapper.files.map (WrapperFiles.place root), Suits before project target) :
    Separate before project (Wrapper.files.map (WrapperFiles.place root)) := by
  refine separate_of_apart suits (base ++ rest) apart_wrapper ?_
  intro target member
  obtain ⟨file, listed, rfl⟩ := List.mem_map.mp member
  obtain ⟨names, forward, inner⟩ := WrapperFiles.place_eq listed root
  refine ⟨_, List.mem_map_of_mem listed, inner, ?_⟩
  rw [names, (way.append forward).location, List.append_assoc]

/-- What is staged of declared files lies beside each other. -/
theorem separate_of_declared {c : RepairContext} {v : Violation} {f : Fixer}
    (bundled : f ∈ bundledFixers)
    (clean : Clean before project) (housed : before.Housed) (steady : before.Steady c.moduleRoot)
    (found : f.targets c v before = .ok files)
    (suits : ∀ target ∈ files, Suits before project target) {handle : SnapshotHandle}
    (taken : backup standardDirectory files project before = (.ok handle, s)) :
    Separate before project files := by
  have sound := clean.sound
  simp only [bundledFixers, List.mem_cons, List.not_mem_nil, or_false] at bundled
  -- One case for each fixer, by the files that it declares.
  rcases bundled with rfl | rfl | rfl
  · rcases Scaffolding.targets_eq_ok found with rfl | ⟨m, asked, rfl⟩
    · rintro _ _ ⟨_, member, _⟩
      cases member
    obtain ⟨module, _⟩ := Scaffolding.newModule?_eq_some asked
    obtain ⟨base, rest, way⟩ := c.way_of_moduleOf sound housed steady module
    cases absolute : (Scaffolding.NewModule.packagePath m.package).isAbsolute with
    | false => exact separate_newModule way suits absolute
    | true => exact separate_newModule_elsewhere way suits clean housed absolute taken
  · obtain ⟨source, _, rfl⟩ := ReturnTypes.targets_eq_ok (c := c) found
    exact separate_source suits
  · obtain ⟨root, module, rfl⟩ := WrapperFiles.targets_eq_ok found
    obtain ⟨base, rest, way⟩ := c.way_of_moduleOf sound housed steady module
    exact separate_wrapper way suits

end Staged

end Layering
