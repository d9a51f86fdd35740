import Layering.Proofs.Accounts
import Layering.Proofs.Repetition

/-!
# Repairs that need no repetition

A module that was made is no module that could hold others, and a wrapper that was installed is
complete. So the fixer that made it finds nothing left to do, be the module of the violation the same
as before or the new one.
-/

namespace Layering

namespace Tree

variable {tree : Tree} {b m : Location} {rest : List Text}

/-- What is absent on the way from an entry is beyond it. -/
theorem Sound.beyond_of_absent (sound : tree.Sound) (there : tree.at? b ≠ none)
    (absent : tree.at? m = none) (part : m <+: b ++ rest) :
    ∃ more, more ≠ [] ∧ more <+: rest ∧ m = b ++ more := by
  rcases List.prefix_or_prefix_of_prefix part (List.prefix_append b rest) with above | ⟨more, rfl⟩
  · by_cases same : m = b
    · exact absurd (same ▸ absent) there
    · rw [sound.above there above same] at absent
      cases absent
  · refine ⟨more, fun none => there ?_, (List.prefix_append_right_inj b).mp part, rfl⟩
    rw [← absent, none, List.append_nil]

/-- What is absent on the way from an entry ends with a name of that way. -/
theorem Sound.last_mem_of_absent (sound : tree.Sound) (there : tree.at? b ≠ none) {name : Text}
    (absent : tree.at? (m ++ [name]) = none) (part : m ++ [name] <+: b ++ rest) : name ∈ rest := by
  obtain ⟨more, some, inside, split⟩ := sound.beyond_of_absent there absent part
  have last := congrArg List.getLast? split
  rw [List.getLast?_append_of_ne_nil _ some, List.getLast?_concat] at last
  exact inside.subset (List.mem_of_getLast? last.symm)

end Tree

/-- What is new after a patch is on the way to a file that it lists. -/
theorem Patch.Applied.leads {c : RepairContext} {s s' : Site} {p : Patch} (applied : p.Applied c s s')
    (sound : s.tree.Sound) {m : Location} (absent : s.tree.at? m = none)
    (there : s'.tree.at? m ≠ none) : ∃ file ∈ p.files, m <+: s.location file := by
  rcases applied.pending.tree.leads sound absent there with ⟨file, listed, rfl⟩ |
    ⟨_, ⟨file, listed, rfl⟩, part, _⟩
  · exact ⟨file, listed, List.prefix_rfl⟩
  · exact ⟨file, listed, part⟩

/-! ### Modules -/

namespace Scaffolding

variable {c : RepairContext} {v : Violation} {s s' : Site} {m : NewModule} {content : Text}
variable {p : Patch}

namespace NewModule

theorem name_ne_descriptorName (m : NewModule) : m.name ≠ descriptorName :=
  m.name_ne_of_not_mem (by decide)

theorem descriptorName_not_mem_packagePath (package : Text) :
    descriptorName ∉ (packagePath package).names := fun member =>
  point_not_mem_packagePath package _ member (by decide)

/-- The source that describes a package lies beyond a directory over names that are not those of
descriptors. -/
theorem way_packageInfo' {base : Location} (way : s.Way m.root base []) :
    ∃ base rest, s.Way m.packageInfo base rest ∧ descriptorName ∉ rest := by
  have other : descriptorName ∉ [packageInfoName] := by decide
  cases absolute : (packagePath m.package).isAbsolute with
  | false =>
    have sources : descriptorName ∉ sourceDirectory.names := by decide
    rw [packageInfo_eq absolute]
    refine ⟨base, _, way_name way m.sourceNames_forward, ?_⟩
    rw [List.nil_append, List.mem_cons, not_or]
    exact ⟨m.name_ne_descriptorName.symm,
      List.not_mem_append (List.not_mem_append sources (descriptorName_not_mem_packagePath _)) other⟩
  | true =>
    rw [packageInfo_eq_absolute absolute]
    exact ⟨_, _, Site.way_of_absolute absolute (List.not_mem_append (packagePath_forward _) (by decide)),
      List.not_mem_append (descriptorName_not_mem_packagePath _) other⟩

end NewModule

/-- The only new descriptor is that of the new module. -/
theorem eq_of_new_descriptor (sound : s.tree.Sound)
    (worked : Worked c v s m content p) (applied : p.Applied c s s') {l : Location}
    (absent : s.tree.at? (l ++ [descriptorName]) = none)
    (there : s'.tree.at? (l ++ [descriptorName]) ≠ none) : l = s.location m.root ++ [m.name] := by
  obtain ⟨base, way⟩ := Site.way_of_child worked.found
  have open_ : s.tree.at? base ≠ none := by simp [way.directory]
  have root : s.location m.root = base := by rw [way.location, List.append_nil]
  obtain ⟨file, listed, part⟩ := applied.leads sound absent there
  rw [worked.patch] at listed
  rcases mem_files_patch.mp listed with rfl | rfl | ⟨_, rfl⟩
  · have pomWay : s.Way m.descriptor base (m.name :: [descriptorName]) :=
      m.descriptor_eq ▸ NewModule.way_name way (by decide)
    rw [pomWay.location] at part
    obtain ⟨more, some, inside, split⟩ := sound.beyond_of_absent open_ absent part
    rcases List.prefix_cons_iff.mp inside with none | ⟨tail, rfl, inside'⟩
    · exact absurd none some
    rcases List.prefix_cons_iff.mp inside' with rfl | ⟨last, rfl, inside''⟩
    · obtain ⟨_, same⟩ := List.append_inj' split rfl
      exact absurd (List.singleton_inj.mp same).symm m.name_ne_descriptorName
    · rw [List.prefix_nil.mp inside'', List.append_cons base] at split
      rw [root]
      exact (List.append_inj' split rfl).1
  · obtain ⟨base, rest, infoWay, other⟩ := NewModule.way_packageInfo' way
    rw [infoWay.location] at part
    exact absurd (sound.last_mem_of_absent (by simp [infoWay.directory]) absent part) other
  · have old := (Site.locate_of_exists worked.found).2
    rw [Site.entryAt] at old
    by_cases same : l ++ [descriptorName] = s.location m.parent
    · exact absurd (same ▸ absent) old
    · rw [sound.above old part same] at absent
      cases absent

theorem Worked.writes_descriptor (worked : Worked c v s m content p) :
    .write m.descriptor (Scaffold.descriptor content m.root.name m.name m.component m.layer.name) ∈
      p.changes := by
  rw [worked.patch]
  exact mem_changes_of_mem_steps (mem_steps.mpr (.inr (.inl rfl)))

/-- The directory of the new module is found. -/
theorem exists_directory (worked : Worked c v s m content p) (applied : p.Applied c s s') :
    s'.exists? m.directory = .ok true := by
  obtain ⟨base, way⟩ := Site.way_of_child worked.found
  have direct : s.Way m.directory base [m.name] := NewModule.way_name way List.not_mem_nil
  have short : nameSize m.name ≤ maxNameSize := by
    by_contra long
    have located : s.locate m.directory = .error .nameTooLong := by
      have other := m.name_ne_up
      rw [direct.locate]
      simp [Tree.follow, Tree.isDirectory_iff.mpr way.directory, other, Nat.lt_of_not_le long]
    exact Site.exists?_isOk.mp ⟨_, worked.free⟩ located
  have direct' : s'.Direct m.directory :=
    ⟨base, [m.name], direct.of_opens applied.grown.opens applied.grown.place, by simpa using short⟩
  have pomWay : s.Way m.descriptor base (m.name :: [descriptorName]) :=
    m.descriptor_eq ▸ NewModule.way_name way (by decide)
  obtain ⟨bytes, mode, entry⟩ := applied.there worked.writes_descriptor (.inl rfl)
  rw [pomWay.location, List.append_cons] at entry
  have above := applied.grown.sound (base ++ [m.name]) descriptorName (by rw [entry]; simp)
  rw [direct'.exists? applied.grown.sound, Site.entryAt, applied.grown.location, direct.location,
    above]
  rfl

/-- The new module has the descriptor that was written for it. -/
theorem holds_descriptor (worked : Worked c v s m content p)
    (applied : p.Applied c s s') : Change.Holds s' (s.location m.descriptor)
      (Scaffold.descriptor content m.root.name m.name m.component m.layer.name) := by
  obtain ⟨base, way⟩ := Site.way_of_child worked.found
  have pomWay : s.Way m.descriptor base (m.name :: [descriptorName]) :=
    m.descriptor_eq ▸ NewModule.way_name way (by decide)
  have parentWay : s.Way m.parent base [descriptorName] := way.append (by decide)
  obtain ⟨_, _, inner, infoWay⟩ := NewModule.way_packageInfo way
  obtain ⟨name, last, _, at_⟩ := infoWay.last inner
  -- No later step writes to the descriptor: the other files have other names or other places.
  have other : s.location m.packageInfo ≠ s.location m.descriptor := by
    have named : name = packageInfoName := by
      have ends : m.packageInfo.names.getLast? = some packageInfoName := by
        simp [NewModule.packageInfo, Path.child]
      exact Option.some.inj (last.symm.trans ends)
    intro same
    rw [at_, pomWay.location, List.append_cons base] at same
    obtain ⟨_, same⟩ := List.append_inj' same rfl
    rw [named] at same
    exact absurd (List.singleton_inj.mp same) (by decide)
  have other' : s.location m.parent ≠ s.location m.descriptor := by
    rw [pomWay.location, parentWay.location]
    intro same
    have := congrArg List.length same
    simp at this
  refine applied.holds worked.writes_descriptor (.inl rfl) fun change member q t writes at_ => ?_
  rw [worked.patch] at member
  rcases changes_cases member with step | ⟨_, rfl⟩
  · have write {q' : Path} {t' : Text} (same : change = .write q' t') : q' = q ∧ t' = t := by
      rcases writes with rfl | rfl
      · cases same
        exact ⟨rfl, rfl⟩
      · cases same
    rcases mem_steps.mp step with rfl | same | same | ⟨_, same⟩
    · rcases writes with same | same <;> cases same
    · exact (write same).2.symm
    · exact absurd ((write same).1 ▸ at_) other
    · exact absurd ((write same).1 ▸ at_) other'
  · rcases writes with same | same <;> cases same

theorem mem_of_mem_componentName {directory : Text} {letter : Char}
    (member : letter ∈ componentName directory) : letter ∈ directory := by
  unfold componentName at member
  simp only at member
  split at member
  · rcases List.mem_append.mp member with name | lineBreak
    · exact List.mem_of_mem_take (List.mem_of_mem_take name)
    · split at lineBreak
      next last => exact List.mem_singleton.mp lineBreak ▸ List.mem_of_getLast? last
      next => cases lineBreak
  · exact member

/-- The name of a new module is made of the name of the directory and that of the layer. -/
theorem not_mem_name (module : newModule? c v s = .ok (some m)) {letter : Char}
    (other : ∀ layer : Layer, letter ∉ '-' :: layer.name) (plain : letter ∉ m.root.name) :
    letter ∉ m.name := by
  obtain ⟨layer, _, _, _, rfl⟩ := newModule?_eq_some_iff.mp module
  exact List.not_mem_append (fun inside => plain (mem_of_mem_componentName inside)) (other layer)

/-- A new module is none that holds others. -/
theorem not_aggregator (module : newModule? c v s = .ok (some m)) (untagged : '<' ∉ m.root.name) :
    Descriptor.isAggregator (Text.unifyBreaks
      (Scaffold.descriptor content m.root.name m.name m.component m.layer.name)) = false := by
  have packaged := @Scaffold.packaging_descriptor content _ _ untagged
    (not_mem_name module (fun layer => by cases layer <;> decide) untagged)
    m.component m.layer.name
  rw [Descriptor.isAggregator, packaged]
  rfl

theorem newModule?_again (module : newModule? c v s = .ok (some m)) {root : Path}
    (found : c.moduleOf s' v = .ok root) :
    ∃ m', newModule? c v s' = .ok (some m') ∧ m'.root = root ∧ (root = m.root → m' = m) := by
  obtain ⟨layer, _, known, _, rfl⟩ := newModule?_eq_some_iff.mp module
  exact ⟨_, newModule?_eq_some_iff.mpr ⟨layer, root, known, found, rfl⟩, rfl, fun same => by rw [same]⟩

/-- No module is made in a module that holds no others, or where the directory is taken. -/
theorem propose_eq_nothing (module : newModule? c v s = .ok (some m))
    (found : s.exists? m.parent = .ok true) (read : s.readText m.parent = .ok content)
    (stops : Descriptor.isAggregator content = false ∨ s.exists? m.directory = .ok true) :
    ∃ reason, propose c v s = .ok (.nothing reason) := by
  unfold propose
  simp only [module, found, read, Except.mapError, bind, Except.bind, Bool.not_true,
    Bool.false_eq_true, if_false]
  split
  · exact ⟨_, rfl⟩
  next aggregator =>
    have taken := stops.resolve_left fun library => aggregator (by rw [library]; rfl)
    rw [taken]
    exact ⟨_, rfl⟩

/-- No further module is made for the violation. -/
theorem nothing_again (sound : s.tree.Sound) (housed : s.Housed)
    (direct : s.Direct (Path.ofText v.location)) (inside : c.Inside s (Path.ofText v.location))
    (worked : Worked c v s m content p) (applied : p.Applied c s s')
    (untagged : '<' ∉ m.root.name) : ∃ reason, propose c v s' = .ok (.nothing reason) := by
  have grown := applied.grown
  have found := (newModule?_eq_some worked.module).1
  obtain ⟨root, found', same⟩ := c.moduleOf_extends grown sound housed direct inside found
  obtain ⟨m', module, at_, known⟩ := newModule?_again worked.module found'
  rcases same with same | ⟨direct, absent, there⟩
  · -- The module is the one that gained the new module.
    obtain rfl := known same
    obtain ⟨t, read⟩ := applied.readable sound housed worked.read
    have parent := grown.exists_of_exists worked.found
    exact propose_eq_nothing module parent read (.inr (exists_directory worked applied))
  · -- The module is the new one, which holds no others.
    have at_' := eq_of_new_descriptor sound worked applied absent there
    have other := RepairContext.descriptorName_ne_up
    have directParent := direct.child other RepairContext.descriptorName_short
    have directParent' := directParent.of_opens grown.opens grown.place
    have place : s'.location m'.parent = s.location m.descriptor := by
      obtain ⟨base, way⟩ := Site.way_of_child worked.found
      have pomWay : s.Way m.descriptor base (m.name :: [descriptorName]) :=
        m.descriptor_eq ▸ NewModule.way_name way (by decide)
      rw [grown.location, NewModule.parent, at_, direct.location_child other, at_', pomWay.location,
        way.location]
      simp
    have holds := holds_descriptor worked applied
    have found : s'.exists? m'.parent = .ok true := by
      obtain ⟨mode, entry⟩ := holds
      rw [NewModule.parent, at_] at place ⊢
      rw [directParent'.exists? grown.sound, Site.entryAt, place, entry]
      rfl
    have read : s'.readText m'.parent = .ok (Text.unifyBreaks
        (Scaffold.descriptor content m.root.name m.name m.component m.layer.name)) := by
      rw [← place] at holds
      rw [NewModule.parent, at_] at holds ⊢
      exact holds.readText directParent' grown.sound
    exact propose_eq_nothing module found read (.inl (not_aggregator worked.module untagged))

end Scaffolding

/-! ### The build wrapper -/

/-- A path that leads to something, or by names that neither lead up nor are those of
descriptors. -/
def Site.Clear (s : Site) (p : Path) : Prop :=
  s.exists? p = .ok true ∨ upName ∉ p.names ∧ descriptorName ∉ p.names

namespace WrapperFiles

variable {c : RepairContext} {v : Violation} {s s' : Site} {root : Path} {missing : List Text}
variable {hasDirectory : Bool} {p : Patch}

theorem clear_of_moduleOf (sound : s.tree.Sound) (clear : s.Clear c.moduleRoot) (found : c.moduleOf s v = .ok root) :
    s.Clear root := by
  rw [c.moduleOf_eq_above] at found
  obtain ⟨isDirectory, _, found⟩ := Except.bind_eq_ok found
  rcases c.moduleAbove_cases found with rfl | there
  · exact clear
  · obtain ⟨base, way⟩ := Site.way_of_child there
    have entry : s.entryAt root ≠ none := by simp [way.leads.2]
    refine .inl (way.exists_of_there sound entry ?_)
    simp [way.leads.1]

theorem location_place (steady : s.Steady root) (sound : s.tree.Sound) (housed : s.Housed)
    {file : Text} (listed : file ∈ Wrapper.files) :
    s.location (place root file) = s.location root ++ (Path.ofText file).names := by
  obtain ⟨base, rest, way⟩ := Site.way_of_firm housed (steady.firm sound)
  obtain ⟨names, forward, _⟩ := place_eq listed root
  rw [names, (way.append forward).location, way.location, List.append_assoc]

/-- The wrapper has no descriptors. -/
theorem not_new_descriptor (sound : s.tree.Sound) (housed : s.Housed) (clear : s.Clear root)
    (worked : Worked c v s root missing hasDirectory p) (applied : p.Applied c s s') {l : Location}
    (absent : s.tree.at? (l ++ [descriptorName]) = none) :
    s'.tree.at? (l ++ [descriptorName]) = none := by
  have other : ∀ file ∈ Wrapper.files, descriptorName ∉ (Path.ofText file).names := by
    decide
  by_contra there
  obtain ⟨path, listed, part⟩ := applied.leads sound absent there
  rw [worked.patch] at listed
  obtain ⟨file, missing, rfl⟩ := List.mem_map.mp listed
  have listed := worked.listed missing
  have steady : s.Steady root := clear.symm.imp (·.1) id
  rw [location_place steady sound housed listed] at part
  rcases clear with there | ⟨forward, plain⟩
  · exact other file listed (sound.last_mem_of_absent (Site.locate_of_exists there).2 absent part)
  · rw [Site.location_of_forward forward, List.append_assoc] at part
    have member := sound.last_mem_of_absent (by rw [housed.start root]; simp) absent part
    exact (List.mem_append.mp member).elim plain (other file listed)

/-- Every file of the wrapper is there. -/
theorem complete (sound : s.tree.Sound) (housed : s.Housed) (steady : s.Steady root)
    (worked : Worked c v s root missing hasDirectory p) (applied : p.Applied c s s') {file : Text}
    (listed : file ∈ Wrapper.files) : s'.exists? (place root file) = .ok true := by
  rcases worked.asked_each listed with ⟨absent, _⟩ | ⟨_, there⟩
  · have write : .write (place root file) (Wrapper.contents file) ∈ p.changes := by
      rw [worked.patch]
      exact mem_changes_patch.mpr (.inr ⟨file, absent, .inl rfl⟩)
    obtain ⟨base, rest, way⟩ := Site.way_of_firm housed (steady.firm sound)
    obtain ⟨more, _, fileWay⟩ := way_place way listed
    have direct : s.Direct (place root file) := by
      refine ⟨base, more, fileWay, fun name member => applied.short write name ?_⟩
      obtain ⟨front, names, _⟩ := fileWay.names
      exact names ▸ List.mem_append_right _ member
    obtain ⟨bytes, mode, entry⟩ := applied.there write (.inl rfl)
    have grown := applied.grown
    rw [(direct.of_opens grown.opens grown.place).exists? grown.sound, Site.entryAt, grown.location,
      entry]
    rfl
  · exact applied.grown.exists_of_exists there

/-- No further file is written for the violation. -/
theorem nothing_again (sound : s.tree.Sound) (housed : s.Housed)
    (direct : s.Direct (Path.ofText v.location)) (inside : c.Inside s (Path.ofText v.location))
    (clear : s.Clear c.moduleRoot) (worked : Worked c v s root missing hasDirectory p)
    (applied : p.Applied c s s') : ∃ reason, propose c v s' = .ok (.nothing reason) := by
  have clear := clear_of_moduleOf sound clear worked.module
  have steady : s.Steady root := clear.symm.imp (·.1) id
  obtain ⟨root', found, same⟩ :=
    c.moduleOf_extends applied.grown sound housed direct inside worked.module
  have same : root' = root := by
    refine same.resolve_right ?_
    rintro ⟨_, absent, there⟩
    exact there (not_new_descriptor sound housed clear worked applied absent)
  rw [same] at found
  have each {file : Text} (listed : file ∈ Wrapper.files) :=
    complete sound housed steady worked applied listed
  have directory : s'.isDirectory? (place root Wrapper.directory) = .ok true := by
    have there := each (show Wrapper.properties ∈ Wrapper.files by decide)
    rw [place_properties] at there
    obtain ⟨base, way⟩ := Site.way_of_child there
    rw [(Site.direct_of_leads way.leads).isDirectory? applied.grown.sound, way.leads.2]
    rfl
  -- Every file is there, so the filter leaves none missing.
  have none : Wrapper.files.filterM (fun file => do return !(← s'.exists? (place root file))) =
      .ok [] := by
    unfold Wrapper.files at each ⊢
    simp only [List.filterM, List.filterAuxM, bind, Except.bind, each List.mem_cons_self,
      each (List.mem_cons_of_mem _ List.mem_cons_self),
      each (List.mem_cons_of_mem _ (List.mem_cons_of_mem _ List.mem_cons_self))]
    rfl
  refine ⟨"All Maven wrapper files already exist".toList, ?_⟩
  unfold propose
  rw [found]
  change Except.mapError Failure.fault ((Wrapper.files.filterM fun file => do
    return !(← s'.exists? (place root file))) >>= fun missing => _) = _
  rw [none]
  change Except.mapError Failure.fault (s'.isDirectory? (place root Wrapper.directory) >>= _) = _
  rw [directory]
  rfl

end WrapperFiles

/-! ### All fixers -/

namespace RepairContext

/-- What keeps a fixer from having more to do after a repair: the place of the violation is found
again and belongs to the project, names do not pass for tags or descriptors, and imports stand on
lines of their own. -/
inductive Repeatable (c : RepairContext) (v : Violation) (s : Site) : Fixer → Prop
  | scaffolding (direct : s.Direct (Path.ofText v.location))
    (inside : c.Inside s (Path.ofText v.location))
    (untagged : ∀ root, c.moduleOf s v = .ok root → '<' ∉ root.name) :
    Repeatable c v s Scaffolding.fixer
  | returnTypes
    (tidy : ∀ file content, ReturnTypes.source? v s = .ok (some file) →
      s.readText file = .ok content → Java.Tidy content) :
    Repeatable c v s ReturnTypes.fixer
  | wrapper (direct : s.Direct (Path.ofText v.location))
    (inside : c.Inside s (Path.ofText v.location)) (clear : s.Clear c.moduleRoot) :
    Repeatable c v s WrapperFiles.fixer

variable {c : RepairContext} {v : Violation} {s s' : Site} {o : Outcome}

/-- A fixer whose every patch leaves nothing to offer skips a violation that it has repaired. -/
theorem skips_again {name description : Text} {priority : Int} {rules : List Text}
    {targets : RepairContext → Violation → Site → Except Failure (List Path)}
    {propose : RepairContext → Violation → Site → Except Failure Proposal}
    (full : c.dryRun = false) (sound : s.tree.Sound)
    (due : ∀ p, propose c v s = .ok (.patch p) → p.Due s)
    (nothing : ∀ p, propose c v s = .ok (.patch p) → p.Applied c s s' →
      ∃ reason, propose c v s' = .ok (.nothing reason))
    (run : (Fixer.proposing name description priority rules targets propose).repair c v s =
      (.ok o, s')) (fixed : o.status = .fixed) :
    ∃ reason, (Fixer.proposing name description priority rules targets propose).repair c v s' =
      (.ok (.skipped v reason), s') := by
  have offers := Fixer.offers_proposing name description priority rules targets propose
  obtain ⟨p, offered, applied⟩ := offers.applied full sound (fun p offered => by
    split at offered
    · exact due p offered
    · cases offered) run fixed
  split at offered
  next known =>
    obtain ⟨reason, again⟩ := nothing p offered applied
    exact ⟨reason, offers.skipped (by rw [if_pos known, again])⟩
  next => cases offered

/-- A violation that a bundled fixer has repaired is skipped by it the next time, and nothing
changes. -/
theorem repairs_idempotent (full : c.dryRun = false)
    (dotted : ∀ entry ∈ c.mappings, Text.Dotted entry.2.core ∧ Text.Dotted entry.2.api)
    (sound : s.tree.Sound) (housed : s.Housed) {f : Fixer} (repeatable : c.Repeatable v s f)
    (run : f.repair c v s = (.ok o, s')) (fixed : o.status = .fixed) :
    ∃ reason, f.repair c v s' = (.ok (.skipped v reason), s') := by
  cases repeatable with
  | scaffolding direct inside untagged =>
    refine skips_again full sound (fun p offered => ?_) (fun p offered applied => ?_) run fixed
    · obtain ⟨m, content, worked⟩ := Scaffolding.propose_eq_patch offered
      exact Scaffolding.due_patch worked
    · obtain ⟨m, content, worked⟩ := Scaffolding.propose_eq_patch offered
      have plain := untagged _ (Scaffolding.newModule?_eq_some worked.module).1
      exact Scaffolding.nothing_again sound housed direct inside worked applied plain
  | returnTypes tidy =>
    refine skips_again full sound (fun p offered => ?_) (fun p offered applied => ?_) run fixed
    · obtain ⟨file, core, mapping, content, worked⟩ := ReturnTypes.propose_eq_patch offered
      exact ReturnTypes.due_patch sound housed worked.read worked.patch
    · obtain ⟨file, core, mapping, content, worked⟩ := ReturnTypes.propose_eq_patch offered
      have named := TypeTable.dotted_of_resolve (fun entry listed => (dotted entry listed).2)
        worked.mentioned worked.resolved
      exact ReturnTypes.nothing_again sound housed named (tidy file content worked.found worked.read)
        worked applied
  | wrapper direct inside clear =>
    refine skips_again full sound (fun p offered => ?_) (fun p offered applied => ?_) run fixed
    · obtain ⟨root, missing, hasDirectory, worked⟩ := WrapperFiles.propose_eq_patch offered
      have steady : s.Steady c.moduleRoot := clear.symm.imp (·.1) id
      obtain ⟨base, rest, way⟩ := c.way_of_moduleOf sound housed steady worked.module
      exact WrapperFiles.due_patch sound way worked
    · obtain ⟨root, missing, hasDirectory, worked⟩ := WrapperFiles.propose_eq_patch offered
      exact WrapperFiles.nothing_again sound housed direct inside clear worked applied

end RepairContext

/-- An aggregator without modules. -/
def bareAggregator : Site where
  tree := ((∅ : Tree).insert ["p".toList] .directory).insert ["p".toList, "pom.xml".toList]
    (.file (Utf8.encode "<project><packaging>pom</packaging></project>") 0o644)

/-- The contract of a component is missing. -/
def missingContract : Violation := { rule := Rule.missingApi, location := "/p" }

/-- A missing module is made once. -/
theorem RepairContext.repairs_idempotent_aggregator :
    let c : RepairContext := { projectRoot := "/p", moduleRoot := "/p" }
    c.dryRun = false ∧
      (∀ entry ∈ c.mappings, Text.Dotted entry.2.core ∧ Text.Dotted entry.2.api) ∧
      bareAggregator.tree.Sound ∧ bareAggregator.Housed ∧
      c.Repeatable missingContract bareAggregator Scaffolding.fixer ∧
      ∃ o s', Scaffolding.fixer.repair c missingContract bareAggregator = (.ok o, s') ∧
        o.status = .fixed ∧ ∃ reason, Scaffolding.fixer.repair c missingContract s' =
          (.ok (.skipped missingContract reason), s') := by
  intro c
  have dotted : ∀ entry ∈ c.mappings, Text.Dotted entry.2.core ∧ Text.Dotted entry.2.api := nofun
  have sound : bareAggregator.tree.Sound := by
    refine Tree.Sound.insert ?_ (by decide) (by simp) (by decide)
    exact Tree.sound_empty.insert rfl (by simp) fun _ => rfl
  have housed : bareAggregator.Housed := rfl
  have module : c.moduleOf bareAggregator missingContract = .ok "/p" := by
    rw [RepairContext.moduleOf_eq_above]
    decide
  have repeatable : c.Repeatable missingContract bareAggregator Scaffolding.fixer := by
    refine .scaffolding ?_ (.inl (by decide)) fun root found => ?_
    · exact Site.direct_of_exists sound housed (by decide)
    · cases module.symm.trans found
      decide
  have status : (Scaffolding.fixer.repair c missingContract bareAggregator).1.toOption.map
      (·.status) = some .fixed := by
    delta Scaffolding.fixer Scaffolding.propose Scaffolding.newModule?
    simp only [RepairContext.moduleOf_eq_above]
    decide +kernel
  refine ⟨rfl, dotted, sound, housed, repeatable, ?_⟩
  rcases run : Scaffolding.fixer.repair c missingContract bareAggregator with ⟨e | o, s'⟩
  · rw [run] at status
    cases status
  · rw [run] at status
    have fixed : o.status = .fixed := Option.some.inj status
    exact ⟨o, s', rfl, fixed, RepairContext.repairs_idempotent rfl dotted sound housed repeatable
      run fixed⟩

/-- A module outside the project of the context. -/
def outlyingModule : Site where
  tree := (((∅ : Tree).insert ["w".toList] .directory).insert ["w".toList, "m".toList]
    .directory).insert ["w".toList, "m".toList, "pom.xml".toList] (.file [] 0o644)

/-- The first repair makes the directory where the search for the module starts, and from there it
ends in another module, in which the wrapper is installed once more. -/
theorem repair_installs_twice :
    let c : RepairContext := { projectRoot := "/w/other", moduleRoot := "/w" }
    let v := missingWrapperAt "/w/m/.mvn"
    c.dryRun = false ∧ outlyingModule.tree.Sound ∧ outlyingModule.Housed ∧
      WrapperFiles.fixer ∈ bundledFixers ∧
      ∃ o s', WrapperFiles.fixer.repair c v outlyingModule = (.ok o, s') ∧ o.status = .fixed ∧
        ¬∃ reason, WrapperFiles.fixer.repair c v s' = (.ok (.skipped v reason), s') := by
  intro c v
  have sound : outlyingModule.tree.Sound := by
    refine Tree.Sound.insert ?_ (by decide) (by simp) (by decide)
    refine Tree.Sound.insert ?_ (by decide) (by simp) fun _ => rfl
    exact Tree.sound_empty.insert rfl (by simp) fun _ => rfl
  have status : (WrapperFiles.fixer.repair c v outlyingModule).1.toOption.map (·.status) =
      some .fixed := by
    delta WrapperFiles.fixer WrapperFiles.propose
    simp only [RepairContext.moduleOf_eq_above]
    decide +kernel
  have again : (WrapperFiles.fixer.repair c v
      (WrapperFiles.fixer.repair c v outlyingModule).2).1.toOption.map (·.status) =
        some .fixed := by
    delta WrapperFiles.fixer WrapperFiles.propose
    simp only [RepairContext.moduleOf_eq_above]
    decide +kernel
  refine ⟨rfl, sound, rfl, by simp [bundledFixers], ?_⟩
  rcases run : WrapperFiles.fixer.repair c v outlyingModule with ⟨e | o, s'⟩
  · rw [run] at status
    cases status
  · rw [run] at status again
    refine ⟨o, s', rfl, Option.some.inj status, ?_⟩
    rintro ⟨reason, skipped⟩
    rw [skipped] at again
    cases again

end Layering
