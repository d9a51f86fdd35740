import Layering.Proofs.Findings

/-!
# Scans of a tree that has grown

Where nothing was taken from a tree, a directory that was searched before is searched again, in the
same place of the order. What is reported of it is the same if nothing has come to the entries that
the detectors look at.
-/

namespace Layering

open Site

theorem Site.LeadsToDirectory.there {s : Site} {p : Path} (leads : s.LeadsToDirectory p) :
    s.tree.at? (s.location p) ≠ none := by
  rw [← Site.entryAt, leads.2]
  exact Option.some_ne_none _

namespace Module

variable {s s' : Site} {root d : Path} {names : List Text}

/-- A directory that is searched lies below the root over names that can be written. -/
structure Listed (s : Site) (root : Path) (names : List Text) : Prop where
  searched : names.all isSearched = true
  directory : s.tree.at? (s.location root ++ names) = some .directory

theorem leads_of_mem_directoriesBelow (listed : names ∈ s.directoriesBelow root) :
    s.LeadsToDirectory root := by
  unfold directoriesBelow at listed
  cases located : s.locate root with
  | error o =>
    rw [located] at listed
    cases listed
  | ok l =>
    rw [located] at listed
    simp only at listed
    split at listed
    next open_ =>
      have same := eq_location_of_locate located
      refine ⟨same ▸ located, ?_⟩
      rw [entryAt, ← same]
      exact Tree.isDirectory_iff.mp open_
    next => cases listed

theorem leads_root (listed : d ∈ directories s root)
    (there : s.exists? (d.child descriptorName) = .ok true) : s.LeadsToDirectory root := by
  rcases List.mem_cons.mp listed with rfl | below
  · obtain ⟨base, way⟩ := Site.way_of_child there
    exact way.leads
  · obtain ⟨names, searched, rfl⟩ := List.mem_map.mp below
    exact leads_of_mem_directoriesBelow (List.mem_of_mem_filter searched)

theorem mem_directories_iff (leads : s.LeadsToDirectory root) :
    d ∈ directories s root ↔ ∃ names, Listed s root names ∧
      d = ⟨root.anchor, root.names ++ names⟩ := by
  unfold directories
  simp only [List.mem_cons, List.mem_map, List.mem_filter, mem_directoriesBelow_iff leads]
  constructor
  · rintro (rfl | ⟨names, ⟨⟨_, directory⟩, searched⟩, rfl⟩)
    · exact ⟨[], ⟨rfl, by rw [List.append_nil]; exact leads.2⟩, by simp⟩
    · exact ⟨names, ⟨searched, directory⟩, rfl⟩
  · rintro ⟨names, ⟨searched, directory⟩, rfl⟩
    by_cases outer : names = []
    · exact .inl (by simp [outer])
    · exact .inr ⟨names, ⟨⟨outer, directory⟩, searched⟩, rfl⟩

namespace Listed

variable (listed : Listed s root names)
include listed

theorem forward (written : s.tree.Written) : upName ∉ names := fun up =>
  (written _ (by rw [listed.directory]; nofun) upName (List.mem_append_right _ up)).2 rfl

theorem plain (written : s.tree.Written) (plain : root.Plain) :
    Path.Plain ⟨root.anchor, root.names ++ names⟩ := by
  intro name member
  rcases List.mem_append.mp member with outer | inner
  · exact plain name outer
  · exact (written _ (by rw [listed.directory]; nofun) name (List.mem_append_right _ inner)).1

theorem location (written : s.tree.Written) (leads : s.LeadsToDirectory root) :
    s.location ⟨root.anchor, root.names ++ names⟩ = s.location root ++ names :=
  leads.location_append (listed.forward written)

/-- A directory that can be asked for its descriptor is reached. -/
theorem leads (sound : s.tree.Sound) (written : s.tree.Written) (leads : s.LeadsToDirectory root)
    {found : Option Module} (read : read? s ⟨root.anchor, root.names ++ names⟩ = .ok found) :
    s.LeadsToDirectory ⟨root.anchor, root.names ++ names⟩ := by
  have forward := listed.forward written
  have way := leads.way.append forward
  have entry : s.entryAt ⟨root.anchor, root.names ++ names⟩ = some .directory := by
    rw [entryAt, listed.location written leads, listed.directory]
  refine ⟨way.locate_of_there sound (by simp [entry]) fun long => ?_, entry⟩
  have further : s.locate (Path.child ⟨root.anchor, root.names ++ names⟩ descriptorName) =
      .error .nameTooLong := locate_append_error long [descriptorName]
  obtain ⟨there, asked, _⟩ := Except.bind_eq_ok read
  exact exists?_isOk.mp ⟨there, asked⟩ further

end Listed

/-- The directories of a smaller tree are those of the greater that were there. -/
theorem directoriesBelow_of_extends (grown : s.Extends s') (leads : s.LeadsToDirectory root) :
    s.directoriesBelow root = (s'.directoriesBelow root).filter fun names =>
      decide (s.tree.at? (s.location root ++ names) = some .directory) := by
  refine Location.eq_of_mem_iff (s.pairwise_directoriesBelow root)
    ((s'.pairwise_directoriesBelow root).filter _) fun names => ?_
  rw [List.mem_filter, mem_directoriesBelow_iff leads, mem_directoriesBelow_iff (grown.leads leads),
    grown.location, decide_eq_true_iff]
  constructor
  · rintro ⟨inner, directory⟩
    exact ⟨⟨inner, grown.opens _ directory⟩, directory⟩
  · rintro ⟨⟨inner, _⟩, directory⟩
    exact ⟨inner, directory⟩

/-- A directory that was not searched before was not there. -/
theorem listed_of_extends (grown : s.Extends s') (listed : Listed s' root names) : Listed s root names ∨
      s.tree.at? (s.location root ++ names) = none := by
  have directory := listed.directory
  rw [grown.location] at directory
  by_cases absent : s.tree.at? (s.location root ++ names) = none
  · exact .inr absent
  · exact .inl ⟨listed.searched, (grown.isDirectory_iff absent).mp directory⟩

end Module

namespace Scan

variable {scan : Scan} {s s' : Site} {root : Path} {keep : Violation → Bool}

/-- Where nothing is reported of new directories, the reports of the others stand in the same order
as before. -/
theorem findings_of_extends (grown : s.Extends s') (leads : s.LeadsToDirectory root)
    (old : ∀ names, Module.Listed s root names →
      scan.ofDirectory s' ⟨root.anchor, root.names ++ names⟩ =
        (scan.ofDirectory s ⟨root.anchor, root.names ++ names⟩).filter keep)
    (new : ∀ names, Module.Listed s' root names → s.tree.at? (s.location root ++ names) = none →
      scan.ofDirectory s' ⟨root.anchor, root.names ++ names⟩ = []) :
    scan.findings s' root = (scan.findings s root).filter keep := by
  have leads' := grown.leads leads
  have first := old [] ⟨rfl, by rw [List.append_nil]; exact leads.2⟩
  rw [List.append_nil] at first
  unfold findings Module.directories
  rw [List.flatMap_cons, List.flatMap_cons, List.filter_append, first, List.flatMap_map,
    List.flatMap_map, List.filter_flatMap, Module.directoriesBelow_of_extends grown leads,
    List.filter_filter]
  refine congrArg (List.filter keep (scan.ofDirectory s root) ++ ·) ?_
  have swap : (s'.directoriesBelow root).filter (fun names => names.all Module.isSearched &&
      decide (s.tree.at? (s.location root ++ names) = some .directory)) =
      ((s'.directoriesBelow root).filter (·.all Module.isSearched)).filter fun names =>
        decide (s.tree.at? (s.location root ++ names) = some .directory) := by
    rw [List.filter_filter]
    exact List.filter_congr fun names _ => Bool.and_comm ..
  rw [swap, ← flatMap_filter (p := fun names =>
    decide (s.tree.at? (s.location root ++ names) = some .directory)) fun names member absent => ?_]
  · refine List.flatMap_congr fun names member => ?_
    obtain ⟨member, directory⟩ := List.mem_filter.mp member
    exact old names ⟨(List.mem_filter.mp member).2, of_decide_eq_true directory⟩
  · obtain ⟨inside, searched⟩ := List.mem_filter.mp member
    have directory := ((mem_directoriesBelow_iff leads').mp inside).2
    have listed : Module.Listed s' root names := ⟨searched, directory⟩
    refine new names listed ?_
    exact (Module.listed_of_extends grown listed).resolve_left fun there => by
      simp [there.directory] at absent

/-- The modules of the greater tree can be read. -/
theorem discover_of_extends (grown : s.Extends s') (leads : s.LeadsToDirectory root)
    (old : ∀ names, Module.Listed s root names →
      ∃ found, Module.read? s' ⟨root.anchor, root.names ++ names⟩ = .ok found)
    (new : ∀ names, Module.Listed s' root names → s.tree.at? (s.location root ++ names) = none →
      ∃ found, Module.read? s' ⟨root.anchor, root.names ++ names⟩ = .ok found) :
    ∃ modules, Module.discover s' root = .ok modules := by
  refine ⟨_, Module.discover_of_read fun d member => ?_⟩
  obtain ⟨names, listed, rfl⟩ := (Module.mem_directories_iff (grown.leads leads)).mp member
  rcases Module.listed_of_extends grown listed with before | absent
  · obtain ⟨found, read⟩ := old names before
    exact Module.read?_eq_at? read
  · obtain ⟨found, read⟩ := new names listed absent
    exact Module.read?_eq_at? read

end Scan

namespace Module

variable {s s' : Site} {d : Path} {name : Text}

/-- The module of a directory has a descriptor and was read. -/
theorem read_of_at? {m : Module} (found : at? s d = some m) :
    s.exists? (d.child descriptorName) = .ok true ∧ read s d = .ok m := by
  unfold at? at found
  split at found
  next answer read =>
    subst found
    obtain ⟨there, asked, read⟩ := Except.bind_eq_ok read
    cases there with
    | false => cases read
    | true =>
      obtain ⟨_, read, made⟩ := Except.bind_eq_ok read
      cases made
      exact ⟨asked, read⟩
  next => cases found

/-- How the names of the directories of layers end. -/
def layerEndings : List Text := ["api", "core", "facade", "spi", "common", "util", "utils"]

theorem mem_layerDirectories {component : Text} {layer : Layer}
    (member : name ∈ layerDirectories component layer) :
    ∃ ending ∈ layerEndings, name = moduleName component ending := by
  cases layer with
  | util =>
    rcases List.mem_cons.mp member with rfl | last
    · exact ⟨_, by decide, rfl⟩
    · exact ⟨_, by decide, List.mem_singleton.mp last⟩
  | _ => exact ⟨_, by decide, List.mem_singleton.mp member⟩

theorem slash_not_mem_ending : ∀ ending ∈ layerEndings, '/' ∉ ending := by decide

/-- A module is read again where no directory of a layer is new. -/
theorem read_eq (grown : s.Extends s') (sound : s.tree.Sound) (plain : d.Plain)
    (leads : s.LeadsToDirectory d)
    (old : ∀ name, '-' ∈ name → s.tree.at? (s.location d ++ [name]) = none →
      s'.tree.at? (s.location d ++ [name]) ≠ some .directory) : read s' d = read s d := by
  unfold read
  simp only
  rw [filterM_congr fun layer _ => anyM_congr fun name member => ?_]
  obtain ⟨ending, known, rfl⟩ := mem_layerDirectories member
  have single := slash_not_mem_ending ending known
  have other := moduleName_ne_up (componentName d.name) ending
  rw [Path.div_ofText (plainName_moduleName plain single),
    (grown.leads leads).isDirectory_child grown.sound other, leads.isDirectory_child sound other,
    grown.location]
  refine if_congr Iff.rfl rfl (congrArg Except.ok (decide_eq_decide.mpr ?_))
  by_cases absent : s.tree.at? (s.location d ++ [moduleName (componentName d.name) ending]) = none
  · simp [absent, old _ (dash_mem_moduleName _ _) absent]
  · exact grown.isDirectory_iff absent

/-- A directory has a descriptor as before where none is new. -/
theorem exists_descriptor_eq (grown : s.Extends s') (sound : s.tree.Sound)
    (leads : s.LeadsToDirectory d)
    (old : s.tree.at? (s.location d ++ [descriptorName]) = none →
      s'.tree.at? (s.location d ++ [descriptorName]) = none) :
    s'.exists? (d.child descriptorName) = s.exists? (d.child descriptorName) := by
  have other := RepairContext.descriptorName_ne_up
  refine grown.exists_eq sound (leads.direct.child other RepairContext.descriptorName_short) ?_
  rw [entryAt, leads.location_child other]
  exact old

end Module

namespace Detector

variable {s s' : Site} {d : Path}

theorem parts_relative : ∀ part ∈ parts, (Path.ofText part).isAbsolute = false ∧
    upName ∉ (Path.ofText part).names ∧
    ∀ name ∈ (Path.ofText part).names, nameSize name ≤ maxNameSize := by decide

theorem div_part {part : Text} (listed : part ∈ parts) (d : Path) :
    d / Path.ofText part = ⟨d.anchor, d.names ++ (Path.ofText part).names⟩ := by
  simp [HDiv.hDiv, Div.div, Path.join, (parts_relative part listed).1]

theorem location_part {part : Text} (listed : part ∈ parts) (leads : s.LeadsToDirectory d) :
    s.location (d / Path.ofText part) = s.location d ++ (Path.ofText part).names := by
  rw [div_part listed, leads.location_append (parts_relative part listed).2.1]

theorem direct_part {part : Text} (listed : part ∈ parts) (leads : s.LeadsToDirectory d) :
    s.Direct (d / Path.ofText part) := by
  obtain ⟨_, forward, short⟩ := parts_relative part listed
  rw [div_part listed]
  exact ⟨_, _, leads.way.append forward, by simpa using short⟩

end Detector

namespace Scan

variable {scan : Scan} {s s' : Site} {d : Path} {coreTypes : List Text}

/-- Nothing that the detectors look at in a directory has changed. -/
structure Unaffected (s s' : Site) (l : Location) : Prop where
  layers : ∀ name, '-' ∈ name → s.tree.at? (l ++ [name]) = none →
    s'.tree.at? (l ++ [name]) ≠ some .directory
  descriptor : s'.tree.at? (l ++ [descriptorName]) = s.tree.at? (l ++ [descriptorName])
  parts : ∀ part ∈ Detector.parts, s.tree.at? (l ++ (Path.ofText part).names) = none →
    s'.tree.at? (l ++ (Path.ofText part).names) = none

variable (keeps : s.KeepsSources s') (sound : s.tree.Sound) (written : s.tree.Written)
variable (plain : d.Plain) (leads : s.LeadsToDirectory d)
include keeps sound written plain leads

/-- The detectors find the same in a directory that is not affected. -/
theorem ofModule_eq (all : scan.detectors = Detector.standard coreTypes)
    (unaffected : Unaffected s s' (s.location d)) {m : Module} (read : Module.read s d = .ok m) :
    scan.ofModule s' m = scan.ofModule s m := by
  have grown := keeps.grown
  have leads' := grown.leads leads
  have reading := Module.reading_of_read read
  have reading' := Module.reading_of_read
    ((Module.read_eq grown sound plain leads unaffected.layers).trans read)
  have outlines : Detector.outlines s' m = Detector.outlines s m := by
    rw [reading.outlines sound plain leads, reading'.outlines grown.sound plain leads',
      Module.outlined_eq keeps sound written leads]
  refine ofModule_congr fun detector listed => ?_
  rw [all] at listed
  simp only [Detector.standard, List.mem_cons, List.not_mem_nil, or_false] at listed
  rcases listed with rfl | rfl | rfl | rfl
  · rfl
  · exact Detector.nullResults_congr rfl outlines
  · exact Detector.coreReturnTypes_congr rfl rfl rfl outlines
  · refine Detector.missingWrappers_congr rfl rfl fun _ => ?_
    rw [reading.path]
    have other := RepairContext.descriptorName_ne_up
    have descriptor := unaffected.descriptor
    refine ⟨Module.exists_descriptor_eq grown sound leads fun absent => descriptor.trans absent,
      grown.readText_child leads other descriptor, fun part listed => ?_⟩
    have direct := Detector.direct_part listed leads
    have old := unaffected.parts part listed
    rw [← Detector.location_part listed leads] at old
    exact ⟨grown.exists_eq sound direct old,
      grown.isDirectory_eq sound direct fun absent => by simp [old absent]⟩

/-- The same is reported of a directory that is not affected. -/
theorem ofDirectory_eq (all : scan.detectors = Detector.standard coreTypes)
    (unaffected : Unaffected s s' (s.location d)) :
    Module.read? s' d = Module.read? s d ∧ scan.ofDirectory s' d = scan.ofDirectory s d := by
  have grown := keeps.grown
  have same : Module.read? s' d = Module.read? s d := by
    unfold Module.read?
    rw [Module.exists_descriptor_eq grown sound leads fun absent =>
      unaffected.descriptor.trans absent, Module.read_eq grown sound plain leads unaffected.layers]
  refine ⟨same, ?_⟩
  unfold ofDirectory Module.at?
  rw [same]
  cases read : Module.read? s d with
  | error f => rfl
  | ok found =>
    cases found with
    | none => rfl
    | some m =>
      have found : Module.at? s d = some m := by rw [Module.at?, read]
      exact ofModule_eq keeps sound written plain leads all unaffected (Module.read_of_at? found).2

omit keeps written in
/-- What is reported of a directory was found in its module. -/
theorem finding_of_ofDirectory (all : scan.detectors = Detector.standard coreTypes) {v : Violation}
    (member : v ∈ scan.ofDirectory s d) :
    ∃ m, Module.at? s d = some m ∧ Detector.Finding s d m v := by
  unfold ofDirectory at member
  cases found : Module.at? s d with
  | none =>
    rw [found] at member
    cases member
  | some m =>
    rw [found] at member
    have reading := Module.reading_of_read (Module.read_of_at? found).2
    exact ⟨m, rfl, finding_of_mem all (reading.outlines sound plain leads) member⟩

/-- Of a directory that is not affected the same is reported, so all of it is kept where none of it
was to go. -/
theorem ofDirectory_filter (all : scan.detectors = Detector.standard coreTypes)
    (unaffected : Unaffected s s' (s.location d)) {gone : Violation → Prop} [DecidablePred gone]
    (spared : ∀ m v, Module.at? s d = some m → Detector.Finding s d m v → ¬gone v) :
    Module.read? s' d = Module.read? s d ∧
      scan.ofDirectory s' d = (scan.ofDirectory s d).filter fun v => !decide (gone v) := by
  obtain ⟨read, found⟩ := ofDirectory_eq keeps sound written plain leads all unaffected
  refine ⟨read, found.trans (List.filter_eq_self.mpr fun v member => ?_).symm⟩
  obtain ⟨m, there, finding⟩ := finding_of_ofDirectory sound plain leads all member
  simp [spared m v there finding]

omit keeps sound written plain leads in
/-- What a detector finds as before is kept where none of it was to go. -/
theorem reports_filter {detector : Detector} {m m' : Module}
    (same : detector.detect s' m' = detector.detect s m) {gone : Violation → Prop}
    [DecidablePred gone]
    (spared : ∀ found, detector.detect s m = .ok found → ∀ v ∈ found, ¬gone v) :
    scan.reports s' m' detector =
      (scan.reports s m detector).filter fun v => !decide (gone v) := by
  have kept : ∀ v ∈ scan.reports s m detector, (!decide (gone v)) = true := by
    intro v member
    obtain ⟨_, found, run, inside⟩ := mem_reports member
    simp [spared found run v inside]
  rw [List.filter_eq_self.mpr kept, reports, reports, same]

/-- A repair of one directory takes what it repairs from the findings and adds none, if it does not
affect the others and nothing is reported of the new ones. -/
theorem findings_of_repaired {gone : Violation → Prop} [DecidablePred gone]
    (all : scan.detectors = Detector.standard coreTypes)
    (readable : ∀ e ∈ Module.directories s d, Module.read? s e = .ok (Module.at? s e))
    (names : List Text)
    (repaired : (∃ found, Module.read? s' ⟨d.anchor, d.names ++ names⟩ = .ok found) ∧
      scan.ofDirectory s' ⟨d.anchor, d.names ++ names⟩ =
        (scan.ofDirectory s ⟨d.anchor, d.names ++ names⟩).filter fun v => !decide (gone v))
    (others : ∀ names', Module.Listed s d names' → names' ≠ names →
      Unaffected s s' (s.location d ++ names') ∧
        ∀ m v, Module.at? s ⟨d.anchor, d.names ++ names'⟩ = some m →
          Detector.Finding s ⟨d.anchor, d.names ++ names'⟩ m v → ¬gone v)
    (new : ∀ names', Module.Listed s' d names' → s.tree.at? (s.location d ++ names') = none →
      (∃ found, Module.read? s' ⟨d.anchor, d.names ++ names'⟩ = .ok found) ∧
        scan.ofDirectory s' ⟨d.anchor, d.names ++ names'⟩ = []) :
    (∃ modules, Module.discover s' d = .ok modules) ∧
      scan.findings s' d = (scan.findings s d).filter fun v => !decide (gone v) := by
  have old (names' : List Text) (listed : Module.Listed s d names') :
      (∃ found, Module.read? s' ⟨d.anchor, d.names ++ names'⟩ = .ok found) ∧
      scan.ofDirectory s' ⟨d.anchor, d.names ++ names'⟩ =
        (scan.ofDirectory s ⟨d.anchor, d.names ++ names'⟩).filter fun v => !decide (gone v) := by
    by_cases same : names' = names
    · rwa [same]
    · have read := readable _ ((Module.mem_directories_iff leads).mpr ⟨names', listed, rfl⟩)
      obtain ⟨unaffected, spared⟩ := others names' listed same
      rw [← listed.location written leads] at unaffected
      obtain ⟨read', found⟩ := ofDirectory_filter keeps sound written (listed.plain written plain)
        (listed.leads sound written leads read) all unaffected spared
      exact ⟨⟨_, read'.trans read⟩, found⟩
  constructor
  · exact discover_of_extends keeps.grown leads (fun names' listed => (old names' listed).1)
      fun names' listed absent => (new names' listed absent).1
  · exact findings_of_extends keeps.grown leads (fun names' listed => (old names' listed).2)
      fun names' listed absent => (new names' listed absent).2

end Scan

end Layering
