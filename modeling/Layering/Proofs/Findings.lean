import Layering.Proofs.RepeatedRepairs
import Layering.Proofs.Scans
import Layering.Proofs.Targets

/-!
# Findings

What the detectors find in the module of a directory, and which entries of the tree it depends on: the
descriptor, the directories of the layers, the sources, and the parts of the wrapper.
-/

namespace Layering

open Site

theorem Path.div_ofText {d : Path} {name : Text} (plain : Path.PlainName name) :
    d / Path.ofText name = d.child name := by
  have read : Path.ofText name = ⟨.here, [name]⟩ := by
    have back := Path.ofText_text (p := ⟨.here, [name]⟩) (by simpa [Path.Plain] using plain)
    rwa [show Path.text ⟨.here, [name]⟩ = name by simp [Path.text, Path.Anchor.text, Path.joinNames]]
      at back
  rw [read]
  rfl

/-! ### Sources -/

namespace Site

variable {s s' : Site} {p : Path} {l : Location}

/-- The sources below a directory, apart from those that only describe a package. -/
def sourcesBelow (s : Site) (p : Path) : List Path :=
  ((s.fileNamesBelow (s.location p) sourceEnding).map fun names =>
    ⟨p.anchor, p.names ++ names⟩).filter (·.name ≠ packageInfoName)

theorem fileNamesBelow_eq_nil (sound : s.tree.Sound) (leaf : s.tree.at? l ≠ some .directory)
    (ending : Text) : s.fileNamesBelow l ending = [] := by
  refine List.eq_nil_iff_forall_not_mem.mpr fun names member => ?_
  obtain ⟨inner, ⟨bytes, mode, entry⟩, _⟩ := mem_fileNamesBelow_iff.mp member
  rw [sound.below leaf (List.prefix_append ..) (by simpa using inner)] at entry
  cases entry

theorem sourcesBelow_eq_nil (sound : s.tree.Sound) (leaf : s.entryAt p ≠ some .directory) :
    s.sourcesBelow p = [] := by
  rw [sourcesBelow, fileNamesBelow_eq_nil sound leaf]
  rfl

/-- A tree has the sources of another, and new are only such as describe a package. -/
structure KeepsSources (s s' : Site) : Prop where
  grown : s.Extends s'
  kept : ∀ l bytes mode, sourceEnding.isSuffixOf (l.getLast?.getD []) = true →
    s.tree.at? l = some (.file bytes mode) → s'.tree.at? l = s.tree.at? l
  new : ∀ l bytes mode, sourceEnding.isSuffixOf (l.getLast?.getD []) = true →
    s.tree.at? l = none → s'.tree.at? l = some (.file bytes mode) →
      l.getLast? = some packageInfoName

/-- Files that are due keep the sources if none of them is a source, but for new ones that describe a
package. -/
theorem Pending.keepsSources {due : Location → Prop} (pending : s.Pending s' due)
    (aside : ∀ l, due l → sourceEnding.isSuffixOf (l.getLast?.getD []) = true →
      s.tree.at? l = none ∧ l.getLast? = some packageInfoName) : s.KeepsSources s' where
  grown := pending.extends
  kept l bytes mode ends file :=
    pending.tree.kept_of_not_due (by simp [file]) fun here => by
      cases file.symm.trans (aside l here ends).1
  new l bytes mode ends absent file := (aside l (pending.tree.files l bytes mode absent file) ends).2

theorem getLast?_append_names {l names : List Text} (inner : names ≠ []) :
    (l ++ names).getLast? = names.getLast? := List.getLast?_append_of_ne_nil _ inner

namespace KeepsSources

variable (keeps : s.KeepsSources s')
include keeps

theorem sourcesBelow (p : Path) : s'.sourcesBelow p = s.sourcesBelow p := by
  have kept (names : List Text) :
      (decide ((⟨p.anchor, p.names ++ names⟩ : Path).name ≠ packageInfoName) = true) ↔
        (p.names ++ names).getLast?.getD [] ≠ packageInfoName := decide_eq_true_iff
  unfold Site.sourcesBelow
  rw [List.filter_map, List.filter_map, keeps.grown.location]
  congr 1
  refine Location.eq_of_mem_iff ((s'.pairwise_fileNamesBelow ..).filter _)
    ((s.pairwise_fileNamesBelow ..).filter _) fun names => ?_
  rw [List.mem_filter, List.mem_filter, mem_fileNamesBelow_iff, mem_fileNamesBelow_iff,
    Function.comp_apply, kept]
  refine and_congr_left fun other => and_congr_right fun inner => and_congr_left fun ends => ?_
  have last := getLast?_append_names (l := s.location p) inner
  rw [← last] at ends
  constructor
  · rintro ⟨bytes, mode, file⟩
    -- A file that is new ends otherwise than a source, so the listed ones were there before.
    cases entry : s.tree.at? (s.location p ++ names) with
    | none =>
      have new := keeps.new _ bytes mode ends entry file
      rw [last] at new
      rw [getLast?_append_names inner, new] at other
      exact absurd rfl other
    | some e =>
      cases e with
      | directory => cases (keeps.grown.opens _ entry).symm.trans file
      | file old mode' => exact ⟨old, mode', rfl⟩
  · rintro ⟨bytes, mode, entry⟩
    exact keeps.grown.files _ bytes mode entry

end KeepsSources

theorem answered_of_locate (short : s.locate p ≠ .error .nameTooLong) :
    ∃ entry, s.entryOf? p = .ok entry := by
  rcases s.entryOf?_cases p with ⟨_, asked⟩ | ⟨_, _, _, asked⟩ | ⟨long, _⟩
  · exact ⟨_, asked⟩
  · exact ⟨_, asked⟩
  · exact absurd long short

/-- What is found at the same place and is the same is read the same. -/
theorem readText_congr (located : s'.locate p = s.locate p)
    (same : s'.tree.at? (s.location p) = s.tree.at? (s.location p)) : s'.readText p = s.readText p := by
  unfold Site.readText Site.readBytes
  rw [read_congr located same]

namespace Extends

variable (grown : s.Extends s')
include grown

/-- A file that is the same is read the same. -/
theorem readText_eq (sound : s.tree.Sound) {base : Location} {rest : List Text}
    (way : s.Way p base rest) (there : s.entryAt p ≠ none)
    (same : s'.tree.at? (s.location p) = s.tree.at? (s.location p)) :
    s'.readText p = s.readText p := by
  refine readText_congr ?_ same
  rw [(way.of_opens grown.opens grown.place).locate, way.locate]
  refine Tree.follow_congr fun k => ?_
  have forward : upName ∉ rest.take k := fun up => way.forward (List.mem_of_mem_take up)
  rw [Location.walk_eq_append forward]
  have part : base ++ rest.take k <+: s.location p := by
    rw [way.location]
    exact (List.prefix_append_right_inj base).mpr (List.take_prefix ..)
  by_cases whole : base ++ rest.take k = s.location p
  · rw [whole, same]
  · have open_ := sound.above there part whole
    rw [open_, grown.opens _ open_]

/-- What a directory holds by a name is read the same if it is the same. -/
theorem readText_child (leads : s.LeadsToDirectory p) {name : Text} (other : name ≠ upName)
    (same : s'.tree.at? (s.location p ++ [name]) = s.tree.at? (s.location p ++ [name])) :
    s'.readText (p.child name) = s.readText (p.child name) := by
  have forward : upName ∉ [name] := by simpa using Ne.symm other
  have way := leads.way.append forward
  have place : s.location (p.child name) = s.location p ++ [name] := way.location
  refine readText_congr ?_ (by rw [place, same])
  change s'.locate ⟨p.anchor, p.names ++ [name]⟩ = s.locate ⟨p.anchor, p.names ++ [name]⟩
  rw [(way.of_opens grown.opens grown.place).locate, way.locate]
  refine Tree.follow_congr fun k => ?_
  cases k with
  | zero => exact (grown.opens _ leads.2).trans leads.2.symm
  | succ k =>
    rw [List.nil_append, List.take_of_length_le (by simp), Location.walk_eq_append
      (by simpa using Ne.symm other), same]

end Extends

end Site

/-! ### Modules -/

theorem dash_mem_moduleName (component layer : Text) : '-' ∈ moduleName component layer :=
  List.mem_append_right _ List.mem_cons_self

theorem ne_of_dash {name other : Text} (dash : '-' ∈ name) (plain : '-' ∉ other) : name ≠ other :=
  fun same => plain (same ▸ dash)

theorem Path.slash_not_mem_name {d : Path} (plain : d.Plain) : '/' ∉ d.name := by
  unfold Path.name
  cases last : d.names.getLast? with
  | none => exact List.not_mem_nil
  | some name => exact (plain name (List.mem_of_getLast? last)).2.2

theorem plainName_moduleName {d : Path} (plain : d.Plain) {layer : Text} (single : '/' ∉ layer) :
    Path.PlainName (moduleName (componentName d.name) layer) := by
  have dash := dash_mem_moduleName (componentName d.name) layer
  refine ⟨List.ne_nil_of_mem dash, ne_of_dash dash (by decide), ?_⟩
  refine List.not_mem_append (fun slash => ?_) (by simpa using single)
  exact Path.slash_not_mem_name plain (Scaffolding.mem_of_mem_componentName slash)

theorem flatMap_filter {α β : Type} {p : α → Bool} {f : α → List β} {xs : List α}
    (nothing : ∀ x ∈ xs, p x = false → f x = []) : (xs.filter p).flatMap f = xs.flatMap f := by
  induction xs with
  | nil => rfl
  | cons x xs ih =>
    obtain ⟨first, later⟩ := List.forall_mem_cons.mp nothing
    cases kept : p x with
    | true => rw [List.filter_cons_of_pos kept, List.flatMap_cons, List.flatMap_cons, ih later]
    | false =>
      rw [List.filter_cons_of_neg (by simp [kept]), List.flatMap_cons, first kept, ih later]
      rfl

theorem anyM_singleton {ε α : Type} (f : α → Except ε Bool) (x : α) : [x].anyM f = f x := by
  rw [List.anyM]
  cases f x with
  | error e => rfl
  | ok b => cases b <;> rfl

theorem moduleName_ne_up (component layer : Text) : moduleName component layer ≠ upName :=
  ne_of_dash (dash_mem_moduleName component layer) (by decide)

theorem div_sourceDirectory (d : Path) :
    d / sourceDirectory = ⟨d.anchor, d.names ++ sourceDirectory.names⟩ := by
  have relative : sourceDirectory.isAbsolute = false := by decide
  simp [HDiv.hDiv, Div.div, Path.join, relative]

theorem sourceDirectory_forward : upName ∉ sourceDirectory.names := by decide

namespace Site

variable {s : Site} {d : Path} {name : Text}

theorem LeadsToDirectory.direct (leads : s.LeadsToDirectory d) : s.Direct d := direct_of_leads leads

theorem LeadsToDirectory.location_child (leads : s.LeadsToDirectory d) (other : name ≠ upName) :
    s.location (d.child name) = s.location d ++ [name] := leads.direct.location_child other

/-- Whether a name in a directory is that of another is a question of its entry, unless the name is
too long. -/
theorem LeadsToDirectory.isDirectory_child (leads : s.LeadsToDirectory d) (sound : s.tree.Sound)
    (other : name ≠ upName) : s.isDirectory? (d.child name) =
      if maxNameSize < nameSize name then .error (.nameTooLong (d.child name))
      else .ok (decide (s.tree.at? (s.location d ++ [name]) = some .directory)) := by
  split
  next long =>
    have located : s.locate (d.child name) = .error .nameTooLong := by
      have names : (d.child name).names = d.names ++ [name] := rfl
      rw [ follow_prefix names leads.1]
      simp [Tree.follow, Tree.isDirectory_iff.mpr leads.2, other, long]
    rw [isDirectory?, entryOf?_of_tooLong located]
    rfl
  next short =>
    rw [(leads.direct.child other (Nat.le_of_not_lt short)).isDirectory? sound, entryAt,
      leads.location_child other]

theorem LeadsToDirectory.location_append (leads : s.LeadsToDirectory d) {more : List Text}
    (forward : upName ∉ more) : s.location ⟨d.anchor, d.names ++ more⟩ = s.location d ++ more :=
  (leads.way.append forward).location

/-- There are no sources in a directory that is not there. -/
theorem LeadsToDirectory.not_directory_below (leads : s.LeadsToDirectory d) (sound : s.tree.Sound)
    (other : name ≠ upName) (missing : s.isDirectory? (d.child name) = .ok false) :
    s.entryAt (d.child name / sourceDirectory) ≠ some .directory := by
  rw [leads.isDirectory_child sound other] at missing
  split at missing
  · cases missing
  have leaf : s.tree.at? (s.location d ++ [name]) ≠ some .directory := by
    simpa using missing
  have forward : upName ∉ name :: sourceDirectory.names := fun up =>
    (List.mem_cons.mp up).elim (fun same => other same.symm) sourceDirectory_forward
  have place : s.location (d.child name / sourceDirectory) =
      s.location d ++ [name] ++ sourceDirectory.names := by
    rw [div_sourceDirectory, Path.child, List.append_assoc, List.append_assoc]
    exact leads.location_append forward
  have deep : sourceDirectory.names ≠ [] := by decide
  rw [entryAt, place, sound.below leaf (List.prefix_append ..) (by simpa using deep)]
  exact (Option.some_ne_none _).symm

end Site

namespace Module

variable {s : Site} {d : Path} {m : Module}

/-- What is known of a module that was read. -/
structure Reading (s : Site) (d : Path) (m : Module) : Prop where
  component : m.component = componentName d.name
  path : m.path = d
  layers : Layer.all.filterM (fun layer => (layerDirectories m.component layer).anyM fun name =>
    s.isDirectory? (d / Path.ofText name)) = .ok m.layers

theorem reading_of_read (read : read s d = .ok m) : Reading s d m := by
  obtain ⟨layers, asked, made⟩ := Except.bind_eq_ok read
  cases made
  exact ⟨rfl, rfl, asked⟩

theorem mem_all (layer : Layer) : layer ∈ Layer.all := by cases layer <;> decide

theorem hasLayers_of_has {layer : Layer} (has : m.has layer = true) : m.hasLayers = true := by
  unfold Module.has at has
  rw [hasLayers, decide_eq_true_iff]
  rintro none
  rw [none] at has
  cases has

namespace Reading

variable (reading : Reading s d m)
include reading

theorem asked (layer : Layer) : (layerDirectories m.component layer).anyM (fun name =>
    s.isDirectory? (d / Path.ofText name)) = .ok (m.has layer) := by
  obtain ⟨kept, answered⟩ := WrapperFiles.mem_of_filterM reading.layers
  obtain ⟨b, answer⟩ := answered layer (mem_all layer)
  rw [answer, has]
  cases b with
  | true => simp [(kept layer).mpr ⟨mem_all layer, answer⟩]
  | false =>
    have out : layer ∉ m.layers := fun listed => by
      cases answer.symm.trans ((kept layer).mp listed).2
    simp [out]

theorem submodule_eq (plain : d.Plain) (layer : Layer) : m.submodule layer.name =
    d.child (moduleName (componentName d.name) layer.name) := by
  have single : '/' ∉ layer.name := by cases layer <;> decide
  rw [submodule, reading.component, reading.path]
  exact Path.div_ofText (plainName_moduleName plain single)

/-- A module has a layer with sources where its directory is. -/
theorem has_iff {layer : Layer} (sourced : layer ∈ Layer.withSources) :
    s.isDirectory? (m.submodule layer.name) = .ok (m.has layer) := by
  have single : '/' ∉ layer.name := by cases layer <;> decide
  have asked := reading.asked layer
  have one : layerDirectories m.component layer = [moduleName m.component layer.name] := by
    cases layer with
    | util => exact absurd sourced (by decide)
    | _ => rfl
  rw [one, anyM_singleton] at asked
  rw [← asked, submodule, reading.path]
  rfl

end Reading

/-- The sources of the module in a directory. -/
def sources (s : Site) (d : Path) : List Path :=
  (d :: Layer.withSources.map fun layer =>
    d.child (moduleName (componentName d.name) layer.name)).flatMap fun root =>
      s.sourcesBelow (root / sourceDirectory)

theorem direct_sourceDirectory (direct : s.Direct d) : s.Direct (d / sourceDirectory) := by
  have chain : d / sourceDirectory = ((d.child "src").child "main").child "java" := by
    have read : sourceDirectory.names = ["src".toList, "main".toList, "java".toList] := by
      decide
    rw [div_sourceDirectory, read]
    simp [Path.child]
  rw [chain]
  refine Direct.child (Direct.child (direct.child ?_ ?_) ?_ ?_) ?_ ?_ <;> decide

/-- The sources of a module are found. -/
theorem Reading.sourceFiles (reading : Reading s d m) (sound : s.tree.Sound) (plain : d.Plain)
    (leads : s.LeadsToDirectory d) : m.sourceFiles s = .ok (sources s d) := by
  have roots : m.path :: (Layer.withSources.filter m.has).map (fun layer => m.submodule layer.name) =
      d :: (Layer.withSources.filter m.has).map fun layer =>
        d.child (moduleName (componentName d.name) layer.name) := by
    rw [reading.path]
    refine congrArg (d :: ·) (List.map_congr_left fun layer _ => reading.submodule_eq plain layer)
  have direct : ∀ p ∈ d :: (Layer.withSources.filter m.has).map (fun layer =>
      d.child (moduleName (componentName d.name) layer.name)), s.Direct p := by
    refine List.forall_mem_cons.mpr ⟨leads.direct, fun p listed => ?_⟩
    obtain ⟨layer, kept, rfl⟩ := List.mem_map.mp listed
    obtain ⟨sourced, has⟩ := List.mem_filter.mp kept
    have there := reading.has_iff sourced
    rw [has, reading.submodule_eq plain] at there
    exact (leads_of_isDirectory there).direct
  set roots' := d :: (Layer.withSources.filter m.has).map fun layer =>
    d.child (moduleName (componentName d.name) layer.name) with listed
  have found : sourceRoots s m = .ok ((roots'.map (· / sourceDirectory)).filter fun p =>
      decide (s.entryAt p = some .directory)) := by
    unfold sourceRoots
    simp only
    rw [roots]
    refine filterM_eq_ok fun p member => ?_
    obtain ⟨root, inside, rfl⟩ := List.mem_map.mp member
    exact (direct_sourceDirectory (direct root inside)).isDirectory? sound
  unfold Module.sourceFiles
  rw [found]
  simp only [bind, Except.bind]
  rw [mapM_eq_ok (g := fun p => (s.fileNamesBelow (s.location p) sourceEnding).map fun names =>
    (⟨p.anchor, p.names ++ names⟩ : Path)) fun p member => ?_]
  · simp only
    refine congrArg Except.ok ?_
    rw [← List.flatMap_def, List.filter_flatMap]
    change List.flatMap s.sourcesBelow _ = _
    rw [flatMap_filter fun p _ leaf => sourcesBelow_eq_nil sound (by simpa using leaf),
      List.flatMap_map, listed, sources, List.flatMap_cons, List.flatMap_cons, List.flatMap_map,
      List.flatMap_map]
    refine congrArg (_ ++ ·) (flatMap_filter fun layer sourced missing => ?_)
    -- Where a layer is missing there are no sources of it.
    have there := reading.has_iff sourced
    rw [missing, reading.submodule_eq plain] at there
    exact sourcesBelow_eq_nil sound (leads.not_directory_below sound (moduleName_ne_up _ _) there)
  · obtain ⟨_, open_⟩ := List.mem_filter.mp member
    obtain ⟨root, inside, rfl⟩ := List.mem_map.mp (List.mem_of_mem_filter member)
    refine filesBelow_of_leads ?_ sourceEnding
    have way := direct_sourceDirectory (direct root inside)
    refine ⟨way.locate sound ?_, of_decide_eq_true open_⟩
    rw [of_decide_eq_true open_]
    nofun

end Module

namespace Module

variable {s s' : Site} {d file : Path} {m m' : Module}

/-- A source of a module is a file below the directory of the sources of one of its layers. -/
theorem mem_sources (written : s.tree.Written) (leads : s.LeadsToDirectory d)
    (member : file ∈ sources s d) : ∃ front rest,
      (front = [] ∨ ∃ layer ∈ Layer.withSources,
        front = [moduleName (componentName d.name) layer.name]) ∧
      file = ⟨d.anchor, d.names ++ (front ++ sourceDirectory.names ++ rest)⟩ ∧
      upName ∉ front ++ sourceDirectory.names ++ rest ∧
      (∃ bytes mode, s.tree.at? (s.location d ++ (front ++ sourceDirectory.names ++ rest)) =
        some (.file bytes mode)) ∧ sourceEnding.isSuffixOf (rest.getLast?.getD []) = true := by
  obtain ⟨root, listed, member⟩ := List.mem_flatMap.mp member
  obtain ⟨front, kind, rfl⟩ : ∃ front, (front = [] ∨ ∃ layer ∈ Layer.withSources,
      front = [moduleName (componentName d.name) layer.name]) ∧
        root = ⟨d.anchor, d.names ++ front⟩ := by
    rcases List.mem_cons.mp listed with rfl | submodule
    · exact ⟨[], .inl rfl, by simp⟩
    · obtain ⟨layer, sourced, rfl⟩ := List.mem_map.mp submodule
      exact ⟨_, .inr ⟨layer, sourced, rfl⟩, rfl⟩
  obtain ⟨names, listed, rfl⟩ := List.mem_map.mp (List.mem_of_mem_filter member)
  obtain ⟨_, ⟨bytes, mode, entry⟩, ends⟩ := mem_fileNamesBelow_iff.mp listed
  -- No name of a file that was written leads up.
  have forward : upName ∉ front ++ sourceDirectory.names := by
    refine List.not_mem_append (fun up => ?_) sourceDirectory_forward
    rcases kind with rfl | ⟨layer, _, rfl⟩
    · cases up
    · exact moduleName_ne_up _ _ (List.mem_singleton.mp up).symm
  rw [div_sourceDirectory, List.append_assoc, leads.location_append forward,
    List.append_assoc] at entry
  have further : upName ∉ names := fun up =>
    (written _ (by rw [entry]; nofun) upName
      (List.mem_append_right _ (List.mem_append_right _ up))).2 rfl
  refine ⟨front, names, kind, ?_, List.not_mem_append forward further, ⟨bytes, mode, entry⟩, ends⟩
  rw [div_sourceDirectory]
  simp

/-- The sources of a module with their outlines, apart from those that have none. -/
def outlined (s : Site) (files : List Path) : List (Path × Java.Outline) :=
  files.filterMap fun file =>
    match Detector.outline s file with
    | .ok o => some (file, o)
    | .error _ => none

theorem Reading.outlines (reading : Reading s d m) (sound : s.tree.Sound) (plain : d.Plain)
    (leads : s.LeadsToDirectory d) : Detector.outlines s m = .ok (outlined s (sources s d)) := by
  unfold Detector.outlines
  rw [reading.sourceFiles sound plain leads]
  rfl

/-- A tree that keeps the sources keeps the outlines of a module. -/
theorem outlined_eq (keeps : s.KeepsSources s') (sound : s.tree.Sound)
    (written : s.tree.Written) (leads : s.LeadsToDirectory d) :
    outlined s' (sources s' d) = outlined s (sources s d) := by
  have same : sources s' d = sources s d := by
    unfold sources
    simp only [keeps.sourcesBelow]
  rw [same]
  refine List.filterMap_congr fun file member => ?_
  obtain ⟨front, rest, _, rfl, forward, ⟨bytes, mode, entry⟩, ends⟩ :=
    mem_sources written leads member
  have way := leads.way.append forward
  rw [← leads.location_append forward] at entry
  have last : sourceEnding.isSuffixOf ((s.location ⟨d.anchor, d.names ++ (front ++
      sourceDirectory.names ++ rest)⟩).getLast?.getD []) = true := by
    have inner : rest ≠ [] := by
      rintro rfl
      revert ends
      decide
    rw [leads.location_append forward, ← List.append_assoc, List.getLast?_append_of_ne_nil _ inner]
    exact ends
  have text := keeps.grown.readText_eq sound way (by rw [entryAt, entry]; exact Option.some_ne_none _)
    (keeps.kept _ bytes mode last entry)
  simp only [Detector.outline, text]

end Module

/-! ### Detectors -/

namespace Detector

variable {s s' : Site} {m m' : Module} {d : Path} {v : Violation}

theorem nullResults_congr (layers : m'.hasLayers = m.hasLayers)
    (outlines : Detector.outlines s' m' = Detector.outlines s m) :
    nullResults.detect s' m' = nullResults.detect s m := by
  unfold nullResults
  simp only
  rw [layers, outlines]

theorem coreReturnTypes_congr {listed : List Text} (component : m'.component = m.component)
    (path : m'.path = m.path) (facade : m'.has .facade = m.has .facade)
    (outlines : Detector.outlines s' m' = Detector.outlines s m) :
    (coreReturnTypes listed).detect s' m' = (coreReturnTypes listed).detect s m := by
  have submodule : m'.submodule Layer.facade.name = m.submodule Layer.facade.name := by
    rw [Module.submodule, Module.submodule, component, path]
  unfold coreReturnTypes
  simp only
  rw [facade, outlines, submodule]

/-- What the installation of a wrapper may lack. -/
def parts : List Text := [Wrapper.script, Wrapper.batchScript, Wrapper.properties, Wrapper.directory]

theorem mem_parts {artifact : Text} {hasDirectory : Bool} {x : Text × Text}
    (listed : x ∈ wrapperParts artifact hasDirectory) : x.1 ∈ parts := by
  rcases List.mem_cons.mp listed with rfl | listed
  · exact List.mem_cons_self
  rcases List.mem_cons.mp listed with rfl | listed
  · exact List.mem_cons_of_mem _ List.mem_cons_self
  · rw [List.mem_singleton.mp listed]
    cases hasDirectory with
    | true => exact List.mem_cons_of_mem _ (List.mem_cons_of_mem _ List.mem_cons_self)
    | false => exact List.mem_of_getLast? rfl

theorem missingWrappers_congr (same : m'.path = m.path) (layers : m'.hasLayers = m.hasLayers)
    (there : m.hasLayers = false →
      s'.exists? (m.path.child descriptorName) = s.exists? (m.path.child descriptorName) ∧
      s'.readText (m.path.child descriptorName) = s.readText (m.path.child descriptorName) ∧
      ∀ part ∈ parts, s'.exists? (m.path / Path.ofText part) = s.exists? (m.path / Path.ofText part) ∧
        s'.isDirectory? (m.path / Path.ofText part) = s.isDirectory? (m.path / Path.ofText part)) :
    missingWrappers.detect s' m' = missingWrappers.detect s m := by
  unfold missingWrappers
  simp only [layers, same]
  cases several : m.hasLayers with
  | true => rfl
  | false =>
    obtain ⟨descriptor, text, part⟩ := there several
    have directory := (part Wrapper.directory (List.mem_of_getLast? rfl)).2
    simp only [descriptor, text, directory]
    -- Every part that is asked about is among those that agree.
    have missing (artifact : Text) (hasDirectory : Bool) :
        (wrapperParts artifact hasDirectory).filterM (fun x => do
          return !(← (s'.exists? (m.path / Path.ofText x.1)).mapError Failure.fault)) =
        (wrapperParts artifact hasDirectory).filterM (fun x => do
          return !(← (s.exists? (m.path / Path.ofText x.1)).mapError Failure.fault)) :=
      filterM_congr fun x listed => by simp only [(part x.1 (mem_parts listed)).1]
    have part_eq : missingPart m' = missingPart m := by
      unfold missingPart
      rw [same]
    simp only [missing, part_eq]

/-- What the detectors may find in the module of a directory. -/
inductive Finding (s : Site) (d : Path) (m : Module) : Violation → Prop
  | layer {rule : Text} {layer : Layer} (required : (rule, layer) ∈ Rule.requiredLayers)
    (several : m.hasLayers = true) (lacking : m.has layer = false) :
    Finding s d m (missingLayer m rule layer)
  | source {v : Violation} {file : Path} (several : m.hasLayers = true)
    (listed : file ∈ Module.sources s d) (at_ : v.location = file.text)
    (rule : v.rule = Rule.nullResult ∨ v.rule = Rule.facadeReturnType) : Finding s d m v
  | part {part message descriptor : Text} (single : m.hasLayers = false) (listed : part ∈ parts)
    (read : s.readText (m.path.child descriptorName) = .ok descriptor)
    (aggregator : Descriptor.isAggregator descriptor = true)
    (missing : s.exists? (m.path / Path.ofText part) = .ok false) :
    Finding s d m (missingPart m part message)

theorem mem_outlined {files : List Path} {x : Path × Java.Outline}
    (member : x ∈ Module.outlined s files) : x.1 ∈ files := by
  obtain ⟨file, listed, outline⟩ := List.mem_filterMap.mp member
  split at outline
  · cases outline
    exact listed
  · cases outline

theorem mem_orNothing {found : Except Failure (List Violation)} {violations : List Violation}
    (run : orNothing found = .ok violations) (member : v ∈ violations) :
    ∃ violations, found = .ok violations ∧ v ∈ violations := by
  cases run
  cases found with
  | ok violations => exact ⟨violations, rfl, member⟩
  | error e => cases member

section

variable {found : List Violation}
variable (outlines : Detector.outlines s m = .ok (Module.outlined s (Module.sources s d)))
include outlines

theorem finding_of_nullResults (run : nullResults.detect s m = .ok found) (member : v ∈ found) :
    Finding s d m v ∧ v.rule = Rule.nullResult := by
  obtain ⟨found, run, member⟩ := mem_orNothing run member
  rw [outlines] at run
  cases several : m.hasLayers with
  | false =>
    rw [several] at run
    cases run
    cases member
  | true =>
    rw [several] at run
    cases run
    obtain ⟨x, listed, inside⟩ := List.mem_flatMap.mp member
    obtain ⟨type, _, made⟩ := List.mem_filterMap.mp inside
    split at made
    · obtain ⟨_, _, rfl⟩ := Option.map_eq_some_iff.mp made
      exact ⟨.source several (mem_outlined listed) rfl (.inl rfl), rfl⟩
    · cases made

theorem finding_of_coreReturnTypes {listed : List Text}
    (run : (coreReturnTypes listed).detect s m = .ok found) (member : v ∈ found) :
    Finding s d m v ∧ v.rule = Rule.facadeReturnType := by
  obtain ⟨found, run, member⟩ := mem_orNothing run member
  simp only at run
  rw [outlines] at run
  cases facade : m.has .facade with
  | false =>
    rw [facade] at run
    cases run
    cases member
  | true =>
    rw [facade] at run
    cases run
    obtain ⟨x, listed, inside⟩ := List.mem_flatMap.mp member
    split at inside
    · obtain ⟨type, _, inside⟩ := List.mem_flatMap.mp inside
      obtain ⟨method, _, rfl⟩ := List.mem_map.mp inside
      exact ⟨.source (Module.hasLayers_of_has facade) (mem_outlined listed) rfl (.inr rfl), rfl⟩
    · cases inside

end

theorem finding_of_missingLayers {found : List Violation}
    (run : missingLayers.detect s m = .ok found) (member : v ∈ found) : Finding s d m v := by
  unfold missingLayers at run
  cases run
  split at member
  next several =>
    obtain ⟨⟨rule, layer⟩, required, made⟩ := List.mem_filterMap.mp member
    simp only at made
    split at made
    · cases made
    next lacking =>
      cases made
      exact .layer required several (by simpa using lacking)
  next => cases member

theorem finding_of_missingWrappers {found : List Violation}
    (run : missingWrappers.detect s m = .ok found) (member : v ∈ found) :
    Finding s d m v ∧ v.rule = Rule.missingWrapper := by
  obtain ⟨found, run, member⟩ := mem_orNothing run member
  simp only at run
  cases several : m.hasLayers with
  | true =>
    rw [several] at run
    cases run
    cases member
  | false =>
    rw [several] at run
    simp only [Bool.false_eq_true, if_false] at run
    obtain ⟨there, asked, run⟩ := Except.bind_eq_ok run
    split at run
    · cases run
      cases member
    obtain ⟨descriptor, read, run⟩ := Except.bind_eq_ok run
    split at run
    · cases run
      cases member
    next aggregator =>
    obtain ⟨hasDirectory, _, run⟩ := Except.bind_eq_ok run
    obtain ⟨missing, filtered, run⟩ := Except.bind_eq_ok run
    cases run
    obtain ⟨⟨part, message⟩, kept, rfl⟩ := List.mem_map.mp member
    obtain ⟨listed, absent⟩ := ((WrapperFiles.mem_of_filterM filtered).1 _).mp kept
    obtain ⟨b, asked, same⟩ := Except.bind_eq_ok absent
    -- The filter keeps the parts that are not there.
    have out : b = false := by simpa using Except.ok.inj same
    subst out
    exact ⟨.part several (mem_parts listed) read (by simpa using aggregator)
      (Except.mapError_eq_ok asked), rfl⟩

end Detector

namespace Scan

variable {scan : Scan} {s s' : Site} {m m' : Module} {d : Path} {v : Violation}
variable {coreTypes : List Text}

theorem mem_reports {d : Detector} (member : v ∈ scan.reports s m d) :
    scan.wants v.rule = true ∧ ∃ found, d.detect s m = .ok found ∧ v ∈ found := by
  unfold reports at member
  split at member
  next found run =>
    obtain ⟨inside, wanted⟩ := List.mem_filter.mp member
    exact ⟨(Bool.and_eq_true_iff.mp wanted).1, found, run, inside⟩
  next => cases member

/-- What is reported of a module was found there. -/
theorem finding_of_mem (all : scan.detectors = Detector.standard coreTypes)
    (outlines : Detector.outlines s m = .ok (Module.outlined s (Module.sources s d)))
    (member : v ∈ scan.ofModule s m) : Detector.Finding s d m v := by
  obtain ⟨detector, listed, member⟩ := List.mem_flatMap.mp member
  obtain ⟨_, found, run, inside⟩ := mem_reports member
  have listed := List.mem_of_mem_filter listed
  rw [all] at listed
  simp only [Detector.standard, List.mem_cons, List.not_mem_nil, or_false] at listed
  rcases listed with rfl | rfl | rfl | rfl
  · exact Detector.finding_of_missingLayers run inside
  · exact (Detector.finding_of_nullResults outlines run inside).1
  · exact (Detector.finding_of_coreReturnTypes outlines run inside).1
  · exact (Detector.finding_of_missingWrappers run inside).1

/-- The same is reported of a module where each detector finds the same. -/
theorem ofModule_congr (same : ∀ detector ∈ scan.detectors,
    detector.detect s' m' = detector.detect s m) : scan.ofModule s' m' = scan.ofModule s m := by
  refine List.flatMap_congr fun detector listed => ?_
  rw [reports, reports, same detector (List.mem_of_mem_filter listed)]

end Scan

end Layering
