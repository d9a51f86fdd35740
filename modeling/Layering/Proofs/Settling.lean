import Layering.Proofs.Settled

/-!
# Scans after a repair

The repair of a violation that a scan has reported takes it from the report of the next scan and puts
nothing in its place: a missing layer is gained by the module that lacked it, the new module has
nothing to be reported of, and all others are reported as before.
-/

namespace Layering

open Site

theorem Module.eq_of_mem_layerDirectories {component : Text} {layer other : Layer}
    (member : moduleName component other.name ∈ layerDirectories component layer) :
    layer = other := by
  have cancel {x y : Text} : moduleName component x = moduleName component y ↔ x = y := by
    simp [moduleName]
  cases layer <;> cases other <;>
    simp only [layerDirectories, List.mem_cons, cancel, List.not_mem_nil, or_false] at member <;>
    revert member <;> decide

namespace Scaffolding

variable {c : RepairContext} {v : Violation} {s s' : Site} {m : NewModule} {content : Text}
variable {p : Patch}

/-- A layer and the rule that calls for it determine each other. -/
theorem required_unique : ∀ x ∈ Rule.requiredLayers, ∀ y ∈ Rule.requiredLayers,
    (x.1 = y.1 → x = y) ∧ (x.2 = y.2 → x = y) := by decide

theorem required_layer : ∀ x ∈ Rule.requiredLayers,
    x.2 ≠ .util ∧ x.2 ∈ Layer.all ∧ x.2.name ∈ Module.layerEndings ∧ x.1 ≠ Rule.nullResult ∧
      x.1 ≠ Rule.facadeReturnType ∧ x.1 ≠ Rule.missingWrapper ∧ x.2 ≠ .facade := by decide

/-- The new module is of the layer that the rule calls for. -/
theorem newModule?_required (module : newModule? c v s = .ok (some m)) :
    (v.rule, m.layer) ∈ Rule.requiredLayers ∧ m.component = componentName m.root.name := by
  obtain ⟨_, _, known, _, rfl⟩ := newModule?_eq_some_iff.mp module
  exact ⟨Entries.mem_of_get? known, rfl⟩

/-- What is found for the rule of a missing layer is that the module lacks it. -/
theorem layer_of_finding {d : Path} {lacking : Module} {layer : Layer}
    (finding : Detector.Finding s d lacking v) (required : (v.rule, layer) ∈ Rule.requiredLayers) :
    lacking.hasLayers = true ∧ v = Detector.missingLayer lacking v.rule layer := by
  obtain ⟨_, _, _, notNull, notReturn, notWrapper, _⟩ := required_layer _ required
  cases finding with
  | layer required' several =>
    obtain ⟨_, rfl⟩ := Prod.mk.inj ((required_unique _ required' _ required).1 rfl)
    exact ⟨several, rfl⟩
  | source _ _ _ known =>
    rcases known with same | same
    · exact absurd same notNull
    · exact absurd same notReturn
  | part => exact absurd rfl notWrapper

/-- The module that has gained a layer. -/
def gain (layer : Layer) (m : Module) : Module :=
  { m with layers := Layer.all.filter fun l => m.has l || l = layer }

theorem has_gain (layer l : Layer) (m : Module) :
    (gain layer m).has l = (m.has l || decide (l = layer)) := by
  rw [Bool.eq_iff_iff]
  simp [gain, Module.has, Module.mem_all]

@[simp]
theorem hasLayers_gain (layer : Layer) (m : Module) : (gain layer m).hasLayers = true := by
  have has : (gain layer m).has layer = true := by simp [has_gain]
  exact Module.hasLayers_of_has has

/-- What a module lacks after it has gained a layer is the rest of what it lacked. -/
theorem lacking_gain {rule : Text} {layer : Layer} (required : (rule, layer) ∈ Rule.requiredLayers)
    (gained : Module) :
    (Rule.requiredLayers.filterMap fun x => if (gain layer gained).has x.2 then none
        else some (Detector.missingLayer (gain layer gained) x.1 x.2)) =
      (Rule.requiredLayers.filterMap fun x => if gained.has x.2 then none
        else some (Detector.missingLayer gained x.1 x.2)).filter fun w =>
          !decide (w = Detector.missingLayer gained rule layer) := by
  rw [List.filter_filterMap]
  refine List.filterMap_congr fun x listed => ?_
  rw [has_gain]
  by_cases has : gained.has x.2 = true
  · simp [has]
  by_cases same : x.2 = layer
  · obtain rfl := (required_unique x listed _ required).2 same
    simp [has, Option.filter]
  · have other : Detector.missingLayer gained x.1 x.2 ≠ Detector.missingLayer gained rule layer :=
      fun alike => same (congrArg Prod.snd
        ((required_unique x listed _ required).1 (congrArg Violation.rule alike)))
    have alike : Detector.missingLayer (gain layer gained) x.1 x.2 =
        Detector.missingLayer gained x.1 x.2 := rfl
    simp [has, same, other, alike, Option.filter]

section

variable {gained : Module}
variable (sound : s.tree.Sound) (leads : s.LeadsToDirectory m.root) (single : '/' ∉ m.package)
variable (worked : Worked c v s m content p) (applied : p.Applied c s s')
variable (plain : m.root.Plain)
variable {rule : Text} (required : (rule, m.layer) ∈ Rule.requiredLayers)
variable (component : m.component = componentName m.root.name)
variable (found : Module.at? s m.root = some gained)
include sound leads worked applied plain component found

/-- The directory of the new layer is found. -/
theorem asked_new (required : (rule, m.layer) ∈ Rule.requiredLayers) :
    (Module.layerDirectories m.component m.layer).anyM (fun name =>
      s'.isDirectory? (m.root / Path.ofText name)) = .ok true := by
  have leads' := applied.grown.leads leads
  have reading := Module.reading_of_read (Module.read_of_at? found).2
  obtain ⟨other, _, ending, _⟩ := required_layer _ required
  have one : Module.layerDirectories m.component m.layer = [m.name] := by
    unfold Module.layerDirectories
    split
    · contradiction
    · rfl
  have at_ : s'.tree.at? (s'.location m.root ++ [m.name]) = some .directory := by
    rw [← leads'.location_child m.name_ne_up]
    exact (leads_new leads worked applied).2
  have asked := leads'.isDirectory_layer applied.grown.sound plain component ending
    (component ▸ reading.short sound plain leads ending)
  rw [one, anyM_singleton]
  exact asked.trans (congrArg Except.ok (decide_eq_true at_))

include single in
/-- The directories of the other layers are found as before. -/
theorem asked_old {layer : Layer} (other : layer ≠ m.layer) :
    (Module.layerDirectories m.component layer).anyM (fun name =>
      s'.isDirectory? (m.root / Path.ofText name)) = .ok (gained.has layer) := by
  have grown := applied.grown
  have reading := Module.reading_of_read (Module.read_of_at? found).2
  have old := reading.asked layer
  rw [reading.component, ← component] at old
  rw [← old]
  refine anyM_congr fun name listed => ?_
  obtain ⟨ending, known, rfl⟩ := Module.mem_layerDirectories listed
  have short : nameSize (moduleName m.component ending) ≤ maxNameSize :=
    component ▸ reading.short sound plain leads known
  rw [(grown.leads leads).isDirectory_layer grown.sound plain component known short,
    leads.isDirectory_layer sound plain component known short, grown.location]
  refine congrArg Except.ok (decide_eq_decide.mpr ?_)
  by_cases absent : s.tree.at? (s.location m.root ++ [moduleName m.component ending]) = none
  · -- A directory that is new would be that of the new module, which is of another layer.
    rw [absent]
    refine iff_of_false (fun directory => other ?_) nofun
    obtain ⟨_, named⟩ := eq_of_new_child sound leads single worked applied leads.there absent
      (by rw [directory]; nofun)
    rw [named] at listed
    exact Module.eq_of_mem_layerDirectories listed
  · exact grown.isDirectory_iff absent

include single required

/-- The module that gained the new one has its layer besides those that it had. -/
theorem read_gained : Module.read? s' m.root = .ok (some (gain m.layer gained)) := by
  obtain ⟨there, read⟩ := Module.read_of_at? found
  have reading := Module.reading_of_read read
  have layers : Layer.all.filterM (fun layer =>
      (Module.layerDirectories m.component layer).anyM fun name =>
        s'.isDirectory? (m.root / Path.ofText name)) =
      .ok (Layer.all.filter fun layer => gained.has layer || layer = m.layer) := by
    refine filterM_eq_ok fun layer _ => ?_
    by_cases same : layer = m.layer
    · rw [same, asked_new sound leads worked applied plain component found required]
      simp
    · rw [asked_old sound leads single worked applied plain component found same]
      simp [same]
  have there' : s'.exists? (m.root.child descriptorName) = .ok true :=
    applied.grown.exists_of_exists there
  unfold Module.read? Module.read
  rw [component] at layers
  simp only [there', layers, bind, Except.bind, pure, Except.pure, if_true, gain]
  rw [← reading.component, ← reading.path]

/-- Its sources are those that it had. -/
theorem outlines_gain (written : s.tree.Written) :
    Detector.outlines s' (gain m.layer gained) = Detector.outlines s gained := by
  have read' := read_gained sound leads single worked applied plain required component found
  have found' : Module.at? s' m.root = some (gain m.layer gained) := by rw [Module.at?, read']
  have reading := Module.reading_of_read (Module.read_of_at? found).2
  have reading' := Module.reading_of_read (Module.read_of_at? found').2
  rw [reading.outlines sound plain leads,
    reading'.outlines applied.grown.sound plain (applied.grown.leads leads),
    Module.outlined_eq (keepsSources sound leads single worked applied) sound written leads]

/-- The rest of the findings is reported of the module that gained the new one. -/
theorem ofDirectory_gained {scan : Scan} {coreTypes : List Text}
    (all : scan.detectors = Detector.standard coreTypes) (written : s.tree.Written)
    (several : gained.hasLayers = true) :
    scan.ofDirectory s' m.root = (scan.ofDirectory s m.root).filter fun w =>
      !decide (w = Detector.missingLayer gained rule m.layer) := by
  have read' := read_gained sound leads single worked applied plain required component found
  have found' : Module.at? s' m.root = some (gain m.layer gained) := by rw [Module.at?, read']
  have outlines := (Module.reading_of_read (Module.read_of_at? found).2).outlines sound plain leads
  have outlines' :=
    outlines_gain sound leads single worked applied plain required component found written
  have several' : (gain m.layer gained).hasLayers = gained.hasLayers := by
    rw [several, hasLayers_gain]
  obtain ⟨_, _, _, notNull, notReturn, notWrapper, notFacade⟩ := required_layer _ required
  have first : scan.reports s' (gain m.layer gained) Detector.missingLayers =
      (scan.reports s gained Detector.missingLayers).filter fun w =>
        !decide (w = Detector.missingLayer gained rule m.layer) := by
    unfold Scan.reports Detector.missingLayers
    simp only [several', several, if_true]
    rw [lacking_gain required, List.filter_filter, List.filter_filter]
    exact List.filter_congr fun w _ => Bool.and_comm ..
  unfold Scan.ofDirectory
  rw [found, found']
  simp only [Option.map_some, Option.getD_some]
  unfold Scan.ofModule
  rw [List.filter_flatMap]
  refine List.flatMap_congr fun d listed => ?_
  have listed := List.mem_of_mem_filter listed
  rw [all] at listed
  simp only [Detector.standard, List.mem_cons, List.not_mem_nil, or_false] at listed
  -- No other detector reports a missing layer, and none of them asks for the new one.
  have others (d : Detector) (same : d.detect s' (gain m.layer gained) = d.detect s gained)
      (other : ∀ found, d.detect s gained = .ok found → ∀ w ∈ found, w.rule ≠ rule) :
      scan.reports s' (gain m.layer gained) d = (scan.reports s gained d).filter fun w =>
        !decide (w = Detector.missingLayer gained rule m.layer) :=
    Scan.reports_filter same fun found run w inside missing =>
      other found run w inside (by rw [missing]; rfl)
  rcases listed with rfl | rfl | rfl | rfl
  · exact first
  · exact others _ (Detector.nullResults_congr several' outlines') fun found run w inside =>
      (Detector.finding_of_nullResults outlines run inside).2 ▸ notNull.symm
  · refine others _ (Detector.coreReturnTypes_congr rfl rfl ?_ outlines') fun found run w inside =>
      (Detector.finding_of_coreReturnTypes outlines run inside).2 ▸ notReturn.symm
    rw [has_gain, decide_eq_false notFacade.symm, Bool.or_false]
  · refine others _ (Detector.missingWrappers_congr rfl several' fun single => ?_)
      fun found run w inside => ?_
    · cases several.symm.trans single
    · rw [(Detector.finding_of_missingWrappers (d := m.root) run inside).2]
      exact notWrapper.symm

end

/-- A layer that one module lacks is reported of no other directory. -/
theorem eq_of_missingLayer {d root : Path} {rule : Text} {layer : Layer} {m other : Module}
    {w : Violation} (plain : d.Plain) (plain' : root.Plain)
    (required : (rule, layer) ∈ Rule.requiredLayers) (path : m.path = root)
    (path' : other.path = d) (finding : Detector.Finding s d other w)
    (missing : w = Detector.missingLayer m rule layer) : d = root := by
  have calls : (w.rule, layer) ∈ Rule.requiredLayers := by rwa [missing]
  obtain ⟨_, missing'⟩ := layer_of_finding finding calls
  have alike : other.path.text = m.path.text :=
    congrArg Violation.location (missing'.symm.trans missing)
  rw [path, path'] at alike
  rw [← Path.ofText_text plain, alike, Path.ofText_text plain']

/-- A violation of a missing layer is repaired in the module that lacks it. -/
theorem moduleOf_layer {d : Path} (sound : s.tree.Sound) (plain : d.Plain)
    (leads : s.LeadsToDirectory d) (module : s.exists? (d.child descriptorName) = .ok true)
    (at_ : v.location = d.text) : c.moduleOf s v = .ok d := by
  have open_ : s.isDirectory? d = .ok true := by
    rw [leads.direct.isDirectory? sound, leads.2]
    rfl
  rw [RepairContext.moduleOf_eq_above]
  simp only [at_, Path.ofText_text plain, open_, bind, Except.bind, if_true]
  unfold RepairContext.moduleAbove
  simp only [module, bind, Except.bind, if_true]
  rfl

section

variable (sound : s.tree.Sound) (leads : s.LeadsToDirectory m.root) (single : '/' ∉ m.package)
variable (worked : Worked c v s m content p) (applied : p.Applied c s s')
include sound leads single worked applied

/-- A directory that is new to a scan is that of the new module. -/
theorem eq_of_new_listed {base : Path} {names names' : List Text}
    (place : s.location m.root = s.location base ++ names) (listed : Module.Listed s' base names')
    (absent : s.tree.at? (s.location base ++ names') = none) : names' = names ++ [m.name] := by
  have directory := listed.directory
  rw [applied.grown.location] at directory
  obtain ⟨tail, kind, split⟩ := below_of_new sound leads single worked applied absent
    (by rw [directory]; nofun)
  rw [place, List.append_assoc] at split
  have split := List.append_cancel_left split
  suffices none : tail = [] by rw [split, none]
  by_contra inner
  obtain ⟨name, more, rfl⟩ := List.exists_cons_of_ne_nil inner
  rcases kind with inside | inside
  · -- Below the new module stands its descriptor, which is a file.
    obtain ⟨rfl, later⟩ := List.cons_prefix_cons.mp inside
    rw [split, List.prefix_nil.mp later, ← List.append_assoc, ← place] at directory
    obtain ⟨mode, entry⟩ := descriptor_of_applied leads worked applied
    cases directory.symm.trans entry
  · have first : m.sourceNames = "src".toList :: m.sourceNames.tail := rfl
    rw [first] at inside
    obtain ⟨rfl, _⟩ := List.cons_prefix_cons.mp inside
    have searched := listed.searched
    rw [split] at searched
    have hidden : Module.isSearched "src".toList = false := by decide
    rw [List.all_append, List.all_cons, List.all_cons, hidden] at searched
    simp at searched

/-- Nothing is reported of the new module. -/
theorem ofDirectory_new {scan : Scan} {coreTypes : List Text}
    (all : scan.detectors = Detector.standard coreTypes) (plain : m.root.Plain) {rule : Text}
    (required : (rule, m.layer) ∈ Rule.requiredLayers)
    (component : m.component = componentName m.root.name)
    (short : ∀ ending ∈ Module.layerEndings,
      nameSize (moduleName m.component ending) ≤ maxNameSize) (untagged : '<' ∉ m.root.name) :
    scan.ofDirectory s' m.directory = [] := by
  have grown := applied.grown
  have read := read_new sound leads single worked applied plain required component short
  have leads' := leads_new leads worked applied
  have plain' : m.directory.Plain := by
    obtain ⟨_, _, ending, _⟩ := required_layer _ required
    have named := plainName_moduleName plain (Module.slash_not_mem_ending _ ending)
    rw [← component] at named
    intro name member
    rcases List.mem_append.mp member with outer | last
    · exact plain name outer
    · exact List.mem_singleton.mp last ▸ named
  refine List.eq_nil_iff_forall_not_mem.mpr fun w member => ?_
  obtain ⟨new, there, finding⟩ := Scan.finding_of_ofDirectory grown.sound plain' leads' all member
  rw [Module.at?, read] at there
  cases there
  cases finding with
  | layer _ several => cases several
  | source several => cases several
  | part _ _ read aggregator =>
    have other := RepairContext.descriptorName_ne_up
    have holds := holds_descriptor worked applied
    rw [← grown.location] at holds
    have text := holds.readText (leads'.direct.child other RepairContext.descriptorName_short)
      grown.sound
    cases read.symm.trans text
    cases (not_aggregator worked.module untagged).symm.trans aggregator

/-- A scan after a missing layer was made reports the findings of the first but for that one. -/
theorem findings_of_applied {scan : Scan} {coreTypes : List Text}
    (all : scan.detectors = Detector.standard coreTypes) (written : s.tree.Written)
    {base : Path} (plainBase : base.Plain) (leadsBase : s.LeadsToDirectory base)
    (readable : ∀ d ∈ Module.directories s base, Module.read? s d = .ok (Module.at? s d))
    {names : List Text} (listed : Module.Listed s base names)
    (at_ : m.root = ⟨base.anchor, base.names ++ names⟩) {rule : Text}
    (required : (rule, m.layer) ∈ Rule.requiredLayers)
    (component : m.component = componentName m.root.name) (untagged : '<' ∉ m.root.name)
    {gained : Module} (found : Module.at? s m.root = some gained)
    (several : gained.hasLayers = true) :
    (∃ modules, Module.discover s' base = .ok modules) ∧
      scan.findings s' base = (scan.findings s base).filter fun w =>
        !decide (w = Detector.missingLayer gained rule m.layer) := by
  have plain : m.root.Plain := at_ ▸ listed.plain written plainBase
  have reading := Module.reading_of_read (Module.read_of_at? found).2
  have place : s.location m.root = s.location base ++ names := by
    rw [at_, listed.location written leadsBase]
  have short (ending : Text) (known : ending ∈ Module.layerEndings) :
      nameSize (moduleName m.component ending) ≤ maxNameSize :=
    component ▸ reading.short sound plain leads known
  -- Of the directories scanned, the module has gained a layer, the layer is new, and the rest is
  -- unaffected.
  refine Scan.findings_of_repaired (keepsSources sound leads single worked applied) sound written
    plainBase leadsBase all readable names ⟨?_, ?_⟩ (fun names' listed' other => ⟨?_, ?_⟩)
    fun names' listed' absent => ?_
  · rw [← at_]
    exact ⟨_, read_gained sound leads single worked applied plain required component found⟩
  · rw [← at_]
    exact ofDirectory_gained sound leads single worked applied plain required component found
      all written several
  · refine unaffected sound leads single worked applied place listed.searched ?_ other
    rw [listed'.directory]
    nofun
  · intro lacking w found' finding missing
    have path := (Module.reading_of_read (Module.read_of_at? found').2).path
    have same := eq_of_missingLayer (listed'.plain written plainBase) plain required reading.path
      path finding missing
    rw [at_] at same
    exact other (List.append_cancel_left (Path.mk.inj same).2)
  · have new : (⟨base.anchor, base.names ++ names'⟩ : Path) = m.directory := by
      rw [eq_of_new_listed sound leads single worked applied place listed' absent,
        NewModule.directory, at_, Path.child, List.append_assoc]
    rw [new]
    exact ⟨⟨_, read_new sound leads single worked applied plain required component short⟩,
      ofDirectory_new sound leads single worked applied all plain required component short untagged⟩

end

end Scaffolding

/-! ### Scans after a repair -/

section

variable {scan : Scan} {coreTypes : List Text} {c : RepairContext} {s s' : Site} {base : Path}
variable {v : Violation} {o : Outcome}
variable (all : scan.detectors = Detector.standard coreTypes)
variable (sound : s.tree.Sound) (written : s.tree.Written) (housed : s.Housed) (plain : base.Plain)
variable (readable : ∀ d ∈ Module.directories s base, Module.read? s d = .ok (Module.at? s d))
variable (fixed : o.status = .fixed)
include all sound written plain readable

/-- A finding is reported of a module in a directory that is searched and reached. -/
theorem Scan.found_of_mem (member : v ∈ scan.findings s base) :
    s.LeadsToDirectory base ∧ ∃ names m, Module.Listed s base names ∧
      s.LeadsToDirectory ⟨base.anchor, base.names ++ names⟩ ∧
      Module.at? s ⟨base.anchor, base.names ++ names⟩ = some m ∧
      Detector.Finding s ⟨base.anchor, base.names ++ names⟩ m v := by
  obtain ⟨d, searched, member⟩ := List.mem_flatMap.mp member
  have some : ∃ m, Module.at? s d = some m := by
    unfold ofDirectory at member
    cases found : Module.at? s d with
    | none => simp [found] at member
    | some m => exact ⟨m, rfl⟩
  obtain ⟨m, found⟩ := some
  have leads := Module.leads_root searched (Module.read_of_at? found).1
  obtain ⟨names, listed, rfl⟩ := (Module.mem_directories_iff leads).mp searched
  have leads' := listed.leads sound written leads (readable _ searched)
  obtain ⟨_, found', finding⟩ :=
    Scan.finding_of_ofDirectory sound (listed.plain written plain) leads' all member
  exact ⟨leads, names, _, listed, leads', found', finding⟩

include fixed

theorem Scaffolding.findings_of_repair (single : '/' ∉ c.group)
    (member : v ∈ scan.findings s base) (untagged : '<' ∉ (Path.ofText v.location).name)
    (run : fixer.repair c v s = (.ok o, s')) :
    (∃ modules, Module.discover s' base = .ok modules) ∧
      scan.findings s' base = (scan.findings s base).filter fun w => !decide (w = v) := by
  obtain ⟨leadsBase, names, lacking, listed, leads, found, finding⟩ :=
    Scan.found_of_mem all sound written plain readable member
  obtain ⟨p, offered, applied⟩ := Fixer.applied_proposing sound (fun p offered => by
    obtain ⟨_, _, worked⟩ := propose_eq_patch offered
    exact due_patch worked) run fixed
  obtain ⟨m, content, worked⟩ := propose_eq_patch offered
  obtain ⟨module, package⟩ := newModule?_eq_some worked.module
  obtain ⟨required, component⟩ := newModule?_required worked.module
  obtain ⟨several, missing⟩ := layer_of_finding finding required
  obtain ⟨there, read⟩ := Module.read_of_at? found
  have path := (Module.reading_of_read read).path
  have plain' := listed.plain written plain
  have at_ : v.location = Path.text ⟨base.anchor, base.names ++ names⟩ := by
    rw [missing, ← path]
    rfl
  have root : m.root = ⟨base.anchor, base.names ++ names⟩ :=
    Except.ok.inj (module.symm.trans (moduleOf_layer sound plain' leads there at_))
  rw [at_, Path.ofText_text plain', ← root] at untagged
  rw [← root] at leads found
  have findings := findings_of_applied sound leads
    (package ▸ slash_not_mem_basePackage single c.project m.layer) worked applied all written
    plain leadsBase readable listed root required component untagged found several
  rwa [← missing] at findings

include housed in
theorem WrapperFiles.findings_of_repair (covers : c.Covers s base)
    (member : v ∈ scan.findings s base) {d : Path} (searched : d ∈ Module.directories s base)
    (concerns : Concerns d v) (bare : Bare s d) (run : fixer.repair c v s = (.ok o, s')) :
    (∃ modules, Module.discover s' base = .ok modules) ∧
      scan.findings s' base = (scan.findings s base).filter fun w => !decide (Concerns d w) := by
  obtain ⟨leadsBase, names, lacking, listed, leads, found, finding⟩ :=
    Scan.found_of_mem all sound written plain readable member
  obtain ⟨there, read⟩ := Module.read_of_at? found
  have path := (Module.reading_of_read read).path
  obtain ⟨names', listed', rfl⟩ := (Module.mem_directories_iff leadsBase).mp searched
  obtain rfl := concerns.names_eq written plain listed' listed path finding
  have plain' := listed.plain written plain
  obtain ⟨none, part, listedPart, absent, at_⟩ := finding.lacking concerns.1
  rw [path] at absent at_
  have forward : upName ∉ s.workingDirectory := fun up =>
    (written _ (by rw [housed]; nofun) upName up).2 rfl
  have above : s.location c.projectRoot <+: s.location ⟨base.anchor, base.names ++ names⟩ := by
    rw [listed.location written leadsBase]
    have outer := covers.prefix forward
    exact outer.trans (List.prefix_append ..)
  have module := moduleOf_part sound forward above plain' leads there bare listedPart absent at_
  have same {root : Path} (module' : c.moduleOf s v = .ok root) :
      root = ⟨base.anchor, base.names ++ names⟩ := Except.ok.inj (module'.symm.trans module)
  obtain ⟨p, offered, applied⟩ := Fixer.applied_proposing sound (fun p offered => by
    obtain ⟨root, _, _, worked⟩ := propose_eq_patch offered
    exact due_patch sound (same worked.module ▸ leads.way) worked) run fixed
  obtain ⟨root, _, _, worked⟩ := propose_eq_patch offered
  have root := same worked.module
  subst root
  exact findings_of_applied all sound written housed plain leadsBase readable listed rfl worked
    applied fun m at' => Option.some.inj (found.symm.trans at') ▸ none

end

namespace Scan

/-- A repair by a bundled fixer takes what it repairs from the next scan and adds nothing: of a
missing layer that violation goes, and of a missing part of a wrapper all such violations of the
module. -/
theorem repairs_settle {scan : Scan} {coreTypes : List Text}
    (all : scan.detectors = Detector.standard coreTypes) {c : RepairContext}
    (single : '/' ∉ c.group) {s s₁ s₂ : Site} (sound : s.tree.Sound) (written : s.tree.Written)
    (housed : s.Housed) {base : Path} (plain : base.Plain) (covers : c.Covers s base)
    {found : List Violation} (run : scan.run base s = (.ok found, s₁)) {v : Violation}
    (member : v ∈ found) {o : Outcome} (fixed : o.status = .fixed) :
    ('<' ∉ (Path.ofText v.location).name → Scaffolding.fixer.repair c v s₁ = (.ok o, s₂) →
      ∃ s₃, scan.run base s₂ = (.ok (found.filter (· ≠ v)), s₃)) ∧
    (∀ d ∈ Module.directories s base, WrapperFiles.Concerns d v → WrapperFiles.Bare s d →
      WrapperFiles.fixer.repair c v s₁ = (.ok o, s₂) →
        ∃ s₃, scan.run base s₂ =
          (.ok (found.filter fun w => ¬WrapperFiles.Concerns d w), s₃)) := by
  have deaf := deaf_standard all
  obtain ⟨untouched, rfl, readable⟩ := run_eq_ok deaf run
  -- The scan has left nothing but messages.
  obtain ⟨sound, written, housed, covers, readable⟩ : s₁.tree.Sound ∧ s₁.tree.Written ∧ s₁.Housed ∧
      c.Covers s₁ base ∧ ∀ d ∈ Module.directories s₁ base, Module.read? s₁ d = .ok (Module.at? s₁ d) := by
    obtain ⟨_, rfl⟩ := untouched
    exact ⟨sound, written, housed, covers, readable⟩
  have searched : Module.directories s base = Module.directories s₁ base := by
    obtain ⟨_, rfl⟩ := untouched
    rfl
  have bare {d : Path} (bare : WrapperFiles.Bare s d) : WrapperFiles.Bare s₁ d := by
    obtain ⟨_, rfl⟩ := untouched
    exact bare
  rw [← deaf.findings untouched] at member ⊢
  rw [searched]
  have settled {modules : List Module} (read : Module.discover s₂ base = .ok modules)
      {rest : List Violation} (same : scan.findings s₂ base = rest) :
      ∃ s₃, scan.run base s₂ = (.ok rest, s₃) := by
    obtain ⟨s₃, _, run⟩ := run_of_discover deaf read
    exact ⟨s₃, same ▸ run⟩
  constructor
  · intro untagged repaired
    obtain ⟨⟨_, read⟩, same⟩ := Scaffolding.findings_of_repair all sound written plain
      readable fixed single member untagged repaired
    exact settled read (by simpa using same)
  · intro d searched concerns free repaired
    obtain ⟨⟨_, read⟩, same⟩ := WrapperFiles.findings_of_repair all sound written housed plain
      readable fixed covers member searched concerns (bare free) repaired
    exact settled read (by simpa using same)

end Scan

/-- A component that lacks two of its modules, with an aggregator that lacks the wrapper. -/
def gappyProject : Site where
  tree := (((((∅ : Tree).insert ["p".toList] .directory).insert ["p".toList, "pom.xml".toList]
    (.file (Utf8.encode "<packaging>pom</packaging>") 0o644)).insert
    ["p".toList, "p-facade".toList] .directory).insert ["p".toList, "q".toList] .directory).insert
    ["p".toList, "q".toList, "pom.xml".toList]
    (.file (Utf8.encode "<packaging>pom</packaging>") 0o644)

theorem sound_gappyProject : gappyProject.tree.Sound := by
  refine Tree.Sound.insert ?_ (by decide) (by simp) (by decide)
  refine Tree.Sound.insert ?_ (by decide) (by simp) (by decide)
  refine Tree.Sound.insert ?_ (by decide) (by simp) (by decide)
  refine Tree.Sound.insert ?_ (by decide) (by simp) (by decide)
  exact Tree.sound_empty.insert rfl (by simp) fun _ => rfl

theorem written_gappyProject : gappyProject.tree.Written := by
  refine Tree.Written.insert ?_ (by decide) _
  refine Tree.Written.insert ?_ (by decide) _
  refine Tree.Written.insert ?_ (by decide) _
  refine Tree.Written.insert ?_ (by decide) _
  exact Tree.written_empty.insert (by decide) _

/-- The contract of a component is missing in a project that has its facade. -/
def gappyContract : Violation :=
  Detector.missingLayer ⟨"p".toList, "/p", [.facade]⟩ Rule.missingApi .api

/-- The script of the aggregator is missing. -/
def gappyScript : Violation :=
  Detector.missingPart ⟨"q".toList, "/p/q", []⟩ Wrapper.script
    "Pure aggregator 'q' must have Maven wrapper script 'mvnw'."

/-- A repair of the missing contract and one of the missing wrapper. -/
theorem Scan.repairs_settle_gappyProject :
    let scan : Scan := { detectors := Detector.standard [] }
    let c : RepairContext := { projectRoot := "/p", moduleRoot := "/p" }
    gappyProject.tree.Sound ∧ gappyProject.tree.Written ∧ gappyProject.Housed ∧
      c.Covers gappyProject "/p" ∧ WrapperFiles.Bare gappyProject "/p/q" ∧
      ∃ found s₁, scan.run "/p" gappyProject = (.ok found, s₁) ∧
        gappyContract ∈ found ∧ gappyScript ∈ found ∧
        (∃ o s₂ s₃, Scaffolding.fixer.repair c gappyContract s₁ = (.ok o, s₂) ∧
          o.status = .fixed ∧ scan.run "/p" s₂ = (.ok (found.filter (· ≠ gappyContract)), s₃)) ∧
        ∃ o s₂ s₃, WrapperFiles.fixer.repair c gappyScript s₁ = (.ok o, s₂) ∧
          o.status = .fixed ∧ scan.run "/p" s₂ =
            (.ok (found.filter fun w => ¬WrapperFiles.Concerns "/p/q" w), s₃) := by
  intro scan c
  have sound := sound_gappyProject
  have written := written_gappyProject
  have covers : c.Covers gappyProject "/p" := .inl rfl
  have bare : WrapperFiles.Bare gappyProject "/p/q" := ⟨by decide, by decide⟩
  have reported : (scan.run "/p" gappyProject).1.toOption.map
      (fun found => (found[0]?, found[2]?)) = some (some gappyContract, some gappyScript) := by
    decide +kernel
  have made : (Scaffolding.fixer.repair c gappyContract
      (scan.run "/p" gappyProject).2).1.toOption.map (·.status) = some .fixed := by
    delta Scaffolding.fixer Scaffolding.propose Scaffolding.newModule?
    simp only [RepairContext.moduleOf_eq_above]
    decide +kernel
  have installed : (WrapperFiles.fixer.repair c gappyScript
      (scan.run "/p" gappyProject).2).1.toOption.map (·.status) = some .fixed := by
    delta WrapperFiles.fixer WrapperFiles.propose
    simp only [RepairContext.moduleOf_eq_above]
    decide +kernel
  rcases run : scan.run "/p" gappyProject with ⟨e | found, s₁⟩
  · rw [run] at reported
    cases reported
  rw [run] at reported made installed
  obtain ⟨first, third⟩ := Prod.mk.inj (Option.some.inj reported)
  have contract := List.mem_of_getElem? first
  have script := List.mem_of_getElem? third
  refine ⟨sound, written, rfl, covers, bare, found, s₁, rfl, contract, script, ?_, ?_⟩
  · rcases repair : Scaffolding.fixer.repair c gappyContract s₁ with ⟨e | o, s₂⟩
    · rw [repair] at made
      cases made
    rw [repair] at made
    have fixed : o.status = .fixed := Option.some.inj made
    obtain ⟨s₃, again⟩ := (Scan.repairs_settle rfl (by decide) sound written rfl (by decide)
      covers run contract fixed).1 (by decide) repair
    exact ⟨o, s₂, s₃, rfl, fixed, again⟩
  · rcases repair : WrapperFiles.fixer.repair c gappyScript s₁ with ⟨e | o, s₂⟩
    · rw [repair] at installed
      cases installed
    rw [repair] at installed
    have fixed : o.status = .fixed := Option.some.inj installed
    obtain ⟨s₃, again⟩ := (Scan.repairs_settle rfl (by decide) sound written rfl (by decide)
      covers run script fixed).2 "/p/q" (by decide) (by decide) bare repair
    exact ⟨o, s₂, s₃, rfl, fixed, again⟩

/-- The name of a directory and the group in the descriptor there form a comment between them, in
which the end of the packaging stands. -/
def markedName : Text := "<packaging>pom<<!--"

/-- A component that lacks its core, in a directory of such a name. -/
def markedProject : Site where
  tree := (((∅ : Tree).insert [markedName] .directory).insert [markedName, "pom.xml".toList]
    (.file (Utf8.encode
      "<project><groupId>-->/packaging></groupId><packaging>pom</packaging></project>") 0o644)).insert
    [markedName, markedName ++ "-api".toList] .directory

/-- The core of that component is missing. -/
def markedCore : Violation :=
  Detector.missingLayer ⟨markedName, ⟨.root, [markedName]⟩, [.api]⟩ Rule.missingCore .core

/-- The new module has the name of its directory in its descriptor, and reads as one that holds other
modules: for the violation that was repaired the next scan reports three others. -/
theorem Scan.repair_brings_violations :
    let scan : Scan := { detectors := Detector.standard [] }
    let c : RepairContext := { projectRoot := "/", moduleRoot := "/" }
    markedProject.tree.Sound ∧ markedProject.tree.Written ∧ markedProject.Housed ∧
      c.Covers markedProject "/" ∧
      ∃ found s₁ o s₂, scan.run "/" markedProject = (.ok found, s₁) ∧ markedCore ∈ found ∧
        Scaffolding.fixer.repair c markedCore s₁ = (.ok o, s₂) ∧ o.status = .fixed ∧
        ¬∃ s₃, scan.run "/" s₂ = (.ok (found.filter (· ≠ markedCore)), s₃) := by
  intro scan c
  have sound : markedProject.tree.Sound := by
    refine Tree.Sound.insert ?_ (by decide) (by simp) (by decide)
    refine Tree.Sound.insert ?_ (by decide) (by simp) (by decide)
    exact Tree.sound_empty.insert rfl (by simp) fun _ => rfl
  have written : markedProject.tree.Written := by
    refine Tree.Written.insert ?_ (by decide) _
    refine Tree.Written.insert ?_ (by decide) _
    exact Tree.written_empty.insert (by decide) _
  have covers : c.Covers markedProject "/" := .inl rfl
  have reported : (scan.run "/" markedProject).1.toOption = some [markedCore] := by
    decide +kernel
  have made : (Scaffolding.fixer.repair c markedCore
      (scan.run "/" markedProject).2).1.toOption.map (·.status) = some .fixed := by
    delta Scaffolding.fixer Scaffolding.propose Scaffolding.newModule?
    simp only [RepairContext.moduleOf_eq_above]
    decide +kernel
  have again : (scan.run "/" (Scaffolding.fixer.repair c markedCore
      (scan.run "/" markedProject).2).2).1.toOption.map (·.length) = some 3 := by
    delta Scaffolding.fixer Scaffolding.propose Scaffolding.newModule?
    simp only [RepairContext.moduleOf_eq_above]
    decide +kernel
  rcases run : scan.run "/" markedProject with ⟨e | found, s₁⟩
  · rw [run] at reported
    cases reported
  rw [run] at reported made again
  obtain rfl : found = [markedCore] := Option.some.inj reported
  rcases repair : Scaffolding.fixer.repair c markedCore s₁ with ⟨e | o, s₂⟩
  · rw [repair] at made
    cases made
  rw [repair] at made again
  refine ⟨sound, written, rfl, covers, _, s₁, o, s₂, rfl, List.mem_singleton_self _, repair,
    Option.some.inj made, ?_⟩
  rintro ⟨s₃, run⟩
  rw [run] at again
  cases again

end Layering
