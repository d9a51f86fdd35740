import Layering.Proofs.RepeatedRepairs
import Layering.Proofs.Settling
import Layering.Proofs.StandingSnapshots

/-!
# Planned files

The files that the bundled fixers declare for what a scan found, while repairs go on. Each lies
straight beyond a module that stays. The only descriptors that come to be on the way to one of them
are those of new modules, and below these there is nothing that a violation is about. So every fixer
declares what it declared at first.
-/

namespace Layering

open Site

theorem Path.plain_join {p q : Path} (plain : p.Plain) (plain' : q.Plain) : (p / q).Plain := by
  change (p.join q).Plain
  unfold join
  split
  · exact plain'
  · intro name member
    rcases List.mem_append.mp member with outer | inner
    · exact plain name outer
    · exact plain' name inner

/-! ### Modules that stay -/

namespace Site

variable {hidden due : Location → Prop} {before s : Site} {d target : Path} {more : List Text}

theorem location_append (forward : upName ∉ more) :
    s.location ⟨d.anchor, d.names ++ more⟩ = s.location d ++ more := by
  rw [location, Location.walk_append, Location.walk_eq_append forward]
  rfl

theorem Rooted.stands (rooted : before.Rooted hidden target d more) (h : Stands due hidden before s) :
    s.Rooted hidden target d more where
  path := rooted.path
  forward := rooted.forward
  leads := h.leads rooted.leads rooted.visible
  visible := rooted.visible.of_place h.place

/-- What is hidden is nothing that a scan of a directory comes across: there it lies below a
directory for staging, and elsewhere it lies in one. -/
structure Aside (hidden : Location → Prop) (s : Site) (d : Path) : Prop where
  visible : s.Visible hidden d
  below : ∀ names, names.head? ≠ some ".remediation".toList → ¬hidden (s.location d ++ names)
  elsewhere : ∀ l, ".remediation".toList ∉ l → ¬hidden l

namespace Aside

theorem append (aside : s.Aside hidden d) (forward : upName ∉ more)
    (other : more.head? ≠ some ".remediation".toList) :
    s.Aside hidden ⟨d.anchor, d.names ++ more⟩ where
  visible k := by
    rw [List.take_append, Location.walk_append]
    by_cases inside : k ≤ d.names.length
    · rw [Nat.sub_eq_zero_of_le inside]
      exact aside.visible k
    · rw [List.take_of_length_le (by omega),
        Location.walk_eq_append fun up => forward (List.mem_of_mem_take up)]
      refine aside.below _ ?_
      rw [List.head?_take]
      split
      · nofun
      · exact other
  below names other' := by
    rw [location_append forward, List.append_assoc]
    refine aside.below _ ?_
    cases more with
    | nil => exact other'
    | cons => exact other
  elsewhere := aside.elsewhere

theorem stands (aside : before.Aside hidden d) (h : Stands due hidden before s) :
    s.Aside hidden d where
  visible := aside.visible.of_place h.place
  below := by
    rw [h.location]
    exact aside.below
  elsewhere := aside.elsewhere

end Aside

end Site

variable {hidden due : Location → Prop} {c : RepairContext} {before s : Site} {d target : Path}
variable {v : Violation} {f : Fixer} {files : List Path} {more : List Text} {l m : Location}

/-- A module of the project, where it stays. -/
structure Module.Seat (c : RepairContext) (hidden : Location → Prop) (s : Site) (d : Path) :
    Prop where
  sound : s.tree.Sound
  straight : upName ∉ s.workingDirectory
  covers : s.location c.projectRoot <+: s.location d
  plain : d.Plain
  leads : s.LeadsToDirectory d
  descriptor : s.tree.at? (s.location d ++ [descriptorName]) ≠ none
  aside : s.Aside hidden d

namespace Module.Seat

theorem there (seat : Module.Seat c hidden s d) :
    s.exists? (d.child descriptorName) = .ok true := by
  have direct := seat.leads.direct.child RepairContext.descriptorName_ne_up RepairContext.descriptorName_short
  rw [direct.exists? seat.sound, entryAt, seat.leads.location_child RepairContext.descriptorName_ne_up,
    Option.isSome_iff_ne_none.mpr seat.descriptor]

/-- A directory below a module is one as well if it has a descriptor. -/
theorem append (seat : Module.Seat c hidden s d) (forward : upName ∉ more)
    (short : ∀ name ∈ more, nameSize name ≤ maxNameSize)
    (plain : ∀ name ∈ more, Path.PlainName name)
    (other : more.head? ≠ some ".remediation".toList)
    (descriptor : s.tree.at? (s.location d ++ more ++ [descriptorName]) ≠ none) :
    Module.Seat c hidden s ⟨d.anchor, d.names ++ more⟩ := by
  have place := seat.leads.location_append forward
  have open_ : s.entryAt ⟨d.anchor, d.names ++ more⟩ = some .directory := by
    rw [entryAt, place]
    exact seat.sound _ _ descriptor
  have direct : s.Direct ⟨d.anchor, d.names ++ more⟩ :=
    ⟨_, _, seat.leads.way.append forward, by simpa using short⟩
  constructor
  · exact seat.sound
  · exact seat.straight
  · rw [place]
    exact seat.covers.trans (List.prefix_append ..)
  · intro name member
    rcases List.mem_append.mp member with outer | inner
    · exact seat.plain name outer
    · exact plain name inner
  · exact ⟨direct.locate seat.sound (by simp [open_]), open_⟩
  · rwa [place]
  · exact seat.aside.append forward other

theorem stands (seat : Module.Seat c hidden before d) (h : Stands due hidden before s) :
    Module.Seat c hidden s d where
  sound := h.sound
  straight := h.place ▸ seat.straight
  covers := by
    rw [h.location, h.location]
    exact seat.covers
  plain := seat.plain
  leads := h.leads seat.leads seat.aside.visible
  descriptor := by
    rw [h.location]
    exact h.there (seat.aside.below _ (by decide)) seat.descriptor
  aside := seat.aside.stands h

end Module.Seat

/-! ### New descriptors -/

/-- The place is named as a new module is. -/
def NamedAsNew (l : Location) : Prop :=
  ∃ component, ∃ x ∈ Rule.requiredLayers, l.getLast? = some (moduleName component x.2.name)

/-- A descriptor that is new on the way to a place is that of a new module. -/
def OnlyNewModules (before : Site) (m : Location) : Prop :=
  ∀ l, before.tree.at? (l ++ [descriptorName]) = none → l ++ [descriptorName] <+: m → NamedAsNew l

theorem onlyNewModules_of_there (sound : before.tree.Sound) (there : before.tree.at? m ≠ none) :
    OnlyNewModules before m := by
  intro l absent part
  by_cases same : l ++ [descriptorName] = m
  · exact absurd (same ▸ absent) there
  · cases (sound.above there part same).symm.trans absent

theorem onlyNewModules_of_not_mem (sound : before.tree.Sound) (there : before.tree.at? l ≠ none)
    (other : descriptorName ∉ more) : OnlyNewModules before (l ++ more) :=
  fun _ absent part => absurd (sound.last_mem_of_absent there absent part) other

/-- The names that lead to the parts of the wrapper. -/
def Wrapper.names : List Text := Detector.parts.flatMap fun part => (Path.ofText part).names

theorem Wrapper.names_spec : ∀ name ∈ Wrapper.names, name ≠ upName ∧
    nameSize name ≤ maxNameSize ∧ Path.PlainName name ∧ name ≠ ".remediation".toList ∧
    ∀ x ∈ Rule.requiredLayers, x.2.name ≠ [] ∧ x.2.name.getLast? ≠ name.getLast? := by
  decide

/-- No name on the way to a part of the wrapper is that of a new module. -/
theorem Wrapper.not_namedAsNew (inner : more ≠ []) (known : ∀ name ∈ more, name ∈ Wrapper.names) :
    ¬NamedAsNew (l ++ more) := by
  rintro ⟨component, x, required, last⟩
  rw [List.getLast?_append_of_ne_nil _ inner] at last
  obtain ⟨some, other⟩ := (Wrapper.names_spec _ (known _ (List.mem_of_getLast? last))).2.2.2.2 x required
  rw [moduleName, List.getLast?_append_of_ne_nil _ (by simp)] at other
  exact other (List.getLast?_cons_of_ne_nil some).symm

/-! ### The module of a violation -/

/-- A violation is about a place at a module or below it, over names of the wrapper and past no
other module. -/
structure RepairContext.Governs (c : RepairContext) (hidden : Location → Prop) (s : Site)
    (v : Violation) (d : Path) (more : List Text) : Prop where
  seat : Module.Seat c hidden s d
  at_ : v.location = Path.text ⟨d.anchor, d.names ++ more⟩
  known : ∀ name ∈ more, name ∈ Wrapper.names
  bare : ∀ names, names ≠ [] → names <+: more →
    s.tree.at? (s.location d ++ names ++ [descriptorName]) = none

namespace RepairContext.Governs

theorem moduleOf (governs : c.Governs hidden s v d more) : c.moduleOf s v = .ok d := by
  have spec name member := Wrapper.names_spec name (governs.known name member)
  refine moduleOf_of_below governs.seat.sound governs.seat.straight governs.seat.covers
    governs.seat.leads governs.seat.there ?_ (fun up => (spec _ up).1 rfl)
    (fun name member => (spec name member).2.1) governs.bare governs.at_
  intro name member
  rcases List.mem_append.mp member with outer | inner
  · exact governs.seat.plain name outer
  · exact (spec name inner).2.2.1

/-- Below a module the last one on the way to a place is in charge of it. -/
theorem exists_of_below (seat : Module.Seat c hidden s d)
    (at_ : v.location = Path.text ⟨d.anchor, d.names ++ more⟩)
    (known : ∀ name ∈ more, name ∈ Wrapper.names) :
    ∃ d' more', c.Governs hidden s v d' more' := by
  -- The place and the names after it are fixed; what is left of the way is shortened from its end.
  suffices ∀ names rest, more = names ++ rest → (∀ part, part ≠ [] → part <+: rest →
      s.tree.at? (s.location d ++ names ++ part ++ [descriptorName]) = none) →
      ∃ d' more', c.Governs hidden s v d' more' from
    this more [] (List.append_nil _).symm fun part some inside =>
      absurd (List.prefix_nil.mp inside) some
  intro names
  induction names using List.reverseRecOn with
  | nil =>
    intro rest split bare
    rw [List.nil_append] at split
    refine ⟨d, more, seat, at_, known, ?_⟩
    simpa [split] using bare
  | append_singleton names name ih =>
    intro rest split bare
    have spec name member := Wrapper.names_spec name
      (known name (split ▸ List.mem_append_left rest member))
    by_cases there : s.tree.at? (s.location d ++ (names ++ [name]) ++ [descriptorName]) = none
    · refine ih (name :: rest) (by simp [split]) fun part some inside => ?_
      obtain ⟨part, rfl, inside'⟩ := (List.prefix_cons_iff.mp inside).resolve_left some
      by_cases last : part = []
      · simpa [last] using there
      · simpa using bare part last inside'
    · have seat' := seat.append (fun up => (spec _ up).1 rfl) (fun name member => (spec name member).2.1)
        (fun name member => (spec name member).2.2.1)
        (fun first => (spec _ (List.mem_of_head? first)).2.2.2.1 rfl) there
      refine ⟨_, rest, seat', ?_, fun name member => ?_, fun part some inside => ?_⟩
      · rw [at_, split]
        simp only [List.append_assoc]
      · exact known name (split ▸ List.mem_append_right _ member)
      · rw [location_append fun up => (spec _ up).1 rfl]
        exact bare part some inside

/-- A module stays in charge: what is planned puts no descriptor between it and the place. -/
theorem stands (governs : c.Governs hidden before v d more) (h : Stands due hidden before s)
    (news : ∀ m, due m → OnlyNewModules before m) : c.Governs hidden s v d more where
  seat := governs.seat.stands h
  at_ := governs.at_
  known := governs.known
  bare names inner inside := by
    have known name member := governs.known name (inside.subset member)
    rw [h.location]
    by_contra there
    have visible : ¬hidden (before.location d ++ (names ++ [descriptorName])) := by
      refine governs.seat.aside.below _ fun first => ?_
      obtain ⟨name, rest, rfl⟩ := List.exists_cons_of_ne_nil inner
      exact (Wrapper.names_spec name (known name List.mem_cons_self)).2.2.2.1 (Option.some.inj first)
    rw [← List.append_assoc] at visible
    have absent := governs.bare names inner inside
    obtain ⟨m, planned, part⟩ := h.fresh _ visible absent there
    exact Wrapper.not_namedAsNew inner known (news m planned _ absent part)

end RepairContext.Governs

/-! ### What is declared -/

/-- A file that is reached straight from a directory that stays, where no descriptor comes to be but
those of new modules. -/
structure Placed (hidden : Location → Prop) (before : Site) (target : Path) : Prop where
  rooted : ∃ d rest, before.Rooted hidden target d rest
  plain : target.Plain
  visible : ¬hidden (before.location target)
  news : OnlyNewModules before (before.location target)

namespace Module.Seat

variable (seat : Module.Seat c hidden before d)
include seat

theorem placed (forward : upName ∉ more) (plain : ∀ name ∈ more, Path.PlainName name)
    (other : more.head? ≠ some ".remediation".toList)
    (news : OnlyNewModules before (before.location d ++ more)) :
    Placed hidden before ⟨d.anchor, d.names ++ more⟩ where
  rooted := ⟨d, more, rfl, forward, seat.leads, seat.aside.visible⟩
  plain name member := by
    rcases List.mem_append.mp member with outer | inner
    · exact seat.plain name outer
    · exact plain name inner
  visible := by
    rw [location_append forward]
    exact seat.aside.below _ other
  news := by
    rwa [location_append forward]

/-- The same of a path that starts at the root. -/
theorem placed_of_absolute (absolute : target.isAbsolute = true) (forward : upName ∉ target.names)
    (plain : target.Plain) (outside : ".remediation".toList ∉ target.names)
    (other : descriptorName ∉ target.names) : Placed hidden before target := by
  have start : before.start ⟨target.anchor, []⟩ = [] := if_pos absolute
  have place : before.location target = target.names := by
    rw [location_of_forward forward, Site.start, if_pos absolute, List.nil_append]
  constructor
  · refine ⟨⟨target.anchor, []⟩, target.names, rfl, forward, ⟨rfl, ?_⟩, fun k => ?_⟩
    · rw [entryAt, location, start]
      rfl
    · rw [List.take_nil, start]
      exact seat.aside.elsewhere [] (by simp)
  · exact plain
  · rw [place]
    exact seat.aside.elsewhere _ outside
  · rw [place]
    exact onlyNewModules_of_not_mem (l := []) seat.sound (by simp [Tree.at?]) other

theorem there_directory : before.tree.at? (before.location d) ≠ none := by
  rw [← entryAt, seat.leads.2]
  simp

section

variable {n : Scaffolding.NewModule} (root : n.root = d) {rule : Text}
variable (required : (rule, n.layer) ∈ Rule.requiredLayers)
variable (component : n.component = componentName d.name)
include root required component

omit root in
theorem name_newModule : Path.PlainName n.name ∧ n.name ≠ ".remediation".toList := by
  have single : ∀ x ∈ Rule.requiredLayers, '/' ∉ x.2.name := by decide
  constructor
  · rw [Scaffolding.NewModule.name, component]
    exact plainName_moduleName seat.plain (single _ required)
  · exact ne_of_dash (dash_mem_moduleName _ _) (by decide)

theorem placed_descriptor : Placed hidden before n.descriptor := by
  obtain ⟨named, outside⟩ := seat.name_newModule required component
  rw [n.descriptor_eq, root]
  refine seat.placed ?_ ?_ (by simpa using outside) fun l absent part => ?_
  · exact List.not_mem_cons_of_ne_of_not_mem n.name_ne_up.symm (by decide)
  · exact List.forall_mem_cons.mpr ⟨named, by decide⟩
  · obtain ⟨tail, some, inside, split⟩ :=
      seat.sound.beyond_of_absent seat.there_directory absent part
    obtain ⟨last, rfl, inside'⟩ := (List.prefix_cons_iff.mp inside).resolve_left some
    rcases List.prefix_cons_iff.mp inside' with rfl | ⟨_, rfl, inside''⟩
    · obtain ⟨_, same⟩ := List.append_inj' split rfl
      exact absurd (List.singleton_inj.mp same).symm n.name_ne_descriptorName
    · rw [List.prefix_nil.mp inside'', List.append_cons (before.location d)] at split
      rw [(List.append_inj' split rfl).1]
      exact ⟨n.component, _, required, List.getLast?_concat ..⟩

theorem placed_packageInfo : Placed hidden before n.packageInfo := by
  obtain ⟨named, outside⟩ := seat.name_newModule required component
  have package : (Scaffolding.NewModule.packagePath n.package).Plain :=
    Scaffolding.packagePath_rule nofun fun p plain part _ =>
      Path.plain_join plain (Path.plain_ofText part)
  have sources : ∀ name ∈ packageInfoName :: sourceDirectory.names, Path.PlainName name ∧
      name ≠ descriptorName := by decide
  -- A package that is an absolute path leads out of the module.
  cases absolute : (Scaffolding.NewModule.packagePath n.package).isAbsolute with
  | false =>
    rw [Scaffolding.NewModule.packageInfo_eq absolute, root]
    have each : ∀ name ∈ n.sourceNames, Path.PlainName name ∧ name ≠ descriptorName := by
      simp only [Scaffolding.NewModule.sourceNames, List.mem_append, List.mem_singleton]
      rintro name ((inside | inside) | rfl)
      · exact sources name (List.mem_cons_of_mem _ inside)
      · refine ⟨package name inside, ?_⟩
        rintro rfl
        exact Scaffolding.NewModule.descriptorName_not_mem_packagePath _ inside
      · exact sources _ List.mem_cons_self
    refine seat.placed ?_ ?_ (by simpa using outside)
      (onlyNewModules_of_not_mem seat.sound seat.there_directory ?_)
    · exact List.not_mem_cons_of_ne_of_not_mem n.name_ne_up.symm n.sourceNames_forward
    · exact List.forall_mem_cons.mpr ⟨named, fun name member => (each name member).1⟩
    · exact List.not_mem_cons_of_ne_of_not_mem n.name_ne_descriptorName.symm
        fun member => (each _ member).2 rfl
  | true =>
    rw [Scaffolding.NewModule.packageInfo_eq_absolute absolute]
    have last : Path.PlainName packageInfoName ∧ upName ∉ [packageInfoName] ∧
        ".remediation".toList ∉ [packageInfoName] ∧ descriptorName ∉ [packageInfoName] := by decide
    refine seat.placed_of_absolute absolute ?_ ?_ ?_ ?_
    · exact List.not_mem_append (Scaffolding.packagePath_forward _) last.2.1
    · intro name member
      rcases List.mem_append.mp member with inside | same
      · exact package name inside
      · exact List.mem_singleton.mp same ▸ last.1
    · refine List.not_mem_append (fun inside => ?_) last.2.2.1
      exact Scaffolding.point_not_mem_packagePath _ _ inside (by decide)
    · exact List.not_mem_append (Scaffolding.NewModule.descriptorName_not_mem_packagePath _) last.2.2.2

omit required component in
theorem placed_parent : Placed hidden before n.parent := by
  rw [Scaffolding.NewModule.parent, root]
  have forward : upName ∉ [descriptorName] := by decide
  exact seat.placed forward (by decide) (by decide) (onlyNewModules_of_there seat.sound seat.descriptor)

end

/-- The wrapper holds no descriptor. -/
theorem placed_place {file : Text} (listed : file ∈ Wrapper.files) :
    Placed hidden before (WrapperFiles.place d file) := by
  have spec : ∀ file ∈ Wrapper.files, (∀ name ∈ (Path.ofText file).names, Path.PlainName name) ∧
      (Path.ofText file).names.head? ≠ some ".remediation".toList ∧
      descriptorName ∉ (Path.ofText file).names := by decide
  obtain ⟨split, forward, _⟩ := WrapperFiles.place_eq listed d
  obtain ⟨plain, other, bare⟩ := spec file listed
  rw [split]
  exact seat.placed forward plain other
    (onlyNewModules_of_not_mem seat.sound seat.there_directory bare)

end Module.Seat

/-- A violation is about a file that stays. -/
structure ReturnTypes.Sourced (hidden : Location → Prop) (s : Site) (v : Violation) (file : Path) :
    Prop where
  sound : s.tree.Sound
  rooted : ∃ d rest, s.Rooted hidden file d rest
  plain : file.Plain
  visible : s.Visible hidden file
  at_ : v.location = file.text
  there : ∃ bytes mode, s.entryAt file = some (.file bytes mode)

namespace ReturnTypes.Sourced

variable {file : Path}

theorem placed (sourced : Sourced hidden before v file) : Placed hidden before file where
  rooted := sourced.rooted
  plain := sourced.plain
  visible := sourced.visible.location
  news := by
    obtain ⟨bytes, mode, entry⟩ := sourced.there
    exact onlyNewModules_of_there sourced.sound (by rw [← entryAt, entry]; simp)

/-- The source is that file, if it can be looked up. -/
theorem source?_eq (sourced : Sourced hidden s v file) :
    source? v s = Except.mapError Failure.fault do
      let _ ← s.isDirectory? file
      if ← s.exists? file then return some file else return none := by
  obtain ⟨bytes, mode, entry⟩ := sourced.there
  unfold source?
  simp only [sourced.at_, Path.ofText_text sourced.plain]
  rcases is : s.isDirectory? file with e | (_ | _)
  · rfl
  · rfl
  · cases entry.symm.trans (leads_of_isDirectory is).2

theorem eq_of_source? (sourced : Sourced hidden s v file) (found : source? v s = .ok (some target)) :
    target = file := by
  rw [sourced.source?_eq] at found
  obtain ⟨_, _, found⟩ := Except.bind_eq_ok (Except.mapError_eq_ok found)
  obtain ⟨there, _, found⟩ := Except.bind_eq_ok found
  cases there with
  | true => exact (Option.some.inj (Except.ok.inj found)).symm
  | false => cases found

theorem stands (sourced : Sourced hidden before v file) (h : Stands due hidden before s) :
    Sourced hidden s v file where
  sound := h.sound
  rooted := by
    obtain ⟨d, rest, rooted⟩ := sourced.rooted
    exact ⟨d, rest, rooted.stands h⟩
  plain := sourced.plain
  visible := sourced.visible.of_place h.place
  at_ := sourced.at_
  there := by
    obtain ⟨bytes, mode, entry⟩ := sourced.there
    rw [entryAt, h.location]
    exact h.files _ sourced.visible.location bytes mode entry

theorem source?_of_stands (sourced : Sourced hidden before v file) (h : Stands due hidden before s) :
    source? v s = source? v before := by
  obtain ⟨d, rest, rooted⟩ := sourced.rooted
  obtain ⟨bytes, mode, entry⟩ := sourced.there
  have there : before.entryAt file ≠ none := by simp [entry]
  have located := rooted.locate_eq sourced.sound sourced.visible there h
  rw [(sourced.stands h).source?_eq, sourced.source?_eq,
    h.isDirectory?_eq sourced.visible there located, h.exists?_eq sourced.visible there located]

end ReturnTypes.Sourced

/-! ### Violations that a scan found -/

/-- What a bundled fixer is to look at for a violation that a scan found. -/
inductive Calls (c : RepairContext) (hidden : Location → Prop) (s : Site) (v : Violation) :
    Fixer → Prop
  /-- A module lacks a layer. -/
  | layer {d : Path} (governs : c.Governs hidden s v d []) : Calls c hidden s v Scaffolding.fixer
  /-- A module lacks a part of the wrapper. -/
  | wrapper {d : Path} {more : List Text} (governs : c.Governs hidden s v d more) :
    Calls c hidden s v WrapperFiles.fixer
  /-- A source of a module returns what it should not. -/
  | source {file : Path} (sourced : ReturnTypes.Sourced hidden s v file) :
    Calls c hidden s v ReturnTypes.fixer

section

variable {scan : Scan} {coreTypes : List Text} {base : Path}
variable (all : scan.detectors = Detector.standard coreTypes)
variable (sound : s.tree.Sound) (written : s.tree.Written) (housed : s.Housed) (plain : base.Plain)
include sound written plain

include housed in
/-- A module that a scan looks at stays where it is. -/
theorem Module.Listed.seat {names : List Text} (listed : Module.Listed s base names)
    (covers : c.Covers s base) (aside : s.Aside hidden base)
    (leadsBase : s.LeadsToDirectory base)
    (leads : s.LeadsToDirectory ⟨base.anchor, base.names ++ names⟩)
    (there : s.exists? (Path.child ⟨base.anchor, base.names ++ names⟩ descriptorName) = .ok true) :
    Module.Seat c hidden s ⟨base.anchor, base.names ++ names⟩ where
  sound := sound
  straight := (housed.written written).straight
  covers := by
    rw [listed.location written leadsBase]
    exact ( covers.prefix (housed.written written).straight).trans (List.prefix_append ..)
  plain := listed.plain written plain
  leads := leads
  descriptor := by
    rw [← leads.location_child RepairContext.descriptorName_ne_up]
    exact (locate_of_exists there).2
  aside := by
    refine aside.append (listed.forward written) fun first => ?_
    have searched := List.all_eq_true.mp listed.searched _ (List.mem_of_head? first)
    revert searched
    decide

include all housed in
theorem Scan.calls_of_mem (covers : c.Covers s base) (aside : s.Aside hidden base)
    (readable : ∀ d ∈ Module.directories s base, Module.read? s d = .ok (Module.at? s d))
    (member : v ∈ scan.findings s base) (bundled : f ∈ bundledFixers)
    (supports : f.rules.contains v.rule = true) : Calls c hidden s v f := by
  obtain ⟨leadsBase, names, m, listed, leads, found, finding⟩ :=
    Scan.found_of_mem all sound written plain readable member
  obtain ⟨there, read⟩ := Module.read_of_at? found
  have path := (Module.reading_of_read read).path
  have seat := listed.seat sound written housed plain covers aside leadsBase leads there
  simp only [bundledFixers, List.mem_cons, List.not_mem_nil, or_false] at bundled
  -- Each fixer supports rules of one kind of finding, which says what the scan has seen.
  rcases bundled with rfl | rfl | rfl
  · obtain ⟨⟨rule, layer⟩, required, same⟩ := List.mem_map.mp (List.contains_iff_mem.mp supports)
    change rule = v.rule at same
    subst same
    obtain ⟨_, missing⟩ := Scaffolding.layer_of_finding finding required
    refine .layer ⟨seat, ?_, by simp, fun names some part => absurd (List.prefix_nil.mp part) some⟩
    rw [missing, List.append_nil, ← path]
    rfl
  · have rule : v.rule = Rule.facadeReturnType :=
      List.mem_singleton.mp (List.contains_iff_mem.mp supports)
    cases finding with
    | layer required => exact absurd rule (Scaffolding.required_layer _ required).2.2.2.2.1
    | source several listed' at_ _ =>
      obtain ⟨front, rest, kind, rfl, forward, ⟨bytes, mode, entry⟩, _⟩ :=
        Module.mem_sources written leads listed'
      have outside : (front ++ sourceDirectory.names ++ rest).head? ≠ some ".remediation".toList := by
        rcases kind with rfl | ⟨layer, _, rfl⟩
        · exact fun first => absurd (Option.some.inj first) (by decide)
        · exact fun first => ne_of_dash (dash_mem_moduleName ..) (by decide) (Option.some.inj first)
      have plain name (member : name ∈ front ++ sourceDirectory.names ++ rest) : Path.PlainName name :=
        (written _ (by rw [entry]; simp) name (List.mem_append_right _ member)).1
      have placed := seat.placed forward plain outside
        (onlyNewModules_of_there sound (by rw [entry]; simp))
      refine .source ⟨sound, placed.rooted, placed.plain, ?_, at_, bytes, mode, ?_⟩
      · exact (seat.aside.append forward outside).visible
      · rw [entryAt, location_append forward, entry]
    | part =>
      have other : Rule.missingWrapper ≠ Rule.facadeReturnType := by decide
      exact absurd rule other
  · have rule : v.rule = Rule.missingWrapper :=
      List.mem_singleton.mp (List.contains_iff_mem.mp supports)
    obtain ⟨_, part, listed', _, at_⟩ := finding.lacking rule
    rw [path, Detector.div_part listed'] at at_
    obtain ⟨d', more', governs⟩ := RepairContext.Governs.exists_of_below seat at_ fun name member =>
      List.mem_flatMap.mpr ⟨part, listed', member⟩
    exact .wrapper governs

end

namespace Calls

/-- A fixer declares the same files as long as what is planned puts no descriptors in the way. -/
theorem targets_eq (calls : Calls c hidden before v f) (h : Stands due hidden before s)
    (news : ∀ m, due m → OnlyNewModules before m) : f.targets c v s = f.targets c v before := by
  cases calls with
  | layer governs =>
    change Scaffolding.targets c v s = Scaffolding.targets c v before
    unfold Scaffolding.targets Scaffolding.newModule?
    rw [governs.moduleOf, (governs.stands h news).moduleOf]
  | wrapper governs =>
    change WrapperFiles.targets c v s = WrapperFiles.targets c v before
    unfold WrapperFiles.targets
    rw [governs.moduleOf, (governs.stands h news).moduleOf]
  | source sourced =>
    change (ReturnTypes.source? v s).map _ = (ReturnTypes.source? v before).map _
    rw [sourced.source?_of_stands h]

theorem placed (calls : Calls c hidden before v f) (declared : f.targets c v before = .ok files) :
    ∀ target ∈ files, Placed hidden before target := by
  cases calls with
  | @layer d governs =>
    rcases Scaffolding.targets_eq_ok declared with rfl | ⟨n, asked, rfl⟩
    · nofun
    obtain ⟨module, _⟩ := Scaffolding.newModule?_eq_some asked
    obtain ⟨required, component⟩ := Scaffolding.newModule?_required asked
    have root : n.root = d := Except.ok.inj (module.symm.trans governs.moduleOf)
    rw [root] at component
    simp only [List.mem_cons, List.not_mem_nil, or_false]
    rintro target (rfl | rfl | rfl)
    · exact governs.seat.placed_descriptor root required component
    · exact governs.seat.placed_packageInfo root required component
    · exact governs.seat.placed_parent root
  | @wrapper d more governs =>
    obtain ⟨root, module, rfl⟩ := WrapperFiles.targets_eq_ok declared
    obtain rfl : root = d := Except.ok.inj (module.symm.trans governs.moduleOf)
    intro target member
    obtain ⟨file, listed, rfl⟩ := List.mem_map.mp member
    exact governs.seat.placed_place listed
  | source sourced =>
    obtain ⟨source, asked, rfl⟩ := ReturnTypes.targets_eq_ok (c := c) declared
    intro target member
    rw [Option.mem_toList] at member
    rw [member] at asked
    exact sourced.eq_of_source? asked ▸ sourced.placed

/-- What a repair does at any later time is planned. -/
theorem pending (calls : Calls c hidden before v f) (h : Stands due hidden before s)
    (news : ∀ m, due m → OnlyNewModules before m) (declared : f.targets c v before = .ok files) :
    s.Pending (f.repair c v s).2 fun m => ∃ target ∈ files, before.location target = m := by
  have again := (calls.targets_eq h news).trans declared
  have places : s.Pending (f.repair c v s).2 fun m => ∃ target ∈ files, s.location target = m := by
    cases calls with
    | layer => exact Scaffolding.pending_repair h.sound again
    | wrapper governs =>
      refine WrapperFiles.pending_repair h.sound (fun root module => ?_) again
      have governs := governs.stands h news
      cases module.symm.trans governs.moduleOf
      exact ⟨_, _, governs.seat.leads.way⟩
    | source sourced =>
      refine ReturnTypes.pending_repair h.sound (fun file found _ => ?_) again
      have sourced := sourced.stands h
      rw [sourced.eq_of_source? found]
      obtain ⟨d, rest, rooted⟩ := sourced.rooted
      exact ⟨_, _, rooted.way (.refl h.sound due hidden)⟩
  simpa only [h.location] using places

end Calls

end Layering
