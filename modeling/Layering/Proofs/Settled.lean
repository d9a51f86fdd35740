import Layering.Proofs.SettledWrappers

/-!
# Violations that a repair settles

A repair of a missing layer takes its violation from the next scan and adds none: the new module is
found, and no detector finds anything in it. With the repair of missing wrappers this gives what a scan
reports after a repair.
-/

namespace Layering

open Site

/-! ### Missing layers -/

/-- An ending that is no other of those before it in the list is what a name has after its
component. -/
theorem componentName_append {component ending : Text} {before after : List Text}
    (split : componentSuffixes = before ++ ending :: after) (inner : ending ≠ [])
    (other : ∀ suffix ∈ before, suffix ≠ [] ∧ suffix.getLast? ≠ ending.getLast?)
    (line : ending.getLast? ≠ some '\n') : componentName (component ++ ending) = component := by
  have last : (component ++ ending).getLast? = ending.getLast? :=
    List.getLast?_append_of_ne_nil _ inner
  have found : componentSuffixes.find? (·.isSuffixOf (component ++ ending)) = some ending := by
    have here : ending.isSuffixOf (component ++ ending) = true :=
      List.isSuffixOf_iff_suffix.mpr (List.suffix_append ..)
    rw [split, List.find?_append, List.find?_eq_none.mpr fun suffix member => ?_, Option.none_or,
      List.find?_cons, here]
    rw [List.isSuffixOf_iff_suffix]
    rintro ⟨front, same⟩
    obtain ⟨some, differs⟩ := other suffix member
    rw [← same, List.getLast?_append_of_ne_nil _ some] at last
    exact differs last
  unfold componentName
  simp only [last, line, if_false, List.length_nil, Nat.sub_zero, List.take_length, found]
  simp

theorem componentName_moduleName (component : Text) {rule : Text} {layer : Layer}
    (required : (rule, layer) ∈ Rule.requiredLayers) :
    componentName (moduleName component layer.name) = component := by
  simp only [Rule.requiredLayers, List.mem_cons, Prod.mk.injEq, List.not_mem_nil, or_false] at required
  rcases required with ⟨_, rfl⟩ | ⟨_, rfl⟩
  · have split : componentSuffixes =
        ["-parent".toList] ++ "-api".toList :: componentSuffixes.drop 2 := rfl
    exact componentName_append split (by decide) (by decide) (by decide)
  · have split : componentSuffixes =
        ["-parent".toList, "-api".toList] ++ "-core".toList :: componentSuffixes.drop 3 := rfl
    exact componentName_append split (by decide) (by decide) (by decide)

/-- In a module that was read, the names of the directories of layers are not too long. -/
theorem Module.Reading.short {s : Site} {d : Path} {m : Module} (reading : Module.Reading s d m)
    (sound : s.tree.Sound) (plain : d.Plain) (leads : s.LeadsToDirectory d) {ending : Text}
    (known : ending ∈ Module.layerEndings) :
    nameSize (moduleName (componentName d.name) ending) ≤ maxNameSize := by
  have sourced : Layer.facade ∈ Layer.withSources := by decide
  have asked := reading.has_iff sourced
  rw [reading.submodule_eq plain, leads.isDirectory_child sound (moduleName_ne_up _ _)] at asked
  have longest : ∀ ending ∈ Module.layerEndings,
      nameSize ('-' :: ending) ≤ nameSize ('-' :: Layer.facade.name) := by decide
  split at asked
  · cases asked
  next short =>
    have bound := longest ending known
    rw [moduleName, nameSize_append] at short ⊢
    omega

/-- Whether a directory holds that of a layer is asked by its name. -/
theorem Site.LeadsToDirectory.isDirectory_layer {s : Site} {d e : Path} {component ending : Text}
    (leads : s.LeadsToDirectory d) (sound : s.tree.Sound) (plain : e.Plain)
    (named : component = componentName e.name) (known : ending ∈ Module.layerEndings)
    (short : nameSize (moduleName component ending) ≤ maxNameSize) :
    s.isDirectory? (d / Path.ofText (moduleName component ending)) =
      .ok (decide (s.tree.at? (s.location d ++ [moduleName component ending]) =
        some .directory)) := by
  have plainName := plainName_moduleName plain (Module.slash_not_mem_ending ending known)
  rw [← named] at plainName
  rw [Path.div_ofText plainName, leads.isDirectory_child sound (moduleName_ne_up _ _),
    if_neg (Nat.not_lt_of_le short)]

namespace Scaffolding

variable {c : RepairContext} {v : Violation} {s s' : Site} {m : NewModule} {content : Text}
variable {p : Patch}

section

variable (sound : s.tree.Sound) (leads : s.LeadsToDirectory m.root) (single : '/' ∉ m.package)
variable (worked : Worked c v s m content p)
include leads worked single

/-- The files that a new module lists, by their places. -/
theorem due_of_applied {l : Location} (due : ∃ file ∈ p.files, s.location file = l) :
    (∃ names, (names = [descriptorName] ∨ names = m.sourceNames) ∧
      l = s.location m.root ++ m.name :: names) ∨ l = s.location m.root ++ [descriptorName] := by
  obtain ⟨file, listed, rfl⟩ := due
  have forward {names : List Text} (later : upName ∉ names) : upName ∉ m.name :: names := fun up =>
    (List.mem_cons.mp up).elim (fun same => m.name_ne_up same.symm) later
  rw [worked.patch] at listed
  rcases mem_files_patch.mp listed with rfl | rfl | ⟨_, rfl⟩
  · rw [m.descriptor_eq]
    exact .inl ⟨_, .inl rfl, leads.location_append (forward (by decide))⟩
  · rw [NewModule.packageInfo_eq (packagePath_relative single)]
    exact .inl ⟨_, .inr rfl, leads.location_append (forward m.sourceNames_forward)⟩
  · exact .inr (leads.location_child (by decide))

include sound

omit single in
/-- Nothing was at the place of the new module. -/
theorem free :
    s.tree.at? (s.location m.root ++ [m.name]) = none := by
  have forward : upName ∉ ([] : List Text) := List.not_mem_nil
  have absent := NewModule.absent_below sound leads.way worked.free forward
  rw [entryAt, leads.location_append (by simpa using m.name_ne_up.symm)] at absent
  exact absent

omit single in
theorem free_below {tail : List Text} : s.tree.at? (s.location m.root ++ m.name :: tail) = none := by
  have absent := free sound leads worked
  by_cases none : tail = []
  · rw [none, absent]
  · refine sound.below (l := s.location m.root ++ [m.name]) (by simp [absent]) ⟨tail, by simp⟩ ?_
    simpa using Ne.symm none

/-- The only source of a new module describes its package. -/
theorem keepsSources (applied : p.Applied c s s') : s.KeepsSources s' := by
  refine applied.pending.keepsSources fun l due ends => ?_
  have other : sourceEnding.isSuffixOf descriptorName = false := by decide
  rcases due_of_applied leads single worked due with ⟨names, rfl | rfl, rfl⟩ | rfl
  · rw [List.append_cons, List.getLast?_concat, Option.getD_some, other] at ends
    cases ends
  · refine ⟨free_below sound leads worked, ?_⟩
    rw [List.append_cons, NewModule.sourceNames, ← List.append_assoc, List.getLast?_concat]
  · rw [List.getLast?_concat, Option.getD_some, other] at ends
    cases ends

variable (applied : p.Applied c s s')
include applied

/-- What is new is the new module and what is in it. -/
theorem below_of_new {l : Location} (absent : s.tree.at? l = none) (there : s'.tree.at? l ≠ none) :
    ∃ tail, (tail <+: [descriptorName] ∨ tail <+: m.sourceNames) ∧
      l = s.location m.root ++ m.name :: tail := by
  obtain ⟨file, listed, part⟩ := applied.leads sound absent there
  rcases due_of_applied leads single worked ⟨file, listed, rfl⟩ with ⟨names, kind, place⟩ | place
  · rw [place] at part
    obtain ⟨more, inner, inside, rfl⟩ := sound.beyond_of_absent leads.there absent part
    rcases List.prefix_cons_iff.mp inside with none | ⟨tail, rfl, later⟩
    · exact absurd none inner
    · refine ⟨tail, kind.imp (fun same => ?_) (fun same => ?_), rfl⟩
      · exact same ▸ later
      · exact same ▸ later
  · -- The descriptor of the module that gains the new one is not new.
    have found := (locate_of_exists worked.found).2
    rw [entryAt, NewModule.parent, leads.location_child (by decide)] at found
    rw [place] at part
    by_cases same : l = s.location m.root ++ [descriptorName]
    · exact absurd (same ▸ absent) found
    · cases (sound.above found part same).symm.trans absent

omit sound single in
/-- The new module holds its descriptor. -/
theorem descriptor_of_applied : ∃ mode,
    s'.tree.at? (s.location m.root ++ [m.name, descriptorName]) = some (.file (Utf8.encode
      (Scaffold.descriptor content m.root.name m.name m.component m.layer.name)) mode) := by
  obtain ⟨mode, entry⟩ := holds_descriptor worked applied
  rw [m.descriptor_eq, leads.location_append (fun up => (List.mem_cons.mp up).elim
    (fun same => m.name_ne_up same.symm) (by decide))] at entry
  exact ⟨mode, entry⟩

/-- Next to what was there before, only the new module is new. -/
theorem eq_of_new_child {l : Location} {name : Text} (there : s.tree.at? l ≠ none)
    (absent : s.tree.at? (l ++ [name]) = none) (new : s'.tree.at? (l ++ [name]) ≠ none) :
    l = s.location m.root ∧ name = m.name := by
  obtain ⟨tail, _, split⟩ := below_of_new sound leads single worked applied absent new
  rcases List.eq_nil_or_concat tail with rfl | ⟨front, last, rfl⟩
  · obtain ⟨same, same'⟩ := List.append_inj' split rfl
    exact ⟨same, List.singleton_inj.mp same'⟩
  · rw [List.concat_eq_append, ← List.cons_append, ← List.append_assoc] at split
    rw [(List.append_inj' split rfl).1] at there
    exact absurd (free_below sound leads worked) there

/-- No other directory is affected. -/
theorem unaffected {base : Location} {names names' : List Text}
    (at_ : s.location m.root = base ++ names) (searched : names.all Module.isSearched = true)
    (there : s.tree.at? (base ++ names') ≠ none) (other : names' ≠ names) :
    Scan.Unaffected s s' (base ++ names') where
  layers name dash absent directory := by
    have new := eq_of_new_child sound leads single worked applied there absent
      (by rw [directory]; nofun)
    exact other (List.append_cancel_left (new.1.trans at_))
  descriptor := by
    by_cases absent : s.tree.at? (base ++ names' ++ [descriptorName]) = none
    · rw [absent]
      by_contra new
      have new := eq_of_new_child sound leads single worked applied there absent new
      exact other (List.append_cancel_left (new.1.trans at_))
    · refine applied.pending.tree.kept_of_not_due absent fun due => ?_
      rcases due_of_applied leads single worked due with ⟨names, _, split⟩ | split
      · rw [split] at absent
        exact absent (free_below sound leads worked)
      · rw [at_] at split
        exact other (List.append_cancel_left (List.append_inj' split rfl).1)
  parts part listed absent := by
    by_contra new
    obtain ⟨tail, _, split⟩ := below_of_new sound leads single worked applied absent new
    rw [at_, List.append_assoc, List.append_assoc] at split
    -- One of the two directories is above the other: a part is not searched, and nothing was below
    -- the new module.
    rcases List.append_eq_append_iff.mp (List.append_cancel_left split) with
      ⟨t, rfl, names⟩ | ⟨t, rfl, names⟩
    · cases t with
      | nil => exact other (by simp)
      | cons name t =>
        have head : Module.isSearched name = true := by simp at searched; exact searched.2.1
        have first := (Detector.single_of_searched part listed).1
        rw [names] at first
        have length := first (by simpa using head)
        simp only [List.cons_append, List.length_cons, List.length_append] at length
        omega
    · cases t with
      | nil => exact other (by simp)
      | cons name t =>
        obtain ⟨rfl, _⟩ := List.cons.inj names
        rw [← List.append_assoc, ← at_] at there
        exact there (free_below sound leads worked)

omit sound single in
/-- The directory of the new module is reached. -/
theorem leads_new : s'.LeadsToDirectory m.directory := by
  have there := exists_directory worked applied
  have found := locate_of_exists there
  have grown := applied.grown
  have at_ : s.location m.directory = s.location m.root ++ [m.name] :=
    leads.location_child m.name_ne_up
  obtain ⟨mode, entry⟩ := descriptor_of_applied leads worked applied
  rw [List.append_cons] at entry
  refine ⟨found.1, ?_⟩
  rw [entryAt, grown.location, at_]
  exact grown.sound _ descriptorName (by rw [entry]; exact Option.some_ne_none _)

/-- There is no directory of a layer in the new module. -/
theorem no_layer_in_new (ending : Text) :
    s'.tree.at? (s.location m.root ++ [m.name, moduleName m.component ending]) ≠
      some .directory := by
  intro directory
  have absent : s.tree.at? (s.location m.root ++ [m.name, moduleName m.component ending]) = none :=
    free_below sound leads worked
  obtain ⟨tail, kind, split⟩ := below_of_new sound leads single worked applied absent
    (by rw [directory]; nofun)
  obtain rfl := (List.cons.inj (List.append_cancel_left split)).2
  -- What the new module holds has no dash in its name.
  have dash := dash_mem_moduleName m.component ending
  rcases kind with inside | inside
  · exact ne_of_dash dash (by decide) (List.cons_prefix_cons.mp inside).1
  · have first : m.sourceNames = "src".toList :: m.sourceNames.tail := rfl
    rw [first] at inside
    exact ne_of_dash dash (by decide) (List.cons_prefix_cons.mp inside).1

/-- The new module is found, and it has no layers. -/
theorem read_new (plain : m.root.Plain) {rule : Text}
    (required : (rule, m.layer) ∈ Rule.requiredLayers)
    (component : m.component = componentName m.root.name)
    (short : ∀ ending ∈ Module.layerEndings,
      nameSize (moduleName m.component ending) ≤ maxNameSize) :
    Module.read? s' m.directory = .ok (some ⟨m.component, m.directory, []⟩) := by
  have grown := applied.grown
  have leads' := leads_new leads worked applied
  have at_ : s'.location m.directory = s.location m.root ++ [m.name] := by
    rw [grown.location]
    exact leads.location_child m.name_ne_up
  obtain ⟨mode, entry⟩ := descriptor_of_applied leads worked applied
  have other := RepairContext.descriptorName_ne_up
  have there : s'.exists? (m.directory.child descriptorName) = .ok true := by
    rw [(leads'.direct.child other RepairContext.descriptorName_short).exists? grown.sound, entryAt,
      leads'.location_child other, at_, List.append_assoc]
    simp only [List.cons_append, List.nil_append, entry]
    rfl
  have name : componentName m.directory.name = m.component := by
    have last : m.directory.name = m.name := by
      simp [NewModule.directory, Path.name, Path.child]
    rw [last]
    exact componentName_moduleName _ required
  have layers : Layer.all.filterM (fun layer =>
      (Module.layerDirectories m.component layer).anyM fun name =>
        s'.isDirectory? (m.directory / Path.ofText name)) = .ok [] := by
    rw [filterM_eq_ok (g := fun _ => false) fun layer _ => anyM_eq_false fun name listed => ?_]
    · exact congrArg Except.ok (List.filter_eq_nil_iff.mpr fun _ _ => Bool.false_ne_true)
    · obtain ⟨ending, known, rfl⟩ := Module.mem_layerDirectories listed
      rw [leads'.isDirectory_layer grown.sound plain component known (short ending known), at_,
        List.append_assoc]
      exact congrArg Except.ok
        (decide_eq_false (no_layer_in_new sound leads single worked applied ending))
  unfold Module.read? Module.read
  simp only [there, name, layers, bind, Except.bind, pure, Except.pure, if_true]

end

end Scaffolding

end Layering
