import Layering.Proofs.Rescans

/-!
# Violations that a repair settles

A repair of a missing layer or of a missing wrapper takes its violation from the next scan and adds
none: the module that is repaired is the one that the scan found lacking, and what comes to the tree is
looked at by no other detector.
-/

namespace Layering

open Site

namespace RepairContext

variable {c : RepairContext} {s : Site} {root d : Path}

/-- The project holds the directory. -/
def Covers (c : RepairContext) (s : Site) (root : Path) : Prop :=
  s.resolve c.projectRoot = s.resolve root ∨ s.resolve c.projectRoot ∈ (s.resolve root).ancestors

theorem Covers.prefix (covers : c.Covers s root) (forward : upName ∉ s.workingDirectory) :
    s.location c.projectRoot <+: s.location root := by
  rw [← names_resolve forward, ← names_resolve forward]
  rcases covers with same | above
  · rw [same]
  · exact (Action.mem_ancestors_iff.mp above).2.1

/-- From below a module the search goes up to it, past directories without descriptors. -/
theorem moduleAbove_of_below (sound : s.tree.Sound) (forward : upName ∉ s.workingDirectory)
    (covers : s.location c.projectRoot <+: s.location d) (leads : s.LeadsToDirectory d)
    (module : s.exists? (d.child descriptorName) = .ok true) {more : List Text}
    (forward' : upName ∉ more) (short : ∀ name ∈ more, nameSize name ≤ maxNameSize)
    (bare : ∀ names, names ≠ [] → names <+: more →
      s.tree.at? (s.location d ++ names ++ [descriptorName]) = none)
    {n : Nat} (room : more.length < n) :
    c.moduleAbove s ⟨d.anchor, d.names ++ more⟩ n = .ok d := by
  -- By induction from the far end, as the search goes up.
  induction more using List.reverseRecOn generalizing n with
  | nil =>
    obtain ⟨n, rfl⟩ := Nat.exists_eq_succ_of_ne_zero (Nat.ne_zero_of_lt room)
    have module : s.exists? (Path.child ⟨d.anchor, d.names ++ []⟩ descriptorName) = .ok true := by
      rwa [List.append_nil]
    rw [moduleAbove, module, List.append_nil]
    rfl
  | append_singleton more name ih =>
    obtain ⟨n, rfl⟩ := Nat.exists_eq_succ_of_ne_zero (Nat.ne_zero_of_lt room)
    have direct : s.Direct ⟨d.anchor, d.names ++ (more ++ [name])⟩ :=
      ⟨_, _, leads.way.append forward', by simpa using short⟩
    have place : s.location ⟨d.anchor, d.names ++ (more ++ [name])⟩ =
        s.location d ++ (more ++ [name]) := leads.location_append forward'
    have absent : s.exists? (Path.child ⟨d.anchor, d.names ++ (more ++ [name])⟩ descriptorName) =
        .ok false := by
      rw [(direct.child descriptorName_ne_up descriptorName_short).exists? sound, entryAt,
        direct.location_child descriptorName_ne_up, place, bare _ (by simp) List.prefix_rfl]
      rfl
    have inside : s.resolve c.projectRoot ∈
        (s.resolve ⟨d.anchor, d.names ++ (more ++ [name])⟩).ancestors := by
      rw [resolve_eq forward, resolve_eq forward, place]
      refine Action.mem_ancestors_iff.mpr ⟨rfl, covers.trans (List.prefix_append ..), fun same => ?_⟩
      have length := covers.length_le
      have longer := congrArg List.length same
      simp only [List.length_append, List.length_singleton] at longer
      omega
    have other : s.resolve ⟨d.anchor, d.names ++ (more ++ [name])⟩ ≠ s.resolve c.projectRoot :=
      fun same => (Action.mem_ancestors_iff.mp inside).2.2 (by rw [same])
    have up : Path.parent ⟨d.anchor, d.names ++ (more ++ [name])⟩ = ⟨d.anchor, d.names ++ more⟩ := by
      simp [Path.parent, ← List.append_assoc]
    rw [moduleAbove, absent, up]
    simp only [bind, Except.bind, other, List.contains_iff_mem.mpr inside, Bool.false_eq_true,
      if_false, decide_false, Bool.not_true, Bool.or_self]
    refine ih (fun member => forward' (List.mem_append_left _ member))
      (fun name member => short name (List.mem_append_left _ member))
      (fun names inner part => bare names inner (part.trans (List.prefix_append ..))) ?_
    rw [List.length_append, List.length_singleton] at room
    omega

/-- A violation below a module belongs to it if there are no descriptors between. -/
theorem moduleOf_of_below {v : Violation} (sound : s.tree.Sound)
    (forward : upName ∉ s.workingDirectory)
    (covers : s.location c.projectRoot <+: s.location d) (leads : s.LeadsToDirectory d)
    (module : s.exists? (d.child descriptorName) = .ok true) {more : List Text}
    (plain : Path.Plain ⟨d.anchor, d.names ++ more⟩) (forward' : upName ∉ more)
    (short : ∀ name ∈ more, nameSize name ≤ maxNameSize)
    (bare : ∀ names, names ≠ [] → names <+: more →
      s.tree.at? (s.location d ++ names ++ [descriptorName]) = none)
    (at_ : v.location = Path.text ⟨d.anchor, d.names ++ more⟩) : c.moduleOf s v = .ok d := by
  have direct : s.Direct ⟨d.anchor, d.names ++ more⟩ :=
    ⟨_, _, leads.way.append forward', by simpa using short⟩
  rw [moduleOf_eq_above]
  simp only [at_, Path.ofText_text plain, direct.isDirectory? sound, bind, Except.bind]
  split
  · refine moduleAbove_of_below sound forward covers leads module forward' short bare ?_
    rw [List.length_append]
    omega
  next closed =>
    have inner : more ≠ [] := by
      rintro rfl
      simp only [List.append_nil, leads.2, decide_true, not_true] at closed
    have parent : Path.parent ⟨d.anchor, d.names ++ more⟩ = ⟨d.anchor, d.names ++ more.dropLast⟩ := by
      rw [Path.parent, List.dropLast_append_of_ne_nil inner]
    rw [parent]
    refine moduleAbove_of_below sound forward covers leads module
      (fun up => forward' (List.dropLast_subset _ up))
      (fun name member => short name (List.dropLast_subset _ member))
      (fun names some part => bare names some (part.trans (List.dropLast_prefix more))) ?_
    rw [List.length_append]
    omega

end RepairContext

/-! ### The build wrapper -/

namespace Detector

/-- A part of the wrapper is not found in a directory that is searched, but for the scripts, which
are there by themselves. -/
theorem single_of_searched : ∀ part ∈ parts,
    ((Path.ofText part).names.head?.all Module.isSearched = true → (Path.ofText part).names.length = 1) ∧
      (Path.ofText part).names ≠ [] := by
  decide

theorem whole_of_searched {part : Text} (listed : part ∈ parts) {more : List Text} (inner : more ≠ [])
    (inside : more <+: (Path.ofText part).names) (searched : more.all Module.isSearched = true) :
    more = (Path.ofText part).names := by
  obtain ⟨first, _⟩ := single_of_searched part listed
  obtain ⟨name, tail, rfl⟩ := List.exists_cons_of_ne_nil inner
  obtain ⟨rest, split⟩ := inside
  rw [← split] at first ⊢
  simp only [List.all_cons, Bool.and_eq_true] at searched
  have length := first (by simpa using searched.1)
  simp only [List.cons_append, List.length_cons, List.length_append] at length
  have none : rest = [] := List.length_eq_zero_iff.mp (by omega)
  rw [none, List.append_nil]

/-- What is named alike from two directories that are searched belongs to one of them. -/
theorem eq_of_append_eq {a b more : List Text} {part part' : Text} (listed : part ∈ parts)
    (listed' : part' ∈ parts) (searched : a.all Module.isSearched = true)
    (searched' : b.all Module.isSearched = true) (inner : more ≠ [])
    (inside : more <+: (Path.ofText part').names)
    (same : a ++ (Path.ofText part).names = b ++ more) : a = b := by
  obtain ⟨first, some⟩ := single_of_searched part listed
  obtain ⟨first', _⟩ := single_of_searched part' listed'
  rcases List.append_eq_append_iff.mp same with ⟨t, rfl, split⟩ | ⟨t, rfl, rfl⟩
  · cases t with
    | nil => simp
    | cons name t =>
      have head : Module.isSearched name = true := by simp at searched'; exact searched'.2.1
      rw [split] at first
      have length := first (by simpa using head)
      simp only [List.cons_append, List.length_cons, List.length_append] at length
      exact absurd (List.length_eq_zero_iff.mp (by omega)) inner
  · cases t with
    | nil => simp
    | cons name t =>
      have head : Module.isSearched name = true := by simp at searched; exact searched.2.1
      obtain ⟨rest, split⟩ := inside
      rw [← split] at first'
      have length := first' (by simpa using head)
      simp only [List.cons_append, List.length_cons, List.length_append] at length
      exact absurd (List.length_eq_zero_iff.mp (by omega)) some

theorem plain_part {d : Path} (plain : d.Plain) {part : Text} (listed : part ∈ parts) :
    (d / Path.ofText part).Plain := by
  rw [div_part listed]
  intro name member
  rcases List.mem_append.mp member with outer | inner
  · exact plain name outer
  · exact Path.plain_ofText part name inner

/-- Parts of wrappers that are written alike are at the same place. -/
theorem eq_of_text_eq {d d' : Path} (plain : d.Plain) (plain' : d'.Plain) {part part' : Text}
    (listed : part ∈ parts) (listed' : part' ∈ parts)
    (same : (d / Path.ofText part).text = (d' / Path.ofText part').text) :
    (⟨d.anchor, d.names ++ (Path.ofText part).names⟩ : Path) =
      ⟨d'.anchor, d'.names ++ (Path.ofText part').names⟩ := by
  rw [← div_part listed, ← div_part listed', ← Path.ofText_text (plain_part plain listed), same,
    Path.ofText_text (plain_part plain' listed')]

/-- A violation of a missing part of a wrapper is found in an aggregator that lacks the part. -/
theorem Finding.lacking {s : Site} {d : Path} {m : Module} {w : Violation}
    (finding : Finding s d m w) (rule : w.rule = Rule.missingWrapper) :
    m.hasLayers = false ∧ ∃ part ∈ parts, s.exists? (m.path / Path.ofText part) = .ok false ∧
      w.location = (m.path / Path.ofText part).text := by
  cases finding with
  | layer required =>
    have other : ∀ x ∈ Rule.requiredLayers, x.1 ≠ Rule.missingWrapper := by decide
    exact absurd rule (other _ required)
  | source _ _ _ known =>
    rcases known with same | same
    · exact absurd (same.symm.trans rule) (by decide)
    · exact absurd (same.symm.trans rule) (by decide)
  | part single listed _ _ missing => exact ⟨single, _, listed, missing, rfl⟩

end Detector

namespace WrapperFiles

variable {c : RepairContext} {v : Violation} {s s' : Site} {d root : Path} {missing : List Text}
variable {hasDirectory : Bool} {p : Patch} {part : Text}

/-- The directory of the wrapper holds no descriptor, neither itself nor the one above it. -/
def Bare (s : Site) (d : Path) : Prop :=
  s.exists? (d / (".mvn/pom.xml" : Path)) = .ok false ∧
    s.exists? (d / (".mvn/wrapper/pom.xml" : Path)) = .ok false

theorem Bare.absent (bare : Bare s d) (sound : s.tree.Sound) (leads : s.LeadsToDirectory d)
    {names : List Text} (inner : names ≠ []) (part : names <+: (Path.ofText Wrapper.directory).names) :
    s.tree.at? (s.location d ++ names ++ [descriptorName]) = none := by
  have absent {t : Text} (missing : s.exists? (d / Path.ofText t) = .ok false)
      (relative : (Path.ofText t).isAbsolute = false) (forward : upName ∉ (Path.ofText t).names)
      (short : ∀ name ∈ (Path.ofText t).names, nameSize name ≤ maxNameSize) :
      s.tree.at? (s.location d ++ (Path.ofText t).names) = none := by
    have split : d / Path.ofText t = ⟨d.anchor, d.names ++ (Path.ofText t).names⟩ := by
      simp [HDiv.hDiv, Div.div, Path.join, relative]
    rw [split] at missing
    have direct : s.Direct ⟨d.anchor, d.names ++ (Path.ofText t).names⟩ :=
      ⟨_, _, leads.way.append forward, by simpa using short⟩
    rw [direct.exists? sound, entryAt, leads.location_append forward] at missing
    simpa using missing
  have directory : (Path.ofText Wrapper.directory).names = [".mvn".toList, "wrapper".toList] := by
    decide
  rw [directory] at part
  rcases List.prefix_cons_iff.mp part with none | ⟨tail, rfl, later⟩
  · exact absurd none inner
  rcases List.prefix_cons_iff.mp later with rfl | ⟨tail, rfl, last⟩
  · have names : (Path.ofText ".mvn/pom.xml").names = [".mvn".toList, descriptorName] := by
      decide
    have gone := absent bare.1 (by decide) (by decide) (by decide)
    rw [names] at gone
    simpa using gone
  · rw [List.prefix_nil.mp last]
    have names : (Path.ofText ".mvn/wrapper/pom.xml").names =
        [".mvn".toList, "wrapper".toList, descriptorName] := by decide
    have gone := absent bare.2 (by decide) (by decide) (by decide)
    rw [names] at gone
    simpa using gone

/-- A missing part of the wrapper is repaired in the module that lacks it. -/
theorem moduleOf_part (sound : s.tree.Sound) (forward : upName ∉ s.workingDirectory)
    (covers : s.location c.projectRoot <+: s.location d) (plain : d.Plain)
    (leads : s.LeadsToDirectory d) (module : s.exists? (d.child descriptorName) = .ok true)
    (bare : Bare s d) (listed : part ∈ Detector.parts)
    (absent : s.exists? (d / Path.ofText part) = .ok false)
    (at_ : v.location = (d / Path.ofText part).text) : c.moduleOf s v = .ok d := by
  have up : ∀ part ∈ Detector.parts,
      (Path.ofText part).names.dropLast <+: (Path.ofText Wrapper.directory).names := by decide
  obtain ⟨_, forward', short⟩ := Detector.parts_relative part listed
  have direct := Detector.direct_part listed leads
  have gone : s.tree.at? (s.location d ++ (Path.ofText part).names) = none := by
    rw [direct.exists? sound, entryAt, Detector.location_part listed leads] at absent
    simpa using absent
  have split := Detector.div_part listed d
  refine RepairContext.moduleOf_of_below sound forward covers leads module
    (split ▸ Detector.plain_part plain listed) forward' short ?_ (split ▸ at_)
  intro names inner inside
  by_cases whole : names = (Path.ofText part).names
  · rw [whole]
    exact sound.below (by simp [gone]) (List.prefix_append ..) (by simp)
  · refine bare.absent sound leads inner (List.IsPrefix.trans ?_ (up part listed))
    exact (List.prefix_concat_iff.mp (List.dropLast_concat_getLast
      (Detector.single_of_searched part listed).2 ▸ inside)).resolve_left
        (fun same => whole (by rw [same, List.dropLast_concat_getLast]))

theorem mem_parts_of_mem_files {file : Text} (listed : file ∈ Wrapper.files) :
    file ∈ Detector.parts := by
  have all : ∀ file ∈ Wrapper.files, file ∈ Detector.parts := by decide
  exact all file listed

theorem due_of_applied (leads : s.LeadsToDirectory root)
    (worked : Worked c v s root missing hasDirectory p) {l : Location}
    (due : ∃ file ∈ p.files, s.location file = l) :
    ∃ file ∈ Wrapper.files, l = s.location root ++ (Path.ofText file).names := by
  obtain ⟨path, listed, rfl⟩ := due
  rw [worked.patch] at listed
  obtain ⟨file, missing, rfl⟩ := List.mem_map.mp listed
  have listed := worked.listed missing
  exact ⟨file, listed, Detector.location_part (mem_parts_of_mem_files listed) leads⟩

/-- The wrapper has no sources. -/
theorem keepsSources (leads : s.LeadsToDirectory root)
    (worked : Worked c v s root missing hasDirectory p) (applied : p.Applied c s s') :
    s.KeepsSources s' := by
  refine applied.pending.keepsSources fun l due ends => ?_
  obtain ⟨file, listed, rfl⟩ := due_of_applied leads worked due
  have others : ∀ file ∈ Wrapper.files, (Path.ofText file).names ≠ [] ∧
      sourceEnding.isSuffixOf ((Path.ofText file).names.getLast?.getD []) = false := by
    decide
  obtain ⟨inner, other⟩ := others file listed
  rw [getLast?_append_names inner, other] at ends
  cases ends

section

variable (sound : s.tree.Sound) (leads : s.LeadsToDirectory root)
variable (worked : Worked c v s root missing hasDirectory p) (applied : p.Applied c s s')
include sound leads worked applied

/-- What is new lies on the way from the module to a file of the wrapper. -/
theorem below_of_new {l : Location} (absent : s.tree.at? l = none) (there : s'.tree.at? l ≠ none) :
    ∃ file ∈ Wrapper.files, ∃ more, more ≠ [] ∧ more <+: (Path.ofText file).names ∧
      l = s.location root ++ more := by
  obtain ⟨path, listed, part⟩ := applied.leads sound absent there
  rw [worked.patch] at listed
  obtain ⟨file, missing, rfl⟩ := List.mem_map.mp listed
  have listed := worked.listed missing
  have place := Detector.location_part (mem_parts_of_mem_files listed) leads
  rw [WrapperFiles.place, place] at part
  obtain ⟨more, inner, inside, split⟩ :=
    sound.beyond_of_absent leads.there absent part
  exact ⟨file, listed, more, inner, inside, split⟩

/-- A new directory lies above a file of the wrapper. -/
theorem above_of_new_directory {l : Location} (absent : s.tree.at? l = none)
    (there : s'.tree.at? l = some .directory) :
    ∃ file ∈ Wrapper.files, ∃ more, more ≠ [] ∧ more <+: (Path.ofText file).names ∧
      more ≠ (Path.ofText file).names ∧ l = s.location root ++ more := by
  obtain ⟨_, ⟨path, listed, rfl⟩, part, other⟩ :=
    applied.pending.tree.leads_of_directory sound absent there
  rw [worked.patch] at listed
  obtain ⟨file, missing, rfl⟩ := List.mem_map.mp listed
  have listed := worked.listed missing
  have place := Detector.location_part (mem_parts_of_mem_files listed) leads
  rw [WrapperFiles.place, place] at part other
  obtain ⟨more, inner, inside, rfl⟩ :=
    sound.beyond_of_absent leads.there absent part
  exact ⟨file, listed, more, inner, inside, fun same => other (by rw [same]), rfl⟩

/-- No directory of a layer is new. -/
theorem no_new_layer {l : Location} {name : Text} (dash : '-' ∈ name)
    (absent : s.tree.at? (l ++ [name]) = none) : s'.tree.at? (l ++ [name]) ≠ some .directory := by
  intro directory
  have plain : ∀ file ∈ Wrapper.files, ∀ name ∈ (Path.ofText file).names.dropLast, '-' ∉ name := by
    decide
  obtain ⟨file, member, more, inner, inside, other, split⟩ :=
    above_of_new_directory sound leads worked applied absent directory
  have last := congrArg List.getLast? split
  rw [List.getLast?_concat, getLast?_append_names inner] at last
  obtain ⟨rest, whole⟩ := inside
  have rest_ne : rest ≠ [] := fun none => other (by rw [← whole, none, List.append_nil])
  refine plain file member name ?_ dash
  rw [← whole, List.dropLast_append_of_ne_nil rest_ne]
  exact List.mem_append_left _ (List.mem_of_getLast? last.symm)

/-- Descriptors are as before. -/
theorem descriptor_eq (l : Location) :
    s'.tree.at? (l ++ [descriptorName]) = s.tree.at? (l ++ [descriptorName]) := by
  have other : ∀ file ∈ Wrapper.files, descriptorName ∉ (Path.ofText file).names := by
    decide
  by_cases absent : s.tree.at? (l ++ [descriptorName]) = none
  · rw [absent]
    by_contra there
    obtain ⟨file, member, more, inner, inside, split⟩ :=
      below_of_new sound leads worked applied absent there
    have last := congrArg List.getLast? split
    rw [List.getLast?_concat, getLast?_append_names inner] at last
    exact other file member (inside.subset (List.mem_of_getLast? last.symm))
  · refine applied.pending.tree.kept_of_not_due absent fun due => ?_
    obtain ⟨file, member, split⟩ := due_of_applied leads worked due
    have inner := (Detector.single_of_searched file (mem_parts_of_mem_files member)).2
    have last := congrArg List.getLast? split
    rw [List.getLast?_concat, getLast?_append_names inner] at last
    exact other file member (List.mem_of_getLast? last.symm)

/-- No other directory is affected. -/
theorem unaffected {base : Location} {names names' : List Text} (at_ : s.location root = base ++ names)
    (searched : names.all Module.isSearched = true) (searched' : names'.all Module.isSearched = true)
    (other : names' ≠ names) : Scan.Unaffected s s' (base ++ names') where
  layers _ dash absent := no_new_layer sound leads worked applied dash absent
  descriptor := descriptor_eq sound leads worked applied _
  parts part member absent := by
    by_contra there
    obtain ⟨file, member', more, inner, inside, split⟩ :=
      below_of_new sound leads worked applied absent there
    rw [at_, List.append_assoc, List.append_assoc] at split
    exact other (Detector.eq_of_append_eq member (mem_parts_of_mem_files member') searched' searched
      inner inside (List.append_cancel_left split))

end

/-- A violation is about a part of the wrapper that a module lacks. -/
def Concerns (d : Path) (v : Violation) : Prop :=
  v.rule = Rule.missingWrapper ∧ ∃ part ∈ Detector.parts, v.location = (d / Path.ofText part).text

instance (d : Path) : DecidablePred (Concerns d) := fun _ => inferInstanceAs (Decidable (_ ∧ _))

theorem Concerns.split {w : Violation} {m : Module} (concerns : Concerns root w)
    (finding : Detector.Finding s d m w) : ∃ part part', part ∈ Detector.parts ∧
      part' ∈ Detector.parts ∧ (m.path / Path.ofText part).text = (root / Path.ofText part').text := by
  obtain ⟨rule, part', listed', at_⟩ := concerns
  obtain ⟨_, part, listed, _, at'⟩ := finding.lacking rule
  exact ⟨part, part', listed, listed', at'.symm.trans at_⟩

/-- What is found in one directory concerns no other. -/
theorem Concerns.names_eq {base : Path} {names names' : List Text} (written : s.tree.Written)
    (plain : base.Plain)
    (listed : Module.Listed s base names) (listed' : Module.Listed s base names') {m : Module}
    {w : Violation} (path : m.path = ⟨base.anchor, base.names ++ names'⟩)
    (finding : Detector.Finding s ⟨base.anchor, base.names ++ names'⟩ m w)
    (concerns : Concerns ⟨base.anchor, base.names ++ names⟩ w) : names' = names := by
  obtain ⟨part, part', listedPart, listedPart', split⟩ := concerns.split finding
  have plain' := path.symm ▸ listed'.plain written plain
  have split := path ▸ Detector.eq_of_text_eq plain' (listed.plain written plain) listedPart
    listedPart' split
  simp only [Path.mk.injEq, List.append_assoc, true_and] at split
  exact Detector.eq_of_append_eq listedPart listedPart' listed'.searched listed.searched
    (Detector.single_of_searched part' listedPart').2 List.prefix_rfl (List.append_cancel_left split)

/-- What an aggregator is reported of is what it lacks of the wrapper. -/
theorem concerns_of_finding {m : Module} {w : Violation} (path : m.path = root)
    (several : m.hasLayers = false) (finding : Detector.Finding s root m w) : Concerns root w := by
  cases finding with
  | layer _ several' => cases several.symm.trans several'
  | source several' => cases several.symm.trans several'
  | part _ listed => exact ⟨rfl, _, listed, by rw [← path]; rfl⟩

section

variable (sound : s.tree.Sound) (leads : s.LeadsToDirectory root)
variable (worked : Worked c v s root missing hasDirectory p) (applied : p.Applied c s s')
include sound leads worked applied

/-- The module reads as before. -/
theorem read_of_applied (plain : root.Plain) : Module.read? s' root = Module.read? s root := by
  have grown := applied.grown
  unfold Module.read?
  rw [Module.exists_descriptor_eq grown sound leads fun absent =>
      (descriptor_eq sound leads worked applied _).trans absent,
    Module.read_eq grown sound plain leads fun _ dash absent =>
      no_new_layer sound leads worked applied dash absent]

/-- No part of the wrapper is missing any more. -/
theorem parts_of_applied (housed : s.Housed) (listed : part ∈ Detector.parts) :
    s'.exists? (root / Path.ofText part) = .ok true := by
  have steady : s.Steady root := by
    refine .inr ?_
    rw [leads.direct.exists? sound, leads.2]
    rfl
  have each {file : Text} (listed : file ∈ Wrapper.files) :=
    complete sound housed steady worked applied listed
  rcases List.mem_append.mp (show part ∈ Wrapper.files ++ [Wrapper.directory] from listed) with
    file | directory
  · exact each file
  · -- The directory is that of a file which is there.
    have there := each (show Wrapper.properties ∈ Wrapper.files by decide)
    rw [place_properties] at there
    obtain ⟨base, way⟩ := Site.way_of_child there
    rw [List.mem_singleton.mp directory]
    have found := way.leads.direct.exists? (applied.grown.sound)
    rw [way.leads.2] at found
    exact found

/-- Nothing is left to report of the module. -/
theorem ofDirectory_of_applied {scan : Scan} {coreTypes : List Text}
    (all : scan.detectors = Detector.standard coreTypes) (housed : s.Housed) (plain : root.Plain)
    (single : ∀ m, Module.at? s root = some m → m.hasLayers = false) :
    scan.ofDirectory s' root = (scan.ofDirectory s root).filter fun w =>
      !decide (Concerns root w) := by
  have grown := applied.grown
  have at_ : Module.at? s' root = Module.at? s root := by
    rw [Module.at?, Module.at?, read_of_applied sound leads worked applied plain]
  have before : (scan.ofDirectory s root).filter (fun w => !decide (Concerns root w)) = [] := by
    refine List.filter_eq_nil_iff.mpr fun w member => ?_
    obtain ⟨m, there, finding⟩ := Scan.finding_of_ofDirectory sound plain leads all member
    have path := (Module.reading_of_read (Module.read_of_at? there).2).path
    simp [concerns_of_finding path (single m there) finding]
  have after : scan.ofDirectory s' root = [] := by
    refine List.eq_nil_iff_forall_not_mem.mpr fun w member => ?_
    obtain ⟨m, there, finding⟩ :=
      Scan.finding_of_ofDirectory grown.sound plain (grown.leads leads) all member
    have path := (Module.reading_of_read (Module.read_of_at? there).2).path
    obtain ⟨rule, _⟩ := concerns_of_finding path (single m (at_ ▸ there)) finding
    obtain ⟨_, part, listed, lacking, _⟩ := finding.lacking rule
    rw [path] at lacking
    cases (parts_of_applied sound leads worked applied housed listed).symm.trans lacking
  rw [after, before]

/-- No directory that is new is searched. -/
theorem no_new_listed {base : Path} {names names' : List Text}
    (place : s.location root = s.location base ++ names) (listed : Module.Listed s' base names') :
    s.tree.at? (s.location base ++ names') ≠ none := by
  intro absent
  have directory := listed.directory
  rw [applied.grown.location] at directory
  obtain ⟨file, member, more, inner, inside, other, split⟩ :=
    above_of_new_directory sound leads worked applied absent directory
  rw [place, List.append_assoc] at split
  have searched := listed.searched
  rw [List.append_cancel_left split, List.all_append, Bool.and_eq_true] at searched
  exact other (Detector.whole_of_searched (mem_parts_of_mem_files member) inner inside searched.2)

end

/-- A scan after the installation of a wrapper reports the rest of the findings of the first. -/
theorem findings_of_applied {scan : Scan} {coreTypes : List Text}
    (all : scan.detectors = Detector.standard coreTypes) (sound : s.tree.Sound)
    (written : s.tree.Written) (housed : s.Housed) {base : Path} (plain : base.Plain)
    (leads : s.LeadsToDirectory base)
    (readable : ∀ d ∈ Module.directories s base, Module.read? s d = .ok (Module.at? s d))
    {names : List Text} (listed : Module.Listed s base names)
    (at_ : root = ⟨base.anchor, base.names ++ names⟩)
    (worked : Worked c v s root missing hasDirectory p) (applied : p.Applied c s s')
    (single : ∀ m, Module.at? s root = some m → m.hasLayers = false) :
    (∃ modules, Module.discover s' base = .ok modules) ∧
      scan.findings s' base = (scan.findings s base).filter fun w => !decide (Concerns root w) := by
  have read := readable _ ((Module.mem_directories_iff leads).mpr ⟨names, listed, rfl⟩)
  have leadsRoot : s.LeadsToDirectory root := at_ ▸ listed.leads sound written leads read
  have plainRoot : root.Plain := at_ ▸ listed.plain written plain
  have place : s.location root = s.location base ++ names := by
    rw [at_, listed.location written leads]
  refine Scan.findings_of_repaired (keepsSources leadsRoot worked applied) sound written plain leads
    all readable names ⟨?_, ?_⟩ (fun names' listed' other => ⟨?_, ?_⟩) ?_
  · rw [← at_] at read ⊢
    exact ⟨_, (read_of_applied sound leadsRoot worked applied plainRoot).trans read⟩
  · rw [← at_]
    exact ofDirectory_of_applied sound leadsRoot worked applied all housed plainRoot single
  · exact unaffected sound leadsRoot worked applied place listed.searched listed'.searched other
  · intro m w found finding concerns
    have path := (Module.reading_of_read (Module.read_of_at? found).2).path
    exact other ((at_ ▸ concerns).names_eq written plain listed listed' path finding)
  · exact fun _ new absent =>
      (no_new_listed sound leadsRoot worked applied place new absent).elim

end WrapperFiles

end Layering
