import Layering.Proofs.Changes
import Layering.Proofs.Edits

/-!
# Exact patches

The patches of the bundled fixers write every file that they list, give each other bytes than it
had, and touch nothing else.
-/

namespace Layering

/-- A patch changes nothing but the files that it lists, and makes no directories but on the way to
them. -/
def Patch.Due (s : Site) (p : Patch) : Prop :=
  ∀ change ∈ p.changes, change.Due s fun m => ∃ file ∈ p.files, s.location file = m

/-- However a patch ends, nothing has changed but the files that it lists. -/
theorem Patch.Due.pending {s : Site} {p : Patch} (due : p.Due s) (sound : s.tree.Sound)
    (c : RepairContext) (v : Violation) :
    s.Pending (p.apply c v s).2 fun m => ∃ file ∈ p.files, s.location file = m := by
  obtain ⟨s₁, untouched, run⟩ := p.apply_apply c v s
  have start : s.Pending s₁ fun m => ∃ file ∈ p.files, s.location file = m :=
    (Site.Pending.refl sound _).of_untouched untouched
  rw [run]
  cases c.dryRun with
  | true => exact start
  | false =>
    have pending := Change.pending_forM due start (c := c)
    simp only [Bool.false_eq_true, if_false]
    rcases changed : p.changes.forM c.apply s₁ with ⟨e | ⟨⟩, s'⟩ <;> rwa [changed] at pending

/-- A patch writes every file that it lists, each with other bytes than it has, and changes nothing
but these. -/
structure Patch.Exact (s : Site) (p : Patch) : Prop where
  due : p.Due s
  renews : ∀ change ∈ p.changes, change.Renews s
  written : ∀ file ∈ p.files, ∃ change ∈ p.changes, ∃ text, change.Writes file text

/-! ### Modules -/

namespace Site

variable {s : Site} {root : Path} {name : Text}

/-- What holds an entry is a directory to which the path leads. -/
theorem way_of_child (there : s.exists? (root.child name) = .ok true) :
    ∃ base, s.Way root base [] := by
  have way := (locate_of_exists there).1
  have split : s.locate (root.child name) =
      (s.tree.follow (s.start root) root.names).bind fun l => s.tree.follow l [name] :=
    Tree.follow_append ..
  rw [split] at way
  cases first : s.tree.follow (s.start root) root.names with
  | error o =>
    rw [first] at way
    cases way
  | ok base =>
    rw [first] at way
    exact ⟨base, ⟨root.names, (List.append_nil _).symm, first⟩,
      Tree.directory_of_follow way (by simp), List.not_mem_nil⟩

theorem Way.leads {base : Location} (way : s.Way root base []) : s.LeadsToDirectory root := by
  have at_ : s.location root = base := by rw [way.location, List.append_nil]
  exact ⟨by rw [way.locate, at_]; rfl, by rw [entryAt, at_, way.directory]⟩

end Site

namespace RepairContext

variable {c : RepairContext} {v : Violation} {s : Site} {root : Path}

theorem moduleAbove_cases {directory : Path} {n : Nat}
    (found : c.moduleAbove s directory n = .ok root) :
    root = c.moduleRoot ∨ s.exists? (root.child descriptorName) = .ok true := by
  induction n generalizing directory with
  | zero => exact .inl (Except.ok.inj found).symm
  | succ n ih =>
    obtain ⟨there, asked, found⟩ := Except.bind_eq_ok found
    cases there with
    | true =>
      cases found
      exact .inr asked
    | false =>
      simp only [Bool.false_eq_true, if_false] at found
      split at found
      · exact .inl (Except.ok.inj found).symm
      · exact ih found

/-- The module that a violation is about lies on a way, if that of the context does. -/
theorem way_of_moduleOf (sound : s.tree.Sound) (housed : s.Housed) (steady : s.Steady c.moduleRoot)
    (found : c.moduleOf s v = .ok root) : ∃ base rest, s.Way root base rest := by
  rw [moduleOf_eq_above] at found
  obtain ⟨isDirectory, _, found⟩ := Except.bind_eq_ok found
  rcases moduleAbove_cases found with rfl | there
  · exact Site.way_of_firm housed (steady.firm sound)
  · obtain ⟨base, way⟩ := Site.way_of_child there
    exact ⟨base, [], way⟩

/-- Names are made of word characters and points. -/
structure Plain (c : RepairContext) : Prop where
  group : ∀ letter ∈ c.group, Java.isQualifiedPart letter = true
  mappings : ∀ entry ∈ c.mappings, ∀ letter ∈ entry.1 ++ entry.2.api,
    Java.isQualifiedPart letter = true

theorem Plain.slash_not_mem {c : RepairContext} (plain : c.Plain) : '/' ∉ c.group := by
  intro slash
  have other : Java.isQualifiedPart '/' = false := by decide
  cases other.symm.trans (plain.group _ slash)

theorem plain_standardGroup :
    ∀ letter ∈ ({} : Settings).group, Java.isQualifiedPart letter = true :=
  List.all_eq_true.mp rfl

end RepairContext

/-! ### The fixers -/

namespace TypeTable

variable {table : TypeTable} {message core : Text} {mapping : TypeMapping}

/-- The name of a core class in a text is made of word characters. -/
theorem word_of_coreNameAt? {t name : Text} (found : coreNameAt? t = some name) :
    ∀ letter ∈ name, Text.isWordChar letter = true := by
  unfold coreNameAt? at found
  simp only at found
  intro letter member
  have word (inside : letter ∈ t.takeWhile Text.isWordChar) : Text.isWordChar letter = true :=
    List.mem_takeWhile_imp inside
  split at found
  · exact word (Option.some.inj found ▸ member)
  · obtain ⟨length, _, rfl⟩ := List.mem_map.mp (List.mem_of_find?_eq_some found)
    exact word (List.mem_of_mem_take member)

theorem word_of_returnedAt? {t name : Text} (found : returnedAt? t = some name) :
    ∀ letter ∈ name, Text.isWordChar letter = true := by
  have word {rest : Option Text}
      (named : (rest.bind Text.dropBlanks?).bind coreNameAt? = some name) :
      ∀ letter ∈ name, Text.isWordChar letter = true := by
    obtain ⟨t, _, named⟩ := Option.bind_eq_some_iff.mp named
    exact word_of_coreNameAt? named
  unfold returnedAt? at found
  simp only at found
  split at found
  next named => exact word (Option.some.inj found ▸ named)
  next => exact word found

/-- A core class that a message names is a word or a name of the table. -/
theorem of_mentioned (mentioned : table.mentioned? message = some core) :
    (∀ letter ∈ core, Text.isWordChar letter = true) ∨ ∃ entry ∈ table, entry.1 = core := by
  unfold mentioned? at mentioned
  split at mentioned
  next name found =>
    obtain ⟨suffix, _, here⟩ := Text.firstSuffix?_eq_some found
    exact .inl (Option.some.inj mentioned ▸ word_of_returnedAt? here)
  next =>
    obtain ⟨entry, found, rfl⟩ := Option.map_eq_some_iff.mp mentioned
    exact .inr ⟨entry, List.mem_of_find?_eq_some found, rfl⟩

theorem contractName?_subset {name : Text} (promised : contractName? core = some name) :
    name ⊆ core := by
  unfold contractName? at promised
  split at promised
  · exact Option.some.inj promised ▸ List.drop_subset _ _
  · split at promised
    · exact Option.some.inj promised ▸ List.take_subset _ _
    · cases promised

/-- The type of the contract has a plain name if all names of the table are plain. -/
theorem plain_of_resolve
    (plain : ∀ entry ∈ table, ∀ letter ∈ entry.1 ++ entry.2.api, Java.isQualifiedPart letter = true)
    (mentioned : table.mentioned? message = some core)
    (resolved : table.resolve? core = some mapping) :
    ∀ letter ∈ mapping.api, Java.isQualifiedPart letter = true := by
  intro letter member
  unfold resolve? at resolved
  split at resolved
  next found =>
    cases resolved
    exact plain _ (Entries.mem_of_get? found) letter (List.mem_append_right _ member)
  next =>
    obtain ⟨name, promised, rfl⟩ := Option.map_eq_some_iff.mp resolved
    have inside := contractName?_subset promised member
    rcases of_mentioned mentioned with word | ⟨entry, listed, rfl⟩
    · rw [Java.isQualifiedPart, word letter inside, Bool.true_or]
    · exact plain entry listed letter (List.mem_append_left _ inside)

end TypeTable

namespace ReturnTypes

variable {c : RepairContext} {v : Violation} {s : Site} {p : Patch}

theorem patch?_eq_some {file : Path} {core content : Text} {mapping : TypeMapping}
    (made : patch? file core mapping content = some p) :
    (Java.patchSignatures mapping content).text ≠ content ∧ p.files = [file] ∧
      ∃ note, p.changes = [.update file
        (Java.reconcileImports mapping (Java.patchSignatures mapping content).text).text,
        .note note] := by
  unfold patch? at made
  simp only at made
  split at made
  · cases made
  next same =>
    obtain rfl := Option.some.inj made
    exact ⟨same, rfl, _, rfl⟩

theorem due_of_way {file : Path} {core content : Text} {mapping : TypeMapping} {base : Location}
    {rest : List Text} (way : s.Way file base rest) (read : s.readText file = .ok content)
    (made : patch? file core mapping content = some p) : p.Due s := by
  obtain ⟨bytes, mode, _, held, _⟩ := Site.readText_eq_ok read
  have beyond := way.inner (by simp [(Site.read_eq_ok.mp held).2])
  obtain ⟨_, files, note, changes⟩ := patch?_eq_some made
  intro change member
  rw [changes] at member
  rw [files]
  rcases List.mem_cons.mp member with rfl | note
  · exact .file (.inr rfl) way beyond ⟨file, List.mem_singleton_self _, rfl⟩
  · rw [List.mem_singleton.mp note]
    exact .note _

theorem due_patch {file : Path} {core content : Text} {mapping : TypeMapping}
    (sound : s.tree.Sound) (housed : s.Housed) (read : s.readText file = .ok content)
    (made : patch? file core mapping content = some p) : p.Due s := by
  obtain ⟨bytes, mode, _, held, _⟩ := Site.readText_eq_ok read
  obtain ⟨base, rest, way⟩ :=
    Site.way_of_firm housed (Site.firm_of_exists sound (Site.exists_of_read held))
  exact due_of_way way read made

theorem exact_patch {file : Path} {core content : Text} {mapping : TypeMapping}
    (sound : s.tree.Sound) (housed : s.Housed)
    (plain : ∀ letter ∈ mapping.api, Java.isQualifiedPart letter = true)
    (read : s.readText file = .ok content) (made : patch? file core mapping content = some p) :
    p.Exact s := by
  obtain ⟨new, files, note, changes⟩ := patch?_eq_some made
  refine ⟨due_patch sound housed read made, ?_, ?_⟩
  · obtain ⟨bytes, mode, decoded, held, decodes, rfl⟩ := Site.readText_eq_ok read
    rw [changes]
    intro change member
    -- The source is rewritten, and the note writes nothing.
    rcases List.mem_cons.mp member with rfl | note
    · refine Change.Renews.of_writes (.inr rfl) fun mode written => ?_
      cases (Site.read_eq_ok.mp held).2.symm.trans written
      rw [Utf8.decode_encode] at decodes
      exact Java.reconcileImports_ne_read plain new (Except.ok.inj decodes)
    · rw [List.mem_singleton.mp note]
      exact .of_nothing (by rintro _ _ (same | same) <;> cases same)
  · rw [files, changes]
    intro file' member
    rw [List.mem_singleton.mp member]
    exact ⟨_, List.mem_cons_self, _, .inr rfl⟩

theorem declared_patch {file : Path} {core content : Text} {mapping : TypeMapping}
    (worked : Worked c v s file core mapping content p) :
    ∃ files, targets c v s = .ok files ∧ ∀ path ∈ p.files, path ∈ files := by
  obtain ⟨_, files, _⟩ := patch?_eq_some worked.patch
  refine ⟨[file], ?_, by simp [files]⟩
  unfold targets
  rw [worked.found]
  rfl

end ReturnTypes

namespace Scaffolding

variable {c : RepairContext} {v : Violation} {s : Site} {m : NewModule} {content : Text} {p : Patch}

theorem newModule?_eq_some (module : newModule? c v s = .ok (some m)) :
    c.moduleOf s v = .ok m.root ∧ m.package = basePackage c.group c.project m.layer.name := by
  obtain ⟨_, _, _, found, rfl⟩ := newModule?_eq_some_iff.mp module
  exact ⟨found, rfl⟩

theorem slash_not_mem_basePackage {group : Text} (single : '/' ∉ group) (project : Text)
    (layer : Layer) : '/' ∉ basePackage group project layer.name := by
  intro member
  rcases Text.mem_of_mem_intercalate member with point | ⟨part, listed, inside⟩
  · exact absurd point (by decide)
  · simp only [List.mem_filter, List.mem_cons, List.not_mem_nil, or_false] at listed
    rcases listed.1 with rfl | rfl | rfl
    · exact single inside
    · -- The name is trimmed and mapped letter by letter, and a stroke is mapped to something
      -- else.
      have mapped := List.dropWhile_subset _ (List.mem_reverse.mp (List.dropWhile_subset _
        (List.mem_reverse.mp inside)))
      obtain ⟨letter, _, same⟩ := List.mem_map.mp mapped
      have other : Text.isWordChar '/' = false := by decide
      by_cases isWord : Text.isWordChar letter = true
      · rw [if_pos isWord] at same
        rw [same, other] at isWord
        cases isWord
      · rw [if_neg isWord] at same
        exact absurd same (by decide)
    · revert inside
      cases layer <;> decide

/-- What holds of a path and is kept by every part of a package holds of its directory. -/
theorem packagePath_rule {motive : Path → Prop} {package : Text} (start : motive {})
    (step : ∀ p, motive p → ∀ part ∈ Text.splitOn '.' package, motive (p / Path.ofText part)) :
    motive (NewModule.packagePath package) := by
  suffices all : ∀ parts : List Text, parts ⊆ Text.splitOn '.' package → ∀ p, motive p →
      motive (parts.foldl (fun p part => p / Path.ofText part) p) from
    all _ (List.Subset.refl _) {} start
  intro parts
  induction parts with
  | nil => exact fun _ p here => here
  | cons part rest ih =>
    intro listed p here
    obtain ⟨first, listed⟩ := List.cons_subset.mp listed
    exact ih listed _ (step p here part first)

/-- The names in a package have no points. -/
theorem point_not_mem_packagePath (package : Text) :
    ∀ name ∈ (NewModule.packagePath package).names, '.' ∉ name := by
  refine packagePath_rule (motive := fun p => ∀ name ∈ p.names, '.' ∉ name) (by simp) ?_
  intro p here part listed name member point
  have inside (named : name ∈ (Path.ofText part).names) : '.' ∈ part :=
    Text.mem_of_mem_pieces (List.mem_of_mem_filter named) point
  have other : '.' ∉ part := fun point => by
    simpa using Text.not_mem_of_mem_pieces listed '.' point
  change name ∈ (p.join (Path.ofText part)).names at member
  unfold Path.join at member
  split at member
  · exact other (inside member)
  · rcases List.mem_append.mp member with before | named
    · exact here name before point
    · exact other (inside named)

theorem packagePath_forward (package : Text) :
    upName ∉ (NewModule.packagePath package).names := fun up =>
  point_not_mem_packagePath package upName up (by decide)

/-- A package without slashes has a directory that is seen from others. -/
theorem packagePath_relative {package : Text} (single : '/' ∉ package) :
    (NewModule.packagePath package).isAbsolute = false := by
  refine packagePath_rule (motive := fun p => p.isAbsolute = false) rfl ?_
  intro p relative part listed
  have plain : '/' ∉ part := fun slash => single (Text.mem_of_mem_pieces listed slash)
  have same : (Path.ofText part).anchor = .here := (Path.ofText_single plain).1
  have inside : (Path.ofText part).isAbsolute = false := by simp [Path.isAbsolute, same]
  change (p.join (Path.ofText part)).isAbsolute = false
  unfold Path.join
  rw [inside]
  exact relative

namespace NewModule

theorem name_ne_of_not_mem (m : NewModule) {t : Text} (plain : '-' ∉ t) : m.name ≠ t := by
  rintro rfl
  exact plain (List.mem_append_right _ List.mem_cons_self)

theorem name_ne_up (m : NewModule) : m.name ≠ upName := m.name_ne_of_not_mem (by decide)

/-- The names from the directory of a module to the source that describes its package. -/
def sourceNames (m : NewModule) : List Text :=
  sourceDirectory.names ++ (packagePath m.package).names ++ [packageInfoName]

theorem sourceNames_forward (m : NewModule) : upName ∉ m.sourceNames :=
  List.not_mem_append (List.not_mem_append (by decide) (packagePath_forward _)) (by decide)

theorem descriptor_eq (m : NewModule) :
    m.descriptor = ⟨m.root.anchor, m.root.names ++ m.name :: [descriptorName]⟩ := by
  simp [descriptor, directory, Path.child]

theorem packageInfo_eq {m : NewModule} (relative : (packagePath m.package).isAbsolute = false) :
    m.packageInfo = ⟨m.root.anchor, m.root.names ++ m.name :: m.sourceNames⟩ := by
  have inside : sourceDirectory.isAbsolute = false := by decide
  simp [packageInfo, HDiv.hDiv, Div.div, Path.join, inside, relative, directory, Path.child,
    sourceNames]

theorem packageInfo_eq_absolute {m : NewModule}
    (absolute : (packagePath m.package).isAbsolute = true) :
    m.packageInfo = (packagePath m.package).child packageInfoName := by
  simp [packageInfo, HDiv.hDiv, Div.div, Path.join, absolute]

theorem way_name {m : NewModule} {base : Location} {rest : List Text}
    (way : s.Way m.root base rest) {more : List Text} (forward : upName ∉ more) :
    s.Way ⟨m.root.anchor, m.root.names ++ m.name :: more⟩ base (rest ++ m.name :: more) := by
  refine way.append fun up => ?_
  rcases List.mem_cons.mp up with same | later
  · exact m.name_ne_up same.symm
  · exact forward later

theorem way_packageInfo {m : NewModule} {base : Location} {rest : List Text}
    (way : s.Way m.root base rest) : ∃ base rest, rest ≠ [] ∧ s.Way m.packageInfo base rest := by
  cases absolute : (packagePath m.package).isAbsolute with
  | false =>
    rw [packageInfo_eq absolute]
    exact ⟨base, _, by simp, way_name way m.sourceNames_forward⟩
  | true =>
    rw [packageInfo_eq_absolute absolute]
    refine ⟨_, _, ?_, Site.way_of_absolute absolute ?_⟩
    · simp [Path.child]
    · exact List.not_mem_append (packagePath_forward _) (by decide)

/-- Below the directory of a new module there is nothing. -/
theorem absent_below (sound : s.tree.Sound) {base : Location} (way : s.Way m.root base [])
    (free : s.exists? m.directory = .ok false) {more : List Text} (forward : upName ∉ more) :
    s.entryAt ⟨m.root.anchor, m.root.names ++ m.name :: more⟩ = none := by
  have direct : s.Way m.directory base [m.name] := way_name way List.not_mem_nil
  have absent := direct.firm.entryAt_of_not_exists sound free
  rw [Site.entryAt, direct.location] at absent
  rw [Site.entryAt, (way_name way forward).location, List.nil_append]
  by_cases last : more = []
  · rw [last, absent]
  · refine sound.below (l := base ++ [m.name]) (by simp [absent]) ⟨more, by simp⟩ ?_
    simpa using Ne.symm last

end NewModule

/-- A descriptor that gains a module is not the one that was read. -/
theorem renews_parent (read : s.readText m.parent = .ok content)
    (new : Descriptor.addModule m.name content ≠ content) (mode : Nat) :
    s.entryAt m.parent ≠ some (.file (Utf8.encode (Descriptor.addModule m.name content)) mode) := by
  obtain ⟨bytes, old, decoded, held, decodes, rfl⟩ := Site.readText_eq_ok read
  intro written
  cases (Site.read_eq_ok.mp held).2.symm.trans written
  rw [Utf8.decode_encode] at decodes
  exact Descriptor.addModule_ne new (Except.ok.inj decodes)

theorem due_patch (worked : Worked c v s m content p) : p.Due s := by
  obtain ⟨base, way⟩ := Site.way_of_child worked.found
  obtain ⟨_, _, inner, infoWay⟩ := NewModule.way_packageInfo way
  have pomWay : s.Way m.descriptor base (m.name :: [descriptorName]) :=
    m.descriptor_eq ▸ NewModule.way_name way (by decide)
  have parentWay : s.Way m.parent base [descriptorName] := way.append (by decide)
  obtain ⟨name, _, _, last⟩ := infoWay.last inner
  rw [worked.patch]
  intro change member
  rcases changes_cases member with step | ⟨text, rfl⟩
  · rcases mem_steps.mp step with rfl | rfl | rfl | ⟨new, rfl⟩
    · exact .directory (infoWay.parent inner) ⟨_, mem_files_patch.mpr (.inr (.inl rfl)), last⟩
    · exact .file (.inl rfl) pomWay (by simp) ⟨_, mem_files_patch.mpr (.inl rfl), rfl⟩
    · exact .file (.inl rfl) infoWay inner ⟨_, mem_files_patch.mpr (.inr (.inl rfl)), rfl⟩
    · exact .file (.inl rfl) parentWay (by simp) ⟨_, mem_files_patch.mpr (.inr (.inr ⟨new, rfl⟩)), rfl⟩
  · exact .note text

theorem renews_patch (infoFresh : s.entryAt m.packageInfo = none)
    (pomFresh : s.entryAt m.descriptor = none)
    (renews : Descriptor.addModule m.name content ≠ content → ∀ mode, s.entryAt m.parent ≠
      some (.file (Utf8.encode (Descriptor.addModule m.name content)) mode)) :
    ∀ change ∈ (patch m content).changes, change.Renews s := by
  intro change member
  rcases changes_cases member with step | ⟨text, rfl⟩
  · rcases mem_steps.mp step with rfl | rfl | rfl | ⟨new, rfl⟩
    · exact .of_nothing (by rintro _ _ (same | same) <;> cases same)
    · exact .of_writes (.inl rfl) (by simp [pomFresh])
    · exact .of_writes (.inl rfl) (by simp [infoFresh])
    · exact .of_writes (.inl rfl) (renews new)
  · exact .of_nothing (by rintro _ _ (same | same) <;> cases same)

/-- Every file that is listed is written. -/
theorem written_patch (m : NewModule) (content : Text) {file : Path}
    (listed : file ∈ (patch m content).files) :
    ∃ change ∈ (patch m content).changes, ∃ text, change.Writes file text := by
  rcases mem_files_patch.mp listed with rfl | rfl | ⟨new, rfl⟩
  · exact ⟨_, mem_changes_of_mem_steps (mem_steps.mpr (.inr (.inl rfl))), _, .inl rfl⟩
  · exact ⟨_, mem_changes_of_mem_steps (mem_steps.mpr (.inr (.inr (.inl rfl)))), _, .inl rfl⟩
  · exact ⟨_, mem_changes_of_mem_steps (mem_steps.mpr (.inr (.inr (.inr ⟨new, rfl⟩)))), _, .inl rfl⟩

theorem exact_patch (sound : s.tree.Sound) (single : '/' ∉ m.package)
    (worked : Worked c v s m content p) : p.Exact s := by
  obtain ⟨base, way⟩ := Site.way_of_child worked.found
  have infoFresh : s.entryAt m.packageInfo = none := by
    rw [NewModule.packageInfo_eq (packagePath_relative single)]
    exact NewModule.absent_below sound way worked.free m.sourceNames_forward
  have pomFresh : s.entryAt m.descriptor = none := by
    rw [m.descriptor_eq]
    exact NewModule.absent_below sound way worked.free (by decide)
  refine ⟨due_patch worked, ?_, ?_⟩
  · rw [worked.patch]
    exact renews_patch infoFresh pomFresh (renews_parent worked.read)
  · rw [worked.patch]
    exact fun file listed => written_patch m content listed

theorem declared_patch (worked : Worked c v s m content p) :
    ∃ files, targets c v s = .ok files ∧ ∀ path ∈ p.files, path ∈ files := by
  refine ⟨[m.descriptor, m.packageInfo, m.parent], ?_, ?_⟩
  · unfold targets
    rw [worked.module]
    rfl
  · rw [worked.patch]
    intro path listed
    rcases mem_files_patch.mp listed with rfl | rfl | ⟨_, rfl⟩ <;> simp

end Scaffolding

namespace WrapperFiles

variable {c : RepairContext} {v : Violation} {s : Site} {root : Path} {p : Patch}

theorem mem_of_filterAuxM {ε α : Type} {f : α → Except ε Bool} {xs kept ys : List α}
    (run : xs.filterAuxM f kept = .ok ys) :
    (∀ x, x ∈ ys ↔ x ∈ kept ∨ x ∈ xs ∧ f x = .ok true) ∧ ∀ x ∈ xs, ∃ b, f x = .ok b := by
  induction xs generalizing kept with
  | nil =>
    cases run
    simp
  -- Along the list: what was kept when it was come to is among the kept ones from there on.
  | cons y xs ih =>
    obtain ⟨b, asked, run⟩ := Except.bind_eq_ok run
    obtain ⟨later, answered⟩ := ih run
    refine ⟨fun x => ?_, List.forall_mem_cons.mpr ⟨⟨b, asked⟩, answered⟩⟩
    rw [later]
    cases b <;> grind

/-- What a filter keeps, all questions of which are answered. -/
theorem mem_of_filterM {ε α : Type} {f : α → Except ε Bool} {xs ys : List α}
    (run : xs.filterM f = .ok ys) :
    (∀ x, x ∈ ys ↔ x ∈ xs ∧ f x = .ok true) ∧ ∀ x ∈ xs, ∃ b, f x = .ok b := by
  obtain ⟨zs, filtered, same⟩ := Except.bind_eq_ok run
  obtain ⟨kept, answered⟩ := mem_of_filterAuxM filtered
  cases same
  exact ⟨fun x => by simpa using kept x, answered⟩

theorem place_eq {file : Text} (listed : file ∈ Wrapper.files) (root : Path) :
    place root file = ⟨root.anchor, root.names ++ (Path.ofText file).names⟩ ∧
      upName ∉ (Path.ofText file).names ∧ (Path.ofText file).names ≠ [] := by
  have all : ∀ file ∈ Wrapper.files, (Path.ofText file).isAbsolute = false ∧
      upName ∉ (Path.ofText file).names ∧ (Path.ofText file).names ≠ [] := by decide
  obtain ⟨relative, rest⟩ := all file listed
  refine ⟨?_, rest⟩
  simp [place, HDiv.hDiv, Div.div, Path.join, relative]

theorem place_properties (root : Path) : place root Wrapper.properties =
    (place root Wrapper.directory).child "maven-wrapper.properties" := by
  have names : (Path.ofText Wrapper.properties).names =
      (Path.ofText Wrapper.directory).names ++ ["maven-wrapper.properties".toList] := by
    decide
  have relative : (Path.ofText Wrapper.properties).isAbsolute = false ∧
      (Path.ofText Wrapper.directory).isAbsolute = false := by decide
  simp [place, HDiv.hDiv, Div.div, Path.join, relative, names, Path.child]

/-- Each file of the wrapper is missing or there. -/
theorem Worked.asked_each {missing : List Text} {hasDirectory : Bool}
    (worked : Worked c v s root missing hasDirectory p) {file : Text}
    (listed : file ∈ Wrapper.files) :
    file ∈ missing ∧ s.exists? (place root file) = .ok false ∨
      file ∉ missing ∧ s.exists? (place root file) = .ok true := by
  obtain ⟨kept, answered⟩ := mem_of_filterM worked.asked
  obtain ⟨b, answer⟩ := answered file listed
  obtain ⟨there, asked, same⟩ := Except.bind_eq_ok answer
  cases same
  cases there with
  | false => exact .inl ⟨(kept file).mpr ⟨listed, answer⟩, asked⟩
  | true =>
    refine .inr ⟨fun absent => ?_, asked⟩
    cases answer.symm.trans ((kept file).mp absent).2

theorem way_place {base : Location} {rest : List Text} (way : s.Way root base rest) {file : Text}
    (listed : file ∈ Wrapper.files) : ∃ more, more ≠ [] ∧ s.Way (place root file) base more := by
  obtain ⟨names, forward, deep⟩ := place_eq listed root
  rw [names]
  exact ⟨_, by simp [deep], way.append forward⟩

namespace Worked

variable {missing : List Text} {hasDirectory : Bool} (worked : Worked c v s root missing hasDirectory p)
include worked

theorem listed {file : Text} (absent : file ∈ missing) : file ∈ Wrapper.files :=
  ((mem_of_filterM worked.asked).1 file).mp absent |>.1

theorem fresh (sound : s.tree.Sound) {base : Location} {rest : List Text}
    (way : s.Way root base rest) {file : Text} (absent : file ∈ missing) :
    s.entryAt (place root file) = none := by
  obtain ⟨more, _, fileWay⟩ := way_place way (worked.listed absent)
  rcases worked.asked_each (worked.listed absent) with ⟨_, asked⟩ | ⟨present, _⟩
  · exact fileWay.firm.entryAt_of_not_exists sound asked
  · exact absurd absent present

end Worked

theorem due_patch (sound : s.tree.Sound) {missing : List Text} {hasDirectory : Bool}
    {base : Location} {rest : List Text} (way : s.Way root base rest)
    (worked : Worked c v s root missing hasDirectory p) : p.Due s := by
  rw [worked.patch]
  intro change member
  rcases mem_changes_patch.mp member with rfl | ⟨file, absent, rfl | ⟨_, rfl⟩ | rfl⟩
  · have listed : Wrapper.properties ∈ Wrapper.files := by decide
    have parent : (place root Wrapper.properties).parent = place root Wrapper.directory := by
      rw [place_properties]
      simp [Path.child, Path.parent]
    -- The properties have their directory made for them. When they stand already, so does the
    -- directory.
    rcases worked.asked_each listed with ⟨absent, _⟩ | ⟨_, there⟩
    · obtain ⟨more, deep, fileWay⟩ := way_place way listed
      obtain ⟨name, _, _, last⟩ := fileWay.last deep
      rw [← parent]
      exact .directory (fileWay.parent deep) ⟨_, List.mem_map_of_mem absent, last⟩
    · rw [place_properties] at there
      obtain ⟨base, way⟩ := Site.way_of_child there
      exact .standing way.leads
  · obtain ⟨more, deep, fileWay⟩ := way_place way (worked.listed absent)
    exact .file (.inl rfl) fileWay deep ⟨_, List.mem_map_of_mem absent, rfl⟩
  · exact .executable (worked.fresh sound way absent) ⟨_, List.mem_map_of_mem absent, rfl⟩
  · exact .note _

theorem exact_patch (sound : s.tree.Sound) {missing : List Text} {hasDirectory : Bool}
    {base : Location} {rest : List Text} (way : s.Way root base rest)
    (worked : Worked c v s root missing hasDirectory p) : p.Exact s := by
  refine ⟨due_patch sound way worked, ?_, ?_⟩
  · rw [worked.patch]
    intro change member
    rcases mem_changes_patch.mp member with rfl | ⟨file, absent, rfl | ⟨_, rfl⟩ | rfl⟩
    · exact .of_nothing (by rintro _ _ (same | same) <;> cases same)
    · exact .of_writes (.inl rfl) (by simp [worked.fresh sound way absent])
    · exact .of_nothing (by rintro _ _ (same | same) <;> cases same)
    · exact .of_nothing (by rintro _ _ (same | same) <;> cases same)
  · rw [worked.patch]
    intro path member
    obtain ⟨file, absent, rfl⟩ := List.mem_map.mp member
    exact ⟨_, mem_changes_patch.mpr (.inr ⟨file, absent, .inl rfl⟩), _, .inl rfl⟩

theorem declared_patch {missing : List Text} {hasDirectory : Bool}
    (worked : Worked c v s root missing hasDirectory p) :
    ∃ files, targets c v s = .ok files ∧ ∀ path ∈ p.files, path ∈ files := by
  refine ⟨Wrapper.files.map (place root), ?_, ?_⟩
  · unfold targets
    rw [worked.module]
    rfl
  · rw [worked.patch]
    intro path listed
    obtain ⟨file, absent, rfl⟩ := List.mem_map.mp listed
    exact List.mem_map_of_mem (worked.listed absent)

end WrapperFiles

end Layering
