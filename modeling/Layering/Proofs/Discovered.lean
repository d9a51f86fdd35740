import Layering.Proofs.Rescans

/-!
# Discovered modules

The modules of a project can be found on a walk: a directory comes before those in it, and these are
taken in the order of their names, apart from those that are passed over. The walk sees each directory
that is searched once and in the order of the listing, so it ends with the same modules.
-/

namespace Layering

open Site

/-- Different first names decide the order. -/
theorem Location.before_of_first {name name' : Text} {rest rest' : List Text}
    (before : Location.Before [name] [name']) : Location.Before (name :: rest) (name' :: rest') := by
  unfold Before order at before ⊢
  rw [List.compare_cons_cons] at before ⊢
  have first : compare name name' = .lt := by
    cases order : compare name name' with
    | lt => rfl
    | eq =>
      rw [order] at before
      cases before
    | gt =>
      rw [order] at before
      cases before
  rw [first]
  rfl

namespace Module

variable {s : Site} {d root : Path} {name : Text} {names : List Text}

theorem ne_up_of_searched (searched : isSearched name = true) : name ≠ upName := by
  rintro rfl
  cases searched

theorem forward_of_searched (searched : names.all isSearched = true) : upName ∉ names := fun up =>
  ne_up_of_searched (List.all_eq_true.mp searched upName up) rfl

theorem all_searched_iff : names.all isSearched = true ↔
    ∀ name ∈ names, name.head? ≠ some '.' ∧ name ∉ passedOver := by
  simp [isSearched]

/-! ### The walk -/

/-- The names of the directories in a directory that are searched, in order. -/
def children (s : Site) (d : Path) : List Text :=
  (s.directoriesBelow d).filterMap fun names => match names with
    | [name] => if isSearched name then some name else none
    | _ => none

theorem mem_children_iff : name ∈ children s d ↔
    [name] ∈ s.directoriesBelow d ∧ isSearched name = true := by
  unfold children
  rw [List.mem_filterMap]
  constructor
  · rintro ⟨names, listed, found⟩
    split at found
    next name' =>
      obtain ⟨searched, same⟩ := Option.ite_none_right_eq_some.mp found
      cases same
      exact ⟨listed, searched⟩
    next => cases found
  · rintro ⟨listed, searched⟩
    exact ⟨_, listed, by simp [searched]⟩

theorem pairwise_children (s : Site) (d : Path) :
    (children s d).Pairwise fun a b => Location.Before [a] [b] := by
  refine List.Pairwise.filterMap _ ?_ (s.pairwise_directoriesBelow d)
  intro names names' before name found name' found'
  split at found
  next =>
    split at found'
    next =>
      cases (Option.ite_none_right_eq_some.mp found).2
      cases (Option.ite_none_right_eq_some.mp found').2
      exact before
    next => cases found'
  next => cases found

/-- In a directory there are fewer directories than in the one around it. -/
theorem directoriesBelow_child_lt (listed : name ∈ children s d) :
    (s.directoriesBelow (d.child name)).length < (s.directoriesBelow d).length := by
  obtain ⟨here, searched⟩ := mem_children_iff.mp listed
  have leads := leads_of_mem_directoriesBelow here
  have place := leads.location_child (ne_up_of_searched searched)
  -- The child and what is below it are different directories below its parent.
  have distinct : ([name] :: (s.directoriesBelow (d.child name)).map (name :: ·)).Nodup := by
    refine List.nodup_cons.mpr ⟨fun again => ?_, ?_⟩
    · obtain ⟨names, below, same⟩ := List.mem_map.mp again
      cases same
      exact ((mem_directoriesBelow_iff (leads_of_mem_directoriesBelow below)).mp below).1 rfl
    · exact (s.pairwise_directoriesBelow _).nodup.map fun _ _ same => (List.cons.inj same).2
  have inside : [name] :: (s.directoriesBelow (d.child name)).map (name :: ·) ⊆
      s.directoriesBelow d := by
    refine List.cons_subset.mpr ⟨here, fun names member => ?_⟩
    obtain ⟨rest, below, rfl⟩ := List.mem_map.mp member
    have directory := ((mem_directoriesBelow_iff (leads_of_mem_directoriesBelow below)).mp below).2
    rw [place, List.append_assoc] at directory
    exact (mem_directoriesBelow_iff leads).mpr ⟨List.cons_ne_nil _ _, directory⟩
  have fewer := (List.subperm_of_subset distinct inside).length_le
  rw [List.length_cons, List.length_map] at fewer
  exact fewer

/-- The directories that a walk from a directory comes to, each as the names from there. -/
def visit (s : Site) (d : Path) : List Location :=
  [] :: (children s d).attach.flatMap fun child =>
    (visit s (d.child child.1)).map (child.1 :: ·)
termination_by (s.directoriesBelow d).length
decreasing_by exact directoriesBelow_child_lt child.2

/-- The modules that a walk from a directory finds. -/
def collect (s : Site) (d : Path) : Except Fault (List Module) := do
  let here ← read? s d
  let below ← (children s d).attach.mapM fun child => collect s (d.child child.1)
  .ok (here.toList ++ below.flatten)
termination_by (s.directoriesBelow d).length
decreasing_by exact directoriesBelow_child_lt child.2

theorem visit_eq (s : Site) (d : Path) : visit s d =
    [] :: (children s d).flatMap fun name => (visit s (d.child name)).map (name :: ·) := by
  rw [visit, List.flatMap_def, List.flatMap_def]
  congr 2
  exact List.attach_map_val (f := fun name => (visit s (d.child name)).map (name :: ·))

/-- A walk comes to directories in order. -/
theorem pairwise_visit (s : Site) (d : Path) : (visit s d).Pairwise Location.Before := by
  induction d using visit.induct s with
  | case1 d ih =>
    rw [visit_eq]
    refine List.pairwise_cons.mpr ⟨fun names member => ?_, List.pairwise_flatMap.mpr ⟨?_, ?_⟩⟩
    · -- A directory comes before all below it.
      obtain ⟨name, _, inner⟩ := List.mem_flatMap.mp member
      obtain ⟨rest, _, rfl⟩ := List.mem_map.mp inner
      rfl
    · -- What is below one child stands in the order of the walk from there.
      intro name listed
      refine List.pairwise_map.mpr ((ih ⟨name, listed⟩).imp fun before => ?_)
      exact (Location.before_append_iff [name] _ _).mpr before
    · -- What is below different children stands in the order of these.
      refine (pairwise_children s d).imp fun before names member names' member' => ?_
      obtain ⟨rest, _, rfl⟩ := List.mem_map.mp member
      obtain ⟨rest', _, rfl⟩ := List.mem_map.mp member'
      exact Location.before_of_first before

/-- The names of the directories below a root that are searched are not too long. -/
def ShortNames (s : Site) (root : Path) : Prop :=
  ∀ names ∈ s.directoriesBelow root, names.all isSearched = true →
    ∀ name ∈ names, nameSize name ≤ maxNameSize

theorem leads_child (sound : s.tree.Sound) (short : ShortNames s d) (listed : name ∈ children s d) :
    s.LeadsToDirectory (d.child name) := by
  obtain ⟨here, searched⟩ := mem_children_iff.mp listed
  have leads := leads_of_mem_directoriesBelow here
  have fits := short _ here (by simp [searched]) name (List.mem_singleton_self _)
  have entry := ((mem_directoriesBelow_iff leads).mp here).2
  refine leads_of_isDirectory ?_
  rw [leads.isDirectory_child sound (ne_up_of_searched searched), if_neg (Nat.not_lt_of_le fits)]
  simp [entry]

theorem ShortNames.child (short : ShortNames s d) (listed : name ∈ children s d) :
    ShortNames s (d.child name) := by
  intro names below searched part member
  obtain ⟨here, searched'⟩ := mem_children_iff.mp listed
  have leads := leads_of_mem_directoriesBelow here
  obtain ⟨_, directory⟩ := (mem_directoriesBelow_iff (leads_of_mem_directoriesBelow below)).mp below
  rw [leads.location_child (ne_up_of_searched searched'), List.append_assoc] at directory
  refine short (name :: names) ((mem_directoriesBelow_iff leads).mpr
    ⟨List.cons_ne_nil _ _, directory⟩) ?_ part (List.mem_cons_of_mem _ member)
  rw [List.all_cons, searched', searched]
  rfl

/-- A walk comes to the directories that are searched. -/
theorem mem_visit_iff (sound : s.tree.Sound) (short : ShortNames s d)
    (leads : s.LeadsToDirectory d) : names ∈ visit s d ↔ Listed s d names := by
  induction d using visit.induct s generalizing names with
  | case1 d ih =>
    rw [visit_eq, List.mem_cons, List.mem_flatMap]
    have step {name : Text} {rest : List Text} (child : name ∈ children s d) :
        rest ∈ visit s (d.child name) ↔ Listed s d (name :: rest) := by
      have searched := (mem_children_iff.mp child).2
      rw [ih ⟨name, child⟩ (short.child child) (leads_child sound short child)]
      have place := leads.location_child (ne_up_of_searched searched)
      constructor
      · rintro ⟨searched', directory⟩
        rw [place, List.append_assoc] at directory
        exact ⟨by rw [List.all_cons, searched, searched']; rfl, directory⟩
      · rintro ⟨searched', directory⟩
        rw [List.append_cons, ← place] at directory
        exact ⟨(List.all_cons ▸ searched' |> Bool.and_eq_true_iff.mp).2, directory⟩
    constructor
    · rintro (rfl | ⟨name, child, inner⟩)
      · exact ⟨rfl, by rw [List.append_nil]; exact leads.2⟩
      · obtain ⟨rest, visited, rfl⟩ := List.mem_map.mp inner
        exact (step child).mp visited
    · intro listed
      cases names with
      | nil => exact .inl rfl
      | cons name rest =>
        have first : isSearched name = true ∧ rest.all isSearched = true := by
          simpa using listed.searched
        -- The first name is that of a child, since there are only directories above a directory.
        have open_ : s.tree.at? (s.location d ++ [name]) = some .directory := by
          have directory := listed.directory
          rw [List.append_cons] at directory
          by_cases last : rest = []
          · rwa [last, List.append_nil] at directory
          · exact sound.above (by rw [directory]; nofun) (List.prefix_append ..) (by simpa using last)
        have child : name ∈ children s d := mem_children_iff.mpr
          ⟨(mem_directoriesBelow_iff leads).mpr ⟨List.cons_ne_nil _ _, open_⟩, first.1⟩
        exact .inr ⟨name, child, List.mem_map.mpr ⟨rest, (step child).mpr listed, rfl⟩⟩

/-- A directory of short names is reached. -/
theorem Listed.reached (listed : Listed s root names) (sound : s.tree.Sound)
    (short : ShortNames s root) (leads : s.LeadsToDirectory root) :
    s.LeadsToDirectory ⟨root.anchor, root.names ++ names⟩ := by
  have forward := forward_of_searched listed.searched
  have way := leads.way.append forward
  have place := leads.location_append forward
  have entry : s.entryAt ⟨root.anchor, root.names ++ names⟩ = some .directory := by
    rw [entryAt, place, listed.directory]
  have fits : ∀ name ∈ names, nameSize name ≤ maxNameSize := by
    by_cases outer : names = []
    · simp [outer]
    · exact short names ((mem_directoriesBelow_iff leads).mpr ⟨outer, listed.directory⟩)
        listed.searched
  have direct : s.Direct ⟨root.anchor, root.names ++ names⟩ := ⟨_, _, way, fits⟩
  exact ⟨way.locate_of_there sound (by simp [entry]) direct.locate_ne_tooLong, entry⟩

/-- The walk comes to the directories of a project, in the same order. -/
theorem directories_eq (sound : s.tree.Sound) (short : ShortNames s root)
    (leads : s.LeadsToDirectory root) : directories s root =
      (visit s root).map fun names => ⟨root.anchor, root.names ++ names⟩ := by
  -- Both lists are in order and have the same members, so they are the same.
  have listing : visit s root = [] :: (s.directoriesBelow root).filter (·.all isSearched) := by
    refine Location.eq_of_mem_iff (pairwise_visit s root) ?_ fun names => ?_
    · refine List.pairwise_cons.mpr ⟨fun names member => ?_, (s.pairwise_directoriesBelow _).filter _⟩
      have inner := ((mem_directoriesBelow_iff leads).mp (List.mem_of_mem_filter member)).1
      obtain ⟨name, rest, rfl⟩ := List.exists_cons_of_ne_nil inner
      rfl
    · rw [mem_visit_iff sound short leads, List.mem_cons, List.mem_filter,
        mem_directoriesBelow_iff leads]
      constructor
      · rintro ⟨searched, directory⟩
        by_cases outer : names = []
        · exact .inl outer
        · exact .inr ⟨⟨outer, directory⟩, searched⟩
      · rintro (rfl | ⟨⟨_, directory⟩, searched⟩)
        · exact ⟨rfl, by rw [List.append_nil]; exact leads.2⟩
        · exact ⟨searched, directory⟩
  rw [listing, List.map_cons, List.append_nil]
  rfl

/-- A walk over directories that can be read finds the modules in them. -/
theorem collect_of_read (each : ∀ names ∈ visit s d, ∃ found,
    read? s ⟨d.anchor, d.names ++ names⟩ = .ok found) :
    collect s d = .ok ((visit s d).filterMap fun names => at? s ⟨d.anchor, d.names ++ names⟩) := by
  induction d using collect.induct s with
  | case1 d ih =>
    have here : read? s d = .ok (at? s d) := by
      have first : [] ∈ visit s d := by rw [visit_eq]; exact List.mem_cons_self
      obtain ⟨found, read⟩ := each [] first
      rw [List.append_nil] at read
      exact read?_eq_at? read
    have under (name : Text) (names : List Text) :
        (⟨(d.child name).anchor, (d.child name).names ++ names⟩ : Path) =
          ⟨d.anchor, d.names ++ name :: names⟩ := by
      rw [Path.child, List.append_assoc]
      rfl
    -- Each child is collected by the induction, with its own name in front of what is below it.
    have below : (children s d).attach.mapM (fun child => collect s (d.child child.1)) =
        .ok ((children s d).attach.map fun child => (visit s (d.child child.1)).filterMap
          fun names => at? s ⟨d.anchor, d.names ++ child.1 :: names⟩) := by
      refine mapM_eq_ok fun child _ => ?_
      rw [ih child fun names visited => ?_]
      · simp only [under]
      · rw [under]
        refine each _ ?_
        rw [visit_eq]
        exact List.mem_cons_of_mem _ (List.mem_flatMap.mpr
          ⟨child.1, child.2, List.mem_map_of_mem visited⟩)
    rw [collect, here, below, visit_eq]
    simp only [bind, Except.bind]
    congr 1
    rw [List.filterMap_cons, List.append_nil, List.filterMap_flatMap]
    simp only [List.filterMap_map]
    have flat := List.attach_map_val (l := children s d) (f := fun name =>
      (visit s (d.child name)).filterMap fun names => at? s ⟨d.anchor, d.names ++ name :: names⟩)
    rw [flat, ← List.flatMap_def]
    cases at? s d with
    | none => rfl
    | some m => rfl

/-! ### Questions that are answered -/

theorem sublist_of_mem_pieces {p : Char → Bool} {t piece : Text} (listed : piece ∈ Text.pieces p t) :
    piece.Sublist t := by
  induction t generalizing piece with
  | nil =>
    rw [Text.pieces, List.mem_singleton] at listed
    exact listed ▸ List.Sublist.refl _
  | cons c t ih =>
    rw [Text.pieces] at listed
    split at listed
    · -- A letter that separates begins an empty piece. Any other goes in front of the first
      -- piece.
      rcases List.mem_cons.mp listed with rfl | later
      · exact List.nil_sublist _
      · exact (ih later).cons c
    · obtain ⟨first, more, split⟩ := List.exists_cons_of_ne_nil (Text.pieces_ne_nil p t)
      rw [split] at ih listed
      rcases List.mem_cons.mp listed with rfl | later
      · exact (ih List.mem_cons_self).cons_cons c
      · exact (ih (List.mem_cons_of_mem _ later)).cons c

theorem nameSize_le_of_mem_names {t : Text} (listed : name ∈ (Path.ofText t).names) :
    nameSize name ≤ nameSize t :=
  ((sublist_of_mem_pieces (List.mem_of_mem_filter listed)).flatMap _).length_le

/-- Whether there is a directory of a short name is known. -/
theorem isDirectory_answered (leads : s.LeadsToDirectory d) (short : nameSize name ≤ maxNameSize) :
    ∃ b, s.isDirectory? (d / Path.ofText name) = .ok b := by
  have fits : ∀ part ∈ (d / Path.ofText name).names, nameSize part ≤ maxNameSize := by
    intro part member
    have inner (listed : part ∈ (Path.ofText name).names) :=
      Nat.le_trans (nameSize_le_of_mem_names listed) short
    simp only [HDiv.hDiv, Div.div, Path.join] at member
    split at member
    · exact inner member
    · rcases List.mem_append.mp member with outer | listed
      · exact Tree.short_of_follow leads.1 part outer
      · exact inner listed
  obtain ⟨entry, asked⟩ := answered_of_locate (Tree.follow_ne_tooLong fits)
  exact ⟨_, by rw [isDirectory?, asked]; rfl⟩

theorem anyM_eq_ok {ε α : Type} {f : α → Except ε Bool} {g : α → Bool} {xs : List α}
    (each : ∀ x ∈ xs, f x = .ok (g x)) : xs.anyM f = .ok (xs.any g) := by
  induction xs with
  | nil => rfl
  | cons x xs ih =>
    obtain ⟨first, later⟩ := List.forall_mem_cons.mp each
    rw [List.anyM, first, List.any_cons]
    cases g x with
    | true => rfl
    | false => exact ih later

/-- The names of the directories that the layers of a component may have are not too long. -/
def FitLayers (component : Text) : Prop :=
  ∀ layer ∈ Layer.all, ∀ name ∈ layerDirectories component layer, nameSize name ≤ maxNameSize

section

variable (leads : s.LeadsToDirectory d) (fit : FitLayers (componentName d.name))
include leads fit

theorem layer_asked (layer : Layer) :
    (layerDirectories (componentName d.name) layer).anyM (fun name =>
        s.isDirectory? (d / Path.ofText name)) =
      .ok ((layerDirectories (componentName d.name) layer).any fun name =>
        decide (s.isDirectory? (d / Path.ofText name) = .ok true)) := by
  refine anyM_eq_ok fun name listed => ?_
  obtain ⟨b, answer⟩ := isDirectory_answered leads (fit layer (mem_all layer) name listed)
  rw [answer]
  cases b <;> rfl

/-- A directory can be read, and there is a module if there is a descriptor. -/
theorem read_of_leads (sound : s.tree.Sound) : ∃ found, read? s d = .ok found ∧
    (found.isSome = true ↔ s.exists? (d.child descriptorName) = .ok true) := by
  have there := (leads.direct.child RepairContext.descriptorName_ne_up
    RepairContext.descriptorName_short).exists? sound
  have layers := filterM_eq_ok fun layer (_ : layer ∈ Layer.all) => layer_asked leads fit layer
  have made : ∃ m, read s d = .ok m := by
    unfold read
    simp only [layers, bind, Except.bind]
    exact ⟨_, rfl⟩
  obtain ⟨m, made⟩ := made
  unfold read?
  rw [there]
  cases (s.entryAt (d.child descriptorName)).isSome with
  | false => exact ⟨none, rfl, by simp⟩
  | true =>
    refine ⟨some m, ?_, by simp⟩
    simp only [made, bind, Except.bind, pure, Except.pure, if_true]

/-- A module has a layer if one of the directories of the layer is there. -/
theorem has_iff_directory {m : Module} (reading : Reading s d m) (layer : Layer) :
    m.has layer = true ↔ ∃ name ∈ layerDirectories m.component layer,
      s.isDirectory? (m.path / Path.ofText name) = .ok true := by
  have asked := reading.asked layer
  rw [reading.component, layer_asked leads fit layer] at asked
  rw [← Except.ok.inj asked, List.any_eq_true, reading.path, reading.component]
  simp only [decide_eq_true_eq]

end

/-! ### The modules of a project -/

/-- The modules in the directories at and below a root that have a descriptor, where no directory on
the way from the root is hidden or holds sources or results. -/
structure Inventory (s : Site) (root : Path) (modules : List Module) : Prop where
  once : (modules.map (·.path)).Nodup
  ordered : (modules.map (·.path.names)).Pairwise Location.Before
  complete : ∀ p, p ∈ modules.map (·.path) ↔ ∃ names, p = ⟨root.anchor, root.names ++ names⟩ ∧
    (∀ name ∈ names, name.head? ≠ some '.' ∧ name ∉ passedOver) ∧
    s.isDirectory? p = .ok true ∧ s.exists? (p.child descriptorName) = .ok true
  component : ∀ m ∈ modules, m.component = componentName m.path.name
  layers : ∀ m ∈ modules, ∀ layer, m.has layer = true ↔
    ∃ name ∈ layerDirectories m.component layer,
      s.isDirectory? (m.path / Path.ofText name) = .ok true

/-- The modules of a project are listed in order, each once, and a walk finds the same. -/
theorem discover_inventory (sound : s.tree.Sound) (directory : s.isDirectory? root = .ok true)
    (short : ShortNames s root)
    (fit : ∀ d ∈ directories s root, FitLayers (componentName d.name)) :
    ∃ modules, discover s root = .ok modules ∧ collect s root = .ok modules ∧
      Inventory s root modules := by
  have leads := leads_of_isDirectory directory
  have same := directories_eq sound short leads
  have reached (d : Path) (listed : d ∈ directories s root) : s.LeadsToDirectory d := by
    obtain ⟨names, inside, rfl⟩ := (mem_directories_iff leads).mp listed
    exact inside.reached sound short leads
  have answered (d : Path) (listed : d ∈ directories s root) : read? s d = .ok (at? s d) ∧
      ((at? s d).isSome = true ↔ s.exists? (d.child descriptorName) = .ok true) := by
    obtain ⟨found, read, there⟩ := read_of_leads (reached d listed) (fit d listed) sound
    have made : at? s d = found := by rw [at?, read]
    exact ⟨made ▸ read, made ▸ there⟩
  have reading {d : Path} {m : Module} (found : at? s d = some m) : Reading s d m :=
    reading_of_read (read_of_at? found).2
  -- The modules stand in the order of their directories.
  have ordered : (((directories s root).filterMap (at? s)).map (·.path.names)).Pairwise
      Location.Before := by
    rw [List.pairwise_map]
    refine List.Pairwise.filterMap (R := fun d d' : Path => Location.Before d.names d'.names) _
      (fun d d' before m found m' found' => ?_) ?_
    · rwa [(reading found).path, (reading found').path]
    · rw [same, List.pairwise_map]
      exact (pairwise_visit s root).imp (Location.before_append_iff ..).mpr
  refine ⟨_, discover_of_read fun d listed => (answered d listed).1, ?_, ?_⟩
  · rw [same, List.filterMap_map]
    refine collect_of_read fun names visited => ?_
    have listed := (mem_visit_iff sound short leads).mp visited
    exact ⟨_, (answered _ ((mem_directories_iff leads).mpr ⟨names, listed, rfl⟩)).1⟩
  · refine ⟨?_, ordered, fun p => ?_, fun m member => ?_, fun m member => ?_⟩
    · refine List.Nodup.of_map (·.names) ?_
      rw [List.map_map]
      exact ordered.nodup
    · rw [List.mem_map]
      constructor
      · rintro ⟨m, member, rfl⟩
        obtain ⟨d, listed, found⟩ := List.mem_filterMap.mp member
        obtain ⟨names, inside, rfl⟩ := (mem_directories_iff leads).mp listed
        rw [(reading found).path]
        refine ⟨names, rfl, all_searched_iff.mp inside.searched, ?_, ?_⟩
        · rw [(reached _ listed).direct.isDirectory? sound, (reached _ listed).2]
          rfl
        · exact (answered _ listed).2.mp (by rw [found]; rfl)
      · rintro ⟨names, rfl, searched, open_, there⟩
        have searched := all_searched_iff.mpr searched
        have place := leads.location_append (forward_of_searched searched)
        have listed := (mem_directories_iff leads).mpr
          ⟨names, ⟨searched, place ▸ (leads_of_isDirectory open_).2⟩, rfl⟩
        obtain ⟨m, found⟩ := Option.isSome_iff_exists.mp ((answered _ listed).2.mpr there)
        exact ⟨m, List.mem_filterMap.mpr ⟨_, listed, found⟩, (reading found).path⟩
    · obtain ⟨d, _, found⟩ := List.mem_filterMap.mp member
      rw [(reading found).component, (reading found).path]
    · obtain ⟨d, listed, found⟩ := List.mem_filterMap.mp member
      exact has_iff_directory (reached d listed) (fit d listed) (reading found)

/-- A module below a directory that is none, another beside it, and what is passed over. -/
def nestedProject : Site where
  tree := (((((((((∅ : Tree).insert ["p".toList] .directory).insert ["p".toList, "a".toList]
    .directory).insert ["p".toList, "a".toList, "b-parent".toList] .directory).insert
    ["p".toList, "a".toList, "b-parent".toList, "pom.xml".toList] (.file [] 0o644)).insert
    ["p".toList, "a".toList, "b-parent".toList, "b-utils".toList] .directory).insert
    ["p".toList, "a-b".toList] .directory).insert
    ["p".toList, "a-b".toList, "pom.xml".toList] (.file [] 0o644)).insert
    ["p".toList, ".x".toList] .directory).insert
    ["p".toList, ".x".toList, "pom.xml".toList] (.file [] 0o644)

theorem discover_inventory_nestedProject :
    nestedProject.tree.Sound ∧ nestedProject.isDirectory? "/p" = .ok true ∧
      ShortNames nestedProject "/p" ∧
      (∀ d ∈ directories nestedProject "/p", FitLayers (componentName d.name)) ∧
      discover nestedProject "/p" = .ok [⟨"b".toList, "/p/a/b-parent", [.util]⟩,
        ⟨"a-b".toList, "/p/a-b", []⟩] ∧
      Inventory nestedProject "/p" [⟨"b".toList, "/p/a/b-parent", [.util]⟩,
        ⟨"a-b".toList, "/p/a-b", []⟩] := by
  have sound : nestedProject.tree.Sound := by
    refine Tree.Sound.insert ?_ (by decide) (by simp) (by decide)
    refine Tree.Sound.insert ?_ (by decide) (by simp) (by decide)
    refine Tree.Sound.insert ?_ (by decide) (by simp) (by decide)
    refine Tree.Sound.insert ?_ (by decide) (by simp) (by decide)
    refine Tree.Sound.insert ?_ (by decide) (by simp) (by decide)
    refine Tree.Sound.insert ?_ (by decide) (by simp) (by decide)
    refine Tree.Sound.insert ?_ (by decide) (by simp) (by decide)
    refine Tree.Sound.insert ?_ (by decide) (by simp) (by decide)
    exact Tree.sound_empty.insert rfl (by simp) fun _ => rfl
  have directory : nestedProject.isDirectory? "/p" = .ok true := by decide +kernel
  have short : ShortNames nestedProject "/p" := by
    unfold ShortNames
    decide +kernel
  have fit : ∀ d ∈ directories nestedProject "/p", FitLayers (componentName d.name) := by
    unfold FitLayers
    decide +kernel
  have found : discover nestedProject "/p" = .ok [⟨"b".toList, "/p/a/b-parent", [.util]⟩,
      ⟨"a-b".toList, "/p/a-b", []⟩] := by decide +kernel
  obtain ⟨modules, again, _, inventory⟩ := discover_inventory sound directory short fit
  cases found.symm.trans again
  exact ⟨sound, directory, short, fit, found, inventory⟩

end Module

end Layering
