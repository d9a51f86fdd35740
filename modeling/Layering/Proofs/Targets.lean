import Layering.Proofs.CleanStaging
import Layering.Proofs.ExactPatches

/-!
# Declared files

The files that the bundled fixers declare: paths lead to them, and what is staged changes none of the
answers.
-/

namespace Layering

namespace Tree

/-- Every entry has a place that can be written. -/
def Written (tree : Tree) : Prop :=
  ∀ m, tree.at? m ≠ none → ∀ name ∈ m, Path.PlainName name ∧ name ≠ upName

theorem written_empty : Tree.Written ∅ := by
  intro m there name member
  by_cases outer : m = []
  · rw [outer] at member
    cases member
  · rw [at?_of_ne_nil outer] at there
    simp at there

theorem Written.insert {tree : Tree} (written : tree.Written) {l : Location}
    (names : ∀ name ∈ l, Path.PlainName name ∧ name ≠ upName) (e : Entry) :
    Tree.Written (tree.insert l e) := by
  intro m there name member
  by_cases new : m = l
  · exact names name (new ▸ member)
  · refine written m (fun absent => there ?_) name member
    have inner : m ≠ [] := fun outer => nomatch outer ▸ member
    rw [at?_of_ne_nil inner] at absent ⊢
    simpa [Std.ExtTreeMap.getElem?_insert, Ne.symm new] using absent

/-- Listings are the same where the entries are the same that they list. -/
theorem filterMap_toList_eq {β : Type} {tree tree' : Tree} {f : Location × Entry → Option β}
    (same : ∀ m e, f (m, e) ≠ none → (tree'[m]? = some e ↔ tree[m]? = some e)) :
    tree'.toList.filterMap f = tree.toList.filterMap f := by
  have listed (tree : Tree) : tree.toList.filterMap f =
      (tree.filter fun m e => (f (m, e)).isSome).toList.filterMap f := by
    rw [Std.ExtTreeMap.toList_filter, List.filterMap_filter]
    refine congrArg (List.filterMap · _) (funext fun x => ?_)
    cases f x <;> simp
  rw [listed tree', listed tree]
  -- The entries that are listed make the same tree.
  refine congrArg (fun tree : Tree => tree.toList.filterMap f)
    (Std.ExtTreeMap.ext_getElem? fun m => ?_)
  rw [Std.ExtTreeMap.getElem?_filter', Std.ExtTreeMap.getElem?_filter']
  refine Option.ext fun e => ?_
  simp only [Option.filter_eq_some_iff]
  refine and_congr_left fun kept => same m e ?_
  simpa [Option.isSome_iff_ne_none] using kept

end Tree

namespace Site

variable {s s' : Site} {p : Path} {hidden : Location → Prop}

theorem Housed.written (housed : s.Housed) (written : s.tree.Written) : s.Written := by
  have here : s.tree.at? s.workingDirectory = some .directory := housed
  exact written s.workingDirectory (by simp [here])

/-- What is new is hidden: nothing was there, and no source and no descriptor is among it. -/
structure Hides (hidden : Location → Prop) (s s' : Site) : Prop where
  place : s'.workingDirectory = s.workingDirectory
  beside : ∀ m, ¬hidden m → s'.tree.at? m = s.tree.at? m
  bare : ∀ m, hidden m → s.tree.at? m = none
  descriptors : ∀ m, hidden (m ++ [descriptorName]) → hidden m
  sources : ∀ m, hidden m → ∀ bytes mode, s'.tree.at? m = some (.file bytes mode) →
    sourceEnding.isSuffixOf (m.getLast?.getD []) = false

/-- A path passes nothing that is hidden. -/
def Visible (hidden : Location → Prop) (s : Site) (p : Path) : Prop :=
  ∀ k, ¬hidden ((s.start p).walk (p.names.take k))

theorem Visible.location (visible : s.Visible hidden p) : ¬hidden (s.location p) := by
  have last := visible p.names.length
  rwa [List.take_length] at last

/-- A path without names of two points passes no region but the ones it ends in. -/
theorem Visible.of_forward {region : Location} (forward : upName ∉ p.names)
    (beside : ¬region <+: s.location p) : s.Visible (fun m => region <+: m) p := by
  intro k inside
  rw [Location.walk_eq_append fun up => forward (List.mem_of_mem_take up)] at inside
  rw [location_of_forward forward] at beside
  exact beside (inside.trans ((List.prefix_append_right_inj _).mpr (List.take_prefix k _)))

theorem Visible.parent (visible : s.Visible hidden p) : s.Visible hidden p.parent := by
  intro k
  rw [Path.parent, List.dropLast_eq_take, List.take_take]
  exact visible _

theorem Visible.of_place (visible : s.Visible hidden p)
    (place : s'.workingDirectory = s.workingDirectory) : s'.Visible hidden p := by
  intro k
  rw [start_of_workingDirectory place]
  exact visible k

namespace Visible

/-! What a path finds that passes nothing hidden is the same wherever all the rest is. -/

variable (visible : s.Visible hidden p) (place : s'.workingDirectory = s.workingDirectory)
variable (beside : ∀ m, ¬hidden m → s'.tree.at? m = s.tree.at? m)
include visible place beside

theorem follow_eq (n : Nat) :
    s'.tree.follow (s'.start p) (p.names.take n) = s.tree.follow (s.start p) (p.names.take n) := by
  rw [start_of_workingDirectory place]
  refine Tree.follow_congr fun k => ?_
  rw [List.take_take]
  exact beside _ (visible _)

theorem locate_eq : s'.locate p = s.locate p := by
  have whole := visible.follow_eq place beside p.names.length
  rwa [List.take_length] at whole

theorem entryAt_eq : s'.entryAt p = s.entryAt p := by
  rw [entryAt, entryAt, location_of_workingDirectory place]
  exact beside _ visible.location

theorem entryOf?_eq : s'.entryOf? p = s.entryOf? p :=
  entryOf?_congr (visible.locate_eq place beside) (beside _ visible.location)

theorem exists?_eq : s'.exists? p = s.exists? p := by
  rw [exists?, exists?, visible.entryOf?_eq place beside]

end Visible

namespace Hides

variable (hides : Hides hidden s s')
include hides

theorem visible_descriptor (visible : s.Visible hidden p) :
    s.Visible hidden (p.child descriptorName) := by
  intro k inside
  rw [Path.child, List.take_append, Location.walk_append] at inside
  cases beyond : k - p.names.length with
  | zero =>
    rw [beyond] at inside
    exact visible k inside
  | succ more =>
    have other : upName ∉ [descriptorName] := by decide
    rw [beyond, List.take_succ_cons, List.take_nil, Location.walk_eq_append other] at inside
    refine visible k (hides.descriptors _ ?_)
    rwa [List.take_of_length_le (by omega)] at inside ⊢

theorem locate_eq (visible : s.Visible hidden p) : s'.locate p = s.locate p :=
  visible.locate_eq hides.place hides.beside

theorem exists?_eq (visible : s.Visible hidden p) : s'.exists? p = s.exists? p :=
  visible.exists?_eq hides.place hides.beside

theorem isDirectory?_eq (visible : s.Visible hidden p) : s'.isDirectory? p = s.isDirectory? p := by
  rw [isDirectory?, isDirectory?, visible.entryOf?_eq hides.place hides.beside]

/-- No source is hidden. -/
theorem getElem?_eq {m : Location} (inner : m ≠ []) {bytes : Bytes} {mode : Nat}
    (source : sourceEnding.isSuffixOf (m.getLast?.getD []) = true) :
    s'.tree[m]? = some (.file bytes mode) ↔ s.tree[m]? = some (.file bytes mode) := by
  rw [← Tree.at?_of_ne_nil inner, ← Tree.at?_of_ne_nil inner]
  by_cases inside : hidden m
  · rw [hides.bare m inside]
    constructor
    · intro file
      cases source.symm.trans (hides.sources m inside bytes mode file)
    · exact nofun
  · rw [hides.beside m inside]

theorem filesBelow_eq (visible : s.Visible hidden p) :
    s'.filesBelow p sourceEnding = s.filesBelow p sourceEnding := by
  unfold filesBelow
  rw [hides.isDirectory?_eq visible, hides.locate_eq visible]
  cases s.locate p with
  | error o => rfl
  | ok l =>
    simp only [Tree.below, List.filterMap_filterMap]
    rw [Tree.filterMap_toList_eq]
    intro m e listed
    by_cases inside : l.isPrefixOf m && m ≠ l
    · rw [if_pos inside] at listed
      simp only [Bool.and_eq_true, List.isPrefixOf_iff_prefix, decide_eq_true_eq] at inside
      obtain ⟨⟨names, rfl⟩, other⟩ := inside
      have further : names ≠ [] := by simpa using other
      rw [List.drop_left] at listed
      cases e with
      | directory => exact absurd rfl listed
      | file bytes mode =>
        refine hides.getElem?_eq (by simp [further]) ?_
        rw [List.getLast?_append_of_ne_nil _ further]
        by_contra plain
        exact listed (if_neg plain)
    · rw [if_neg inside] at listed
      exact absurd rfl listed

end Hides

end Site

/-! ### What is declared does not depend on what is hidden -/

section Declared

open Site

variable {hidden : Location → Prop} {s s' : Site} {c : RepairContext} {v : Violation}
variable (hides : Hides hidden s s')
include hides

theorem RepairContext.moduleAbove_eq {directory : Path} (n : Nat)
    (visible : s.Visible hidden directory) :
    c.moduleAbove s' directory n = c.moduleAbove s directory n := by
  induction n generalizing directory with
  | zero => rfl
  | succ n ih =>
    unfold RepairContext.moduleAbove
    rw [hides.exists?_eq (hides.visible_descriptor visible),
      resolve_of_workingDirectory hides.place, resolve_of_workingDirectory hides.place,
      ih visible.parent]

theorem RepairContext.moduleOf_eq (visible : s.Visible hidden (Path.ofText v.location)) :
    c.moduleOf s' v = c.moduleOf s v := by
  rw [moduleOf_eq_above, moduleOf_eq_above]
  simp only
  rw [hides.isDirectory?_eq visible]
  refine bind_congr fun is => moduleAbove_eq hides _ ?_
  cases is with
  | false => exact visible.parent
  | true => exact visible

theorem ReturnTypes.source?_eq (visible : s.Visible hidden (Path.ofText v.location)) :
    source? v s' = source? v s := by
  unfold source?
  simp only
  rw [hides.isDirectory?_eq visible, hides.exists?_eq visible, hides.filesBelow_eq visible]

theorem targets_eq_of_hides (visible : s.Visible hidden (Path.ofText v.location)) :
    ∀ f ∈ bundledFixers, f.targets c v s' = f.targets c v s := by
  intro f member
  simp only [bundledFixers, List.mem_cons, List.not_mem_nil, or_false] at member
  rcases member with rfl | rfl | rfl
  · change Scaffolding.targets c v s' = Scaffolding.targets c v s
    unfold Scaffolding.targets Scaffolding.newModule?
    rw [RepairContext.moduleOf_eq hides visible]
  · change (ReturnTypes.source? v s').map _ = (ReturnTypes.source? v s).map _
    rw [ReturnTypes.source?_eq hides visible]
  · change WrapperFiles.targets c v s' = WrapperFiles.targets c v s
    unfold WrapperFiles.targets
    rw [RepairContext.moduleOf_eq hides visible]

end Declared

/-! ### Paths lead to what is declared -/

section Ways

open Site

variable {s : Site} {c : RepairContext} {v : Violation} {files : List Path} {path : Path}

namespace Scaffolding

theorem targets_eq_ok (found : targets c v s = .ok files) :
    files = [] ∨ ∃ m, newModule? c v s = .ok (some m) ∧
      files = [m.descriptor, m.packageInfo, m.parent] := by
  unfold targets at found
  obtain ⟨module, asked, found⟩ := Except.bind_eq_ok found
  cases module with
  | none => exact .inl (Except.ok.inj found).symm
  | some m => exact .inr ⟨m, asked, (Except.ok.inj found).symm⟩

theorem way_of_mem_targets (sound : s.tree.Sound) (housed : s.Housed)
    (steady : s.Steady c.moduleRoot) (found : targets c v s = .ok files) (member : path ∈ files) :
    ∃ base rest, s.Way path base rest := by
  rcases targets_eq_ok found with rfl | ⟨m, asked, rfl⟩
  · cases member
  obtain ⟨module, _⟩ := newModule?_eq_some asked
  obtain ⟨base, rest, way⟩ := c.way_of_moduleOf sound housed steady module
  simp only [List.mem_cons, List.not_mem_nil, or_false] at member
  rcases member with rfl | rfl | rfl
  · rw [m.descriptor_eq]
    exact ⟨_, _, NewModule.way_name way (by decide)⟩
  · obtain ⟨base, rest, _, way⟩ := NewModule.way_packageInfo way
    exact ⟨base, rest, way⟩
  · exact ⟨_, _, way.append (by decide)⟩

end Scaffolding

namespace ReturnTypes

theorem targets_eq_ok (found : targets c v s = .ok files) :
    ∃ source, source? v s = .ok source ∧ files = source.toList := by
  unfold targets at found
  rcases asked : source? v s with e | source
  · rw [asked] at found
    cases found
  · rw [asked] at found
    exact ⟨source, rfl, (Except.ok.inj found).symm⟩

/-- The path of a file that is found below a directory. -/
theorem way_of_mem_filesBelow (written : s.tree.Written) {p : Path}
    {ending : Text} (is : s.isDirectory? p = .ok true) (found : s.filesBelow p ending = .ok files)
    (member : path ∈ files) : ∃ base rest, s.Way path base rest := by
  have leads := leads_of_isDirectory is
  unfold filesBelow at found
  rw [is, leads.1] at found
  cases found
  obtain ⟨⟨names, e⟩, listed, made⟩ := List.mem_filterMap.mp member
  obtain ⟨⟨m, e'⟩, entry, inside⟩ := List.mem_filterMap.mp listed
  have forward : upName ∉ names := by
    simp only at inside
    split at inside
    next part =>
      simp only [Bool.and_eq_true, List.isPrefixOf_iff_prefix, decide_eq_true_eq] at part
      obtain ⟨rfl, rfl⟩ := Prod.mk.inj (Option.some.inj inside)
      have inner : m ≠ [] := by
        rintro rfl
        exact part.2 (List.prefix_nil.mp part.1).symm
      have there : s.tree.at? m ≠ none := by
        rw [Tree.at?_of_ne_nil inner, Std.ExtTreeMap.mem_toList_iff_getElem?_eq_some.mp entry]
        nofun
      exact fun up => (written m there _ (List.mem_of_mem_drop up)).2 rfl
    next => cases inside
  have at_ : path = ⟨p.anchor, p.names ++ names⟩ := by
    cases e with
    | directory => cases made
    | file bytes mode =>
      simp only at made
      split at made
      · exact (Option.some.inj made).symm
      · cases made
  rw [at_]
  exact ⟨_, _, leads.way.append forward⟩

theorem way_of_mem_targets (sound : s.tree.Sound) (housed : s.Housed) (written : s.tree.Written)
    (found : targets c v s = .ok files) (member : path ∈ files) :
    ∃ base rest, s.Way path base rest := by
  obtain ⟨source, asked, rfl⟩ := targets_eq_ok found
  obtain rfl : source = some path := by simpa using member
  unfold source? at asked
  obtain ⟨is, asked', asked⟩ := Except.bind_eq_ok (Except.mapError_eq_ok asked)
  cases is with
  | false =>
    obtain ⟨there, asked', asked⟩ := Except.bind_eq_ok asked
    cases there with
    | false => cases asked
    | true =>
      cases asked
      exact way_of_firm housed (firm_of_exists sound asked')
  | true =>
    obtain ⟨below, listed, asked⟩ := Except.bind_eq_ok asked
    have first := Except.ok.inj asked
    exact way_of_mem_filesBelow written asked' listed (List.mem_of_find?_eq_some first)

end ReturnTypes

namespace WrapperFiles

theorem targets_eq_ok (found : targets c v s = .ok files) :
    ∃ root, c.moduleOf s v = .ok root ∧ files = Wrapper.files.map (place root) := by
  unfold targets at found
  obtain ⟨root, module, found⟩ := Except.bind_eq_ok found
  exact ⟨root, Except.mapError_eq_ok module, (Except.ok.inj found).symm⟩

end WrapperFiles

/-- A path that is declared leads to its place. -/
theorem way_of_declared (sound : s.tree.Sound) (housed : s.Housed) (written : s.tree.Written)
    (steady : s.Steady c.moduleRoot) {f : Fixer} (bundled : f ∈ bundledFixers)
    (found : f.targets c v s = .ok files) : ∀ path ∈ files, ∃ base rest, s.Way path base rest := by
  intro path member
  simp only [bundledFixers, List.mem_cons, List.not_mem_nil, or_false] at bundled
  rcases bundled with rfl | rfl | rfl
  · exact Scaffolding.way_of_mem_targets sound housed steady found member
  · exact ReturnTypes.way_of_mem_targets (c := c) sound housed written found member
  · obtain ⟨root, module, rfl⟩ := WrapperFiles.targets_eq_ok found
    obtain ⟨base, rest, way⟩ := c.way_of_moduleOf sound housed steady module
    obtain ⟨file, listed, rfl⟩ := List.mem_map.mp member
    obtain ⟨more, _, way⟩ := WrapperFiles.way_place way listed
    exact ⟨base, more, way⟩

end Ways

end Layering
