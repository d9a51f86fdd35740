import Layering.Configuration
import Layering.Proofs.Findings

/-!
# Governing files

The file that configures a directory is looked for in the directories of its project: from the
directory itself up to the nearest root of a project. Both searches end at the same root. Among the
places where a file may stand the nearest directory comes first, then the order of the names, then
the directory itself before its resources. What lies outside the project has no part in it.
-/

namespace Layering

theorem findM?_eq_ok {ε α : Type} {f : α → Except ε Bool} {g : α → Bool} {xs : List α}
    (each : ∀ x ∈ xs, f x = .ok (g x)) : xs.findM? f = .ok (xs.find? g) := by
  induction xs with
  | nil => rfl
  | cons x xs ih =>
    obtain ⟨first, later⟩ := List.forall_mem_cons.mp each
    rw [List.findM?, first]
    cases answer : g x with
    | true =>
      rw [List.find?_cons_of_pos answer]
      rfl
    | false =>
      rw [List.find?_cons_of_neg (by simp [answer])]
      exact ih later

theorem getElem?_of_mem_take {α : Type} {xs : List α} {x : α} {k : Nat} (member : x ∈ xs.take k) :
    ∃ j < k, xs[j]? = some x := by
  obtain ⟨j, listed⟩ := List.getElem?_of_mem member
  rw [List.getElem?_take] at listed
  split at listed
  next less => exact ⟨j, less, listed⟩
  next => cases listed

/-- What is found first in lists laid end to end is found first in one of them, and in none before. -/
theorem find?_flatMap_eq_some {α β : Type} {f : α → List β} {g : β → Bool} {xs : List α} {y : β} :
    (xs.flatMap f).find? g = some y ↔ ∃ (k : Nat) (x : α), xs[k]? = some x ∧ (f x).find? g = some y ∧
      ∀ j < k, ∀ x, xs[j]? = some x → (f x).find? g = none := by
  rw [List.find?_flatMap, List.findSome?_eq_some_iff]
  constructor
  · rintro ⟨before, x, after, rfl, found, absent⟩
    refine ⟨before.length, x, by simp, found, fun j less x' listed => ?_⟩
    rw [List.getElem?_append_left less] at listed
    exact absent x' (List.mem_of_getElem? listed)
  · rintro ⟨k, x, listed, found, absent⟩
    obtain ⟨inside, rfl⟩ := List.getElem?_eq_some_iff.mp listed
    refine ⟨xs.take k, xs[k], xs.drop (k + 1), by simp, found, fun x' before => ?_⟩
    obtain ⟨j, less, listed⟩ := getElem?_of_mem_take before
    exact absent j less x' listed

theorem Location.not_mem_walk (names : List Text) {here : Location} (forward : upName ∉ here) :
    upName ∉ Location.walk here names := by
  induction names generalizing here with
  | nil => exact forward
  | cons name names ih =>
    rw [Location.walk, List.foldl_cons]
    split
    · exact ih fun up => forward (List.dropLast_subset _ up)
    next other => exact ih (by simp [forward, Ne.symm other])

namespace Configuration

variable {s s' : Site} {start directory root p : Path} {n : Nat}

/-! ### Where a file may stand -/

/-- The rank of a place: so many directories up, the number of the name, and whether it is among the
resources. -/
structure Rank where
  level : Nat
  name : Nat
  inResources : Bool
deriving DecidableEq

/-- Ranks are ordered part by part. -/
inductive Rank.Before (a b : Rank) : Prop
  | level (nearer : a.level < b.level)
  | name (same : a.level = b.level) (earlier : a.name < b.name)
  | resources (same : a.level = b.level) (same' : a.name = b.name)
    (own : a.inResources = false) (resources : b.inResources = true)

/-- The place of a name in a directory or among its resources. -/
def placeIn (directory : Path) (inResources : Bool) (name : Text) : Path :=
  if inResources then directory / resourceDirectory / Path.ofText name
  else directory / Path.ofText name

/-- The place of a rank, seen from a directory. -/
def placeOf (s : Site) (start : Path) (r : Rank) : Option Path := do
  let directory ← (upwards s start)[r.level]?
  let name ← fileNames[r.name]?
  some (placeIn directory r.inResources name)

theorem placeOf_eq_some {r : Rank} : placeOf s start r = some p ↔
    ∃ directory name, (upwards s start)[r.level]? = some directory ∧
      fileNames[r.name]? = some name ∧ placeIn directory r.inResources name = p := by
  simp [placeOf, Option.bind_eq_some_iff]

/-- What is found first in a directory has the first rank there. -/
theorem find?_candidates {g : Path → Bool} (found : (candidates directory).find? g = some p) :
    ∃ (k : Nat) (name : Text) (inResources : Bool), fileNames[k]? = some name ∧ placeIn directory inResources name = p ∧
      g p = true ∧ ∀ (j : Nat) name' inResources', fileNames[j]? = some name' →
        j < k ∨ j = k ∧ inResources' = false ∧ inResources = true →
        g (placeIn directory inResources' name') = false := by
  obtain ⟨k, name, listed, found, earlier⟩ := find?_flatMap_eq_some.mp found
  have before : ∀ j < k, ∀ name' inResources', fileNames[j]? = some name' →
      g (placeIn directory inResources' name') = false := by
    intro j less name' inResources' listed'
    have absent := List.find?_eq_none.mp (earlier j less name' listed')
    cases inResources' with
    | false => simpa [placeIn] using absent (directory / Path.ofText name') (by simp)
    | true =>
      simpa [placeIn] using absent (directory / resourceDirectory / Path.ofText name') (by simp)
  -- Of the two places for the name the one beside comes first.
  by_cases own : g (directory / Path.ofText name) = true
  · rw [List.find?_cons_of_pos own] at found
    obtain rfl := Option.some.inj found
    refine ⟨k, name, false, listed, rfl, own, fun j name' inResources' listed' order => ?_⟩
    rcases order with less | ⟨_, _, resources⟩
    · exact before j less name' inResources' listed'
    · cases resources
  · rw [List.find?_cons_of_neg own] at found
    by_cases among : g (directory / resourceDirectory / Path.ofText name) = true
    · rw [List.find?_cons_of_pos among] at found
      obtain rfl := Option.some.inj found
      refine ⟨k, name, true, listed, rfl, among, fun j name' inResources' listed' order => ?_⟩
      rcases order with less | ⟨rfl, rfl, _⟩
      · exact before j less name' inResources' listed'
      · obtain rfl := Option.some.inj (listed.symm.trans listed')
        simpa [placeIn] using own
    · rw [List.find?_cons_of_neg among] at found
      cases found

/-- Every place in a directory is tried. -/
theorem placeIn_mem_candidates {name : Text} (listed : name ∈ fileNames) (inResources : Bool) :
    placeIn directory inResources name ∈ candidates directory := by
  apply List.mem_flatMap.mpr
  refine ⟨name, listed, ?_⟩
  cases inResources <;> simp [placeIn]

/-! ### What the file system answers -/

/-- A place in a directory is reached over short names that do not lead up. -/
theorem names_of_candidate (tried : p ∈ candidates directory) :
    ∃ more, p = ⟨directory.anchor, directory.names ++ more⟩ ∧ upName ∉ more ∧
      ∀ name ∈ more, nameSize name ≤ maxNameSize := by
  obtain ⟨name, listed, tried⟩ := List.mem_flatMap.mp tried
  have relative : ∀ name ∈ fileNames, (Path.ofText name).isAbsolute = false := by decide
  have forward : ∀ name ∈ fileNames, upName ∉ (Path.ofText name).names := by decide
  have short : ∀ name ∈ fileNames, ∀ part ∈ (Path.ofText name).names,
      nameSize part ≤ maxNameSize := by decide
  have below (d : Path) : d / Path.ofText name =
      ⟨d.anchor, d.names ++ (Path.ofText name).names⟩ :=
    if_neg (by simp [relative name listed])
  have resources : directory / resourceDirectory =
      ⟨directory.anchor, directory.names ++ resourceDirectory.names⟩ := rfl
  -- Beside the directory or in its resources: both only append names that do not lead up.
  rcases List.mem_cons.mp tried with rfl | tried
  · exact ⟨_, below directory, forward name listed, short name listed⟩
  · obtain rfl := List.mem_singleton.mp tried
    refine ⟨resourceDirectory.names ++ (Path.ofText name).names, ?_, ?_, ?_⟩
    · rw [below, resources, List.append_assoc]
    · exact List.not_mem_append (by decide) (forward name listed)
    · intro part member
      rcases List.mem_append.mp member with above | own
      · have short' : ∀ part ∈ resourceDirectory.names, nameSize part ≤ maxNameSize := by decide
        exact short' part above
      · exact short name listed part own

/-- The directories at or above another lie on its way from the root. -/
theorem mem_upwards_iff : directory ∈ upwards s start ↔
    directory.anchor = .root ∧ directory.names <+: (s.resolve start).names := by
  rw [upwards, List.mem_cons, Action.mem_ancestors_iff]
  constructor
  · rintro (rfl | ⟨anchor, part, _⟩)
    · exact ⟨rfl, List.prefix_rfl⟩
    · exact ⟨anchor, part⟩
  · rintro ⟨anchor, part⟩
    by_cases same : directory.names = (s.resolve start).names
    · left
      obtain ⟨_, names⟩ := directory
      subst anchor same
      rfl
    · right
      exact ⟨anchor, part, same⟩

theorem forward_of_mem_upwards (above : directory ∈ upwards s start) : upName ∉ directory.names := by
  have forward : upName ∉ (s.resolve start).names := by
    unfold Site.resolve Path.resolve
    rw [Location.withoutParents_eq]
    exact Location.not_mem_walk _ List.not_mem_nil
  exact fun up => forward ((mem_upwards_iff.mp above).2.subset up)

/-- Where the file system answers about a directory, it answers about what is above and beside. -/
theorem answered (known : ∀ f, s.exists? (s.resolve start) ≠ .error f)
    (above : directory ∈ upwards s start) {more : List Text}
    (short : ∀ name ∈ more, nameSize name ≤ maxNameSize) :
    ∃ entry, s.entryOf? ⟨directory.anchor, directory.names ++ more⟩ = .ok entry := by
  obtain ⟨anchor, rest, names⟩ := mem_upwards_iff.mp above
  apply Site.answered_of_locate
  rw [Site.locate, Tree.follow_append]
  cases way : s.tree.follow (s.start ⟨directory.anchor, directory.names ++ more⟩)
      directory.names with
  | ok l => exact Tree.follow_ne_tooLong short
  | error o =>
    rintro long
    obtain rfl : o = .nameTooLong := Except.error.inj long
    -- Then the name is too long on the way to the start as well.
    have stuck : s.locate (s.resolve start) = .error .nameTooLong := by
      rw [Site.locate, ← names, Tree.follow_append]
      have same : s.start (s.resolve start) =
          s.start ⟨directory.anchor, directory.names ++ more⟩ := by
        rw [Site.start, Site.start]
        simp [Path.isAbsolute, anchor, Site.resolve, Path.resolve]
      rw [same, way]
      rfl
    refine known (.nameTooLong (s.resolve start)) ?_
    rw [Site.exists?, Site.entryOf?_of_tooLong stuck]
    rfl

/-- There is a file at a place. -/
def isFile (s : Site) (p : Path) : Bool := s.isFile? p = .ok true

theorem isFile?_eq (known : ∀ f, s.exists? (s.resolve start) ≠ .error f)
    (above : directory ∈ upwards s start) (tried : p ∈ candidates directory) :
    s.isFile? p = .ok (isFile s p) := by
  obtain ⟨more, rfl, _, short⟩ := names_of_candidate tried
  obtain ⟨entry, asked⟩ := answered known above short
  rw [isFile, Site.isFile?, asked]
  cases entry with
  | none => rfl
  | some e => cases e <;> rfl

theorem exists_isProjectRoot (known : ∀ f, s.exists? (s.resolve start) ≠ .error f)
    (above : directory ∈ upwards s start) : ∃ is, isProjectRoot s directory = .ok is := by
  have short : ∀ name ∈ [rootMark], nameSize name ≤ maxNameSize := by decide
  have short' : ∀ name ∈ [descriptorName], nameSize name ≤ maxNameSize := by decide
  obtain ⟨mark, asked⟩ := answered known above short
  obtain ⟨descriptor, asked'⟩ := answered known above short'
  unfold isProjectRoot Site.exists? Path.child
  simp only [asked, asked']
  cases mark <;> cases descriptor <;> exact ⟨_, rfl⟩

/-! ### The two searches -/

/-- So many directories up is the nearest root of a project. -/
structure NearestRoot (s : Site) (start : Path) (n : Nat) (root : Path) : Prop where
  place : (upwards s start)[n]? = some root
  isRoot : isProjectRoot s root = .ok true
  nearest : ∀ m < n, ∀ d, (upwards s start)[m]? = some d → isProjectRoot s d = .ok false

/-- There is no root of a project at or above a directory. -/
def Rootless (s : Site) (start : Path) : Prop :=
  ∀ d ∈ upwards s start, isProjectRoot s d = .ok false

theorem nearestRoot_or_rootless (known : ∀ f, s.exists? (s.resolve start) ≠ .error f) :
    (∃ n root, NearestRoot s start n root) ∨ Rootless s start := by
  have each : ∀ d ∈ upwards s start,
      isProjectRoot s d = .ok (decide (isProjectRoot s d = .ok true)) := by
    intro d above
    obtain ⟨is, asked⟩ := exists_isProjectRoot known above
    cases is <;> simp [asked]
  -- The first root going up is the nearest; without one every directory above is none.
  cases found : (upwards s start).find? fun d => isProjectRoot s d = .ok true with
  | none =>
    right
    intro d above
    rw [each d above]
    simpa using List.find?_eq_none.mp found d above
  | some root =>
    left
    obtain ⟨is, before, after, split, others⟩ := List.find?_eq_some_iff_append.mp found
    refine ⟨before.length, root, by simp [split], of_decide_eq_true is, fun m less d listed => ?_⟩
    rw [split, List.getElem?_append_left less] at listed
    have member := List.mem_of_getElem? listed
    rw [each d (split ▸ List.mem_append_left _ member)]
    simpa using others d member

theorem NearestRoot.split (nearest : NearestRoot s start n root) :
    upwards s start = (upwards s start).take n ++ root :: (upwards s start).drop (n + 1) ∧
      ∀ d ∈ (upwards s start).take n, isProjectRoot s d = .ok false := by
  obtain ⟨inside, here⟩ := List.getElem?_eq_some_iff.mp nearest.place
  constructor
  · rw [← here]
    simp
  · intro d member
    obtain ⟨m, less, listed⟩ := getElem?_of_mem_take member
    exact nearest.nearest m less d listed

theorem projectRoot_of_nearest (nearest : NearestRoot s start n root) :
    projectRoot s start = .ok root := by
  obtain ⟨split, others⟩ := nearest.split
  have found : (upwards s start).findM? (isProjectRoot s) = .ok (some root) := by
    rw [split]
    generalize (upwards s start).take n = before at others
    -- Along the directories before the root, each of which answers no.
    induction before with
    | nil =>
      rw [List.nil_append, List.findM?, nearest.isRoot]
      rfl
    | cons d before ih =>
      obtain ⟨first, later⟩ := List.forall_mem_cons.mp others
      rw [List.cons_append, List.findM?, first]
      exact ih later
  rw [projectRoot, found]
  rfl

theorem projectRoot_of_rootless (rootless : Rootless s start) :
    projectRoot s start = .ok (s.resolve start) := by
  have absent : (upwards s start).find? (fun _ => false) = none := by simp
  rw [projectRoot, findM?_eq_ok rootless, absent]
  rfl

/-- A directory without files to be found is left for the next one, unless it is a root. -/
theorem firstFile?_cons {d : Path} {rest : List Path} {is : Bool}
    (each : ∀ p ∈ candidates d, s.isFile? p = .ok (isFile s p))
    (asked : isProjectRoot s d = .ok is) :
    firstFile? s (d :: rest) = match (candidates d).find? (isFile s) with
      | some file => .ok (some file)
      | none => if is then .ok none else firstFile? s rest := by
  rw [firstFile?, findM?_eq_ok each, asked]
  cases (candidates d).find? (isFile s) <;> cases is <;> rfl

theorem firstFile?_of_root {before after : List Path}
    (each : ∀ d ∈ before ++ [root], ∀ p ∈ candidates d, s.isFile? p = .ok (isFile s p))
    (others : ∀ d ∈ before, isProjectRoot s d = .ok false)
    (isRoot : isProjectRoot s root = .ok true) :
    firstFile? s (before ++ root :: after) =
      .ok (((before ++ [root]).flatMap candidates).find? (isFile s)) := by
  -- Along the directories before the root: the search goes on past each, and stops behind the
  -- root's own files.
  induction before with
  | nil =>
    rw [List.nil_append, firstFile?_cons (each root (by simp)) isRoot]
    cases found : (candidates root).find? (isFile s) <;> simp [found]
  | cons d before ih =>
    obtain ⟨first, later⟩ := List.forall_mem_cons.mp others
    have each' : ∀ e ∈ before ++ [root], ∀ p ∈ candidates e, s.isFile? p = .ok (isFile s p) :=
      fun e member => each e (List.mem_cons_of_mem _ member)
    rw [List.cons_append, firstFile?_cons (each d List.mem_cons_self) first, ih each' later]
    cases found : (candidates d).find? (isFile s) <;> simp [found]

theorem firstFile?_of_rootless {directories : List Path}
    (each : ∀ d ∈ directories, ∀ p ∈ candidates d, s.isFile? p = .ok (isFile s p))
    (rootless : ∀ d ∈ directories, isProjectRoot s d = .ok false) :
    firstFile? s directories = .ok ((directories.flatMap candidates).find? (isFile s)) := by
  induction directories with
  | nil => rfl
  | cons d directories ih =>
    obtain ⟨first, later⟩ := List.forall_mem_cons.mp each
    obtain ⟨other, others⟩ := List.forall_mem_cons.mp rootless
    rw [firstFile?_cons first other, ih later others]
    cases found : (candidates d).find? (isFile s) <;> simp [found]

/-- The directories up to the nearest root. -/
def inProject (s : Site) (start : Path) (n : Nat) : List Path := (upwards s start).take (n + 1)

theorem file?_of_nearest (known : ∀ f, s.exists? (s.resolve start) ≠ .error f)
    (nearest : NearestRoot s start n root) :
    file? s start = .ok (((inProject s start n).flatMap candidates).find? (isFile s)) := by
  obtain ⟨split, others⟩ := nearest.split
  have part : inProject s start n = (upwards s start).take n ++ [root] := by
    rw [inProject, List.take_add_one, nearest.place]
    rfl
  rw [file?, part]
  conv_lhs => rw [split]
  refine firstFile?_of_root (fun d member p tried => isFile?_eq known ?_ tried) others nearest.isRoot
  rw [← part] at member
  exact List.mem_of_mem_take member

/-! ### The first file -/

/-- A file has the first rank of those that are tried. -/
structure FirstFile (s : Site) (start : Path) (within : Nat → Prop) (file : Path) (r : Rank) :
    Prop where
  place : placeOf s start r = some file
  tried : within r.level
  there : s.isFile? file = .ok true
  first : ∀ other : Rank, other.Before r → ∀ p, placeOf s start other = some p →
    s.isFile? p = .ok false

/-- What the search in some directories is to find: the file of the first rank, or none if there is
none at all. -/
inductive Governs (s : Site) (start : Path) (within : Nat → Prop) : Option Path → Prop
  | file {p : Path} {r : Rank} (first : FirstFile s start within p r) : Governs s start within (some p)
  | none (absent : ∀ r : Rank, within r.level → ∀ p, placeOf s start r = some p →
      s.isFile? p = .ok false) : Governs s start within none

/-- What is found first in a part of the directories has the first rank. -/
theorem governs_find? (known : ∀ f, s.exists? (s.resolve start) ≠ .error f)
    {within : Nat → Prop} {directories : List Path}
    (part : ∀ k d, directories[k]? = some d ↔ within k ∧ (upwards s start)[k]? = some d)
    (closed : ∀ j k, j < k → within k → within j) :
    Governs s start within ((directories.flatMap candidates).find? (isFile s)) := by
  -- What the search has passed is no file, and asking for it raised no error.
  have absent {r : Rank} {p d : Path} {name : Text} (above : (upwards s start)[r.level]? = some d)
      (listed : fileNames[r.name]? = some name) (at_ : placeIn d r.inResources name = p)
      (no : isFile s p = false) : s.isFile? p = .ok false := by
    rw [← no]
    apply isFile?_eq known (List.mem_of_getElem? above)
    rw [← at_]
    exact placeIn_mem_candidates (List.mem_of_getElem? listed) _
  cases found : (directories.flatMap candidates).find? (isFile s) with
  | none =>
    refine .none fun r tried p at_ => ?_
    obtain ⟨d, name, above, listed, at_⟩ := placeOf_eq_some.mp at_
    refine absent above listed at_ (Bool.eq_false_iff.mpr ?_)
    apply List.find?_eq_none.mp found p
    apply List.mem_flatMap.mpr
    refine ⟨d, List.mem_of_getElem? ((part _ d).mpr ⟨tried, above⟩), at_ ▸ ?_⟩
    exact placeIn_mem_candidates (List.mem_of_getElem? listed) _
  | some p =>
    obtain ⟨k, d, listed, found, nearer⟩ := find?_flatMap_eq_some.mp found
    obtain ⟨tried, above⟩ := (part k d).mp listed
    obtain ⟨i, name, inResources, named, at_, there, earlier⟩ := find?_candidates found
    refine .file (r := ⟨k, i, inResources⟩)
      ⟨placeOf_eq_some.mpr ⟨d, name, above, named, at_⟩, tried, of_decide_eq_true there, ?_⟩
    intro other before p' at_'
    obtain ⟨d', name', above', named', at_'⟩ := placeOf_eq_some.mp at_'
    refine absent above' named' at_' ?_
    cases before with
    | level less =>
      have none := nearer _ less d' ((part _ d').mpr ⟨closed _ _ less tried, above'⟩)
      have no := List.find?_eq_none.mp none p'
        (at_' ▸ placeIn_mem_candidates (List.mem_of_getElem? named') _)
      exact Bool.eq_false_iff.mpr no
    | name same less =>
      obtain rfl := Option.some.inj (above.symm.trans (same ▸ above'))
      exact at_' ▸ earlier _ name' _ named' (.inl less)
    | resources same same' own resources =>
      obtain rfl := Option.some.inj (above.symm.trans (same ▸ above'))
      exact at_' ▸ earlier _ name' _ named' (.inr ⟨same', own, resources⟩)

/-! ### What lies outside the project -/

/-- Two sites have the same on the way to a location and below it. -/
structure SameIn (s s' : Site) (l : Location) : Prop where
  place : s'.workingDirectory = s.workingDirectory
  above : ∀ m, m <+: l → s'.tree.at? m = s.tree.at? m
  below : ∀ m, l <+: m → s'.tree.at? m = s.tree.at? m

namespace SameIn

variable (same : SameIn s s' root.names)
include same

theorem upwards_eq : upwards s' start = upwards s start := by
  rw [upwards, upwards, Site.resolve_of_workingDirectory same.place]

/-- Whatever is at or below the root of a project is found as before. -/
theorem locate_eq (anchored : root.anchor = .root) {names : List Text}
    (inside : root.names <+: names) (forward : upName ∉ names) :
    s'.locate ⟨root.anchor, names⟩ = s.locate ⟨root.anchor, names⟩ := by
  have start (s : Site) : s.start ⟨root.anchor, names⟩ = [] := by
    simp [Site.start, Path.isAbsolute, anchored]
  rw [Site.locate, Site.locate, start, start]
  apply Tree.follow_congr
  intro k
  rw [Location.walk_eq_append fun up => forward (List.mem_of_mem_take up), List.nil_append]
  rcases List.prefix_or_prefix_of_prefix (List.take_prefix k names) inside with short | long
  · exact same.above _ short
  · exact same.below _ long

theorem entryOf?_eq (anchored : root.anchor = .root) {names : List Text}
    (inside : root.names <+: names) (forward : upName ∉ names) :
    s'.entryOf? ⟨root.anchor, names⟩ = s.entryOf? ⟨root.anchor, names⟩ := by
  refine Site.entryOf?_congr (same.locate_eq anchored inside forward) (same.below _ ?_)
  rw [Site.location_of_forward forward, Site.start, if_pos (by simp [Path.isAbsolute, anchored])]
  exact inside

theorem isProjectRoot_eq (anchored : root.anchor = .root) {d : Path}
    (anchor : d.anchor = root.anchor) (inside : root.names <+: d.names)
    (forward : upName ∉ d.names) : isProjectRoot s' d = isProjectRoot s d := by
  have under {name : Text} : root.names <+: d.names ++ [name] := inside.trans (List.prefix_append ..)
  have forward' {name : Text} (other : name ≠ upName) : upName ∉ d.names ++ [name] :=
    List.not_mem_append forward (by simpa using Ne.symm other)
  have entry {name : Text} (other : name ≠ upName) :
      s'.entryOf? (d.child name) = s.entryOf? (d.child name) := by
    rw [Path.child, anchor]
    exact same.entryOf?_eq anchored under (forward' other)
  -- The descriptor is read as well as looked for, so its place has to be the same too.
  have same_says : saysRoot s' (d.child descriptorName) = saysRoot s (d.child descriptorName) := by
    have located : s'.locate (d.child descriptorName) = s.locate (d.child descriptorName) := by
      rw [Path.child, anchor]
      exact same.locate_eq anchored under (forward' (by decide))
    have at_ : s.location (d.child descriptorName) = d.names ++ [descriptorName] := by
      rw [Site.location_of_forward (forward' (by decide)), Site.start,
        if_pos (by simp [Path.isAbsolute, Path.child, anchor, anchored])]
      rfl
    rw [saysRoot, saysRoot, Site.readText_congr located (by rw [at_]; exact same.below _ under)]
  unfold isProjectRoot Site.exists?
  have mark := entry (by decide : rootMark ≠ upName)
  have descriptor := entry (by decide : descriptorName ≠ upName)
  simp only [mark, descriptor, same_says]

theorem isFile_eq (anchored : root.anchor = .root) {d : Path} (anchor : d.anchor = root.anchor)
    (inside : root.names <+: d.names) (forward : upName ∉ d.names) (tried : p ∈ candidates d) :
    isFile s' p = isFile s p := by
  obtain ⟨more, rfl, forward', _⟩ := names_of_candidate tried
  have entry := same.entryOf?_eq anchored (inside.trans (List.prefix_append d.names more))
    (List.not_mem_append forward forward')
  rw [isFile, isFile, Site.isFile?, Site.isFile?, anchor, entry]

end SameIn

/-- So many directories up there are so many names less. -/
theorem names_of_upwards {k : Nat} {d : Path} (listed : (upwards s start)[k]? = some d) :
    d.names = (s.resolve start).names.take ((s.resolve start).names.length - k) := by
  cases k with
  | zero =>
    obtain rfl := Option.some.inj listed
    rw [Nat.sub_zero, List.take_length]
  | succ k =>
    rw [upwards, List.getElem?_cons_succ, Path.ancestors, List.getElem?_map,
      Option.map_eq_some_iff] at listed
    obtain ⟨size, listed, rfl⟩ := listed
    obtain ⟨inside, rfl⟩ := List.getElem?_eq_some_iff.mp listed
    rw [List.getElem_reverse, List.getElem_range, List.length_range, Nat.sub_sub, Nat.add_comm]

/-- The directories up to a root lie in its project. -/
theorem NearestRoot.inside (nearest : NearestRoot s start n root) {d : Path}
    (member : d ∈ inProject s start n) :
    d.anchor = root.anchor ∧ root.names <+: d.names ∧ upName ∉ d.names := by
  have above := List.mem_of_mem_take member
  refine ⟨?_, ?_, forward_of_mem_upwards above⟩
  · obtain ⟨anchor, _⟩ := mem_upwards_iff.mp above
    obtain ⟨anchor', _⟩ := mem_upwards_iff.mp (List.mem_of_getElem? nearest.place)
    exact anchor.trans anchor'.symm
  · obtain ⟨k, less, listed⟩ := getElem?_of_mem_take member
    rw [names_of_upwards listed, names_of_upwards nearest.place]
    apply List.take_prefix_take_left
    omega

/-- What lies outside the project of a root changes neither where the project ends nor which file
governs a directory in it. -/
theorem SameIn.governs_alike (same : SameIn s s' root.names)
    (known : ∀ f, s.exists? (s.resolve start) ≠ .error f) (nearest : NearestRoot s start n root) :
    projectRoot s' start = projectRoot s start ∧ file? s' start = file? s start := by
  obtain ⟨anchored, inside⟩ := mem_upwards_iff.mp (List.mem_of_getElem? nearest.place)
  have within : ∀ d ∈ inProject s start n, isProjectRoot s' d = isProjectRoot s d ∧
      ∀ p ∈ candidates d, isFile s' p = isFile s p := by
    intro d member
    obtain ⟨anchor, below, forward⟩ := nearest.inside member
    constructor
    · exact same.isProjectRoot_eq anchored anchor below forward
    · exact fun p tried => same.isFile_eq anchored anchor below forward tried
  have listed {m : Nat} {d : Path} (near : m ≤ n) (at_ : (upwards s start)[m]? = some d) :
      d ∈ inProject s start n := by
    apply List.mem_of_getElem? (i := m)
    rw [inProject, List.getElem?_take_of_lt (by omega), at_]
  -- The marks of the project are inside it, and so is all that is asked on the way up to it.
  have nearest' : NearestRoot s' start n root := by
    constructor
    · rw [same.upwards_eq, nearest.place]
    · rw [(within root (listed le_rfl nearest.place)).1, nearest.isRoot]
    · intro m less d at_
      rw [same.upwards_eq] at at_
      rw [(within d (listed less.le at_)).1]
      exact nearest.nearest m less d at_
  have known' : ∀ f, s'.exists? (s'.resolve start) ≠ .error f := by
    have listed : s.resolve start ∈ upwards s start := List.mem_cons_self
    have forward : upName ∉ (s.resolve start).names := forward_of_mem_upwards listed
    have entry := same.entryOf?_eq anchored inside forward
    rw [anchored] at entry
    rw [Site.resolve_of_workingDirectory same.place, Site.exists?]
    exact entry ▸ known
  constructor
  · rw [projectRoot_of_nearest nearest', projectRoot_of_nearest nearest]
  · have part : inProject s' start n = inProject s start n := by
      rw [inProject, inProject, same.upwards_eq]
    rw [file?_of_nearest known' nearest', file?_of_nearest known nearest, part]
    congr 1
    apply List.find?_congr
    intro p tried
    obtain ⟨d, member, tried⟩ := List.mem_flatMap.mp tried
    exact (within d member).2 p tried

/-- Where the file system does not answer about a directory, neither search comes to an answer. -/
theorem searches_fail {f : Fault} (stuck : s.exists? (s.resolve start) = .error f) :
    (∃ f, projectRoot s start = .error f) ∧ ∃ f, file? s start = .error f := by
  have long : s.locate (s.resolve start) = .error .nameTooLong := by
    by_contra short
    obtain ⟨_, asked⟩ := Site.exists?_isOk.mpr short
    cases asked.symm.trans stuck
  -- A path that is too long to follow stays so however it goes on.
  have below (more : List Text) : s.entryOf? ⟨.root, (s.resolve start).names ++ more⟩ =
      .error (.nameTooLong ⟨.root, (s.resolve start).names ++ more⟩) :=
    Site.entryOf?_of_tooLong (Site.locate_append_error long more)
  constructor
  · have first : isProjectRoot s (s.resolve start) =
        .error (.nameTooLong ((s.resolve start).child rootMark)) := by
      unfold isProjectRoot Site.exists?
      rw [show s.entryOf? ((s.resolve start).child rootMark) = _ from below [rootMark]]
      rfl
    refine ⟨.nameTooLong ((s.resolve start).child rootMark), ?_⟩
    rw [projectRoot, upwards, List.findM?, first]
    rfl
  · have tried : candidates (s.resolve start) =
        (s.resolve start / Path.ofText "stratify.yaml") :: (candidates (s.resolve start)).tail := rfl
    have first : s.isFile? (s.resolve start / Path.ofText "stratify.yaml") =
        .error (.nameTooLong (s.resolve start / Path.ofText "stratify.yaml")) := by
      unfold Site.isFile?
      rw [show s.entryOf? (s.resolve start / Path.ofText "stratify.yaml") = _ from
        below (Path.ofText "stratify.yaml").names]
      rfl
    refine ⟨.nameTooLong (s.resolve start / Path.ofText "stratify.yaml"), ?_⟩
    rw [file?, upwards, firstFile?, tried, List.findM?, first]
    rfl

/-- If the file system answers about a directory at all, the root of its project is the nearest one
at or above it, or the directory itself if there is none. The file that governs it is the first of
those that may stand in the directories up to that root, or up to the root of the tree; so nothing
outside the project has a part in either. If it does not answer, both searches fail. -/
theorem governing_file (s : Site) (start : Path) :
    match s.exists? (s.resolve start) with
    | .error _ => (∃ f, projectRoot s start = .error f) ∧ ∃ f, file? s start = .error f
    | .ok _ =>
      (∃ n root, NearestRoot s start n root ∧ projectRoot s start = .ok root ∧
        (∃ found, file? s start = .ok found ∧ Governs s start (· ≤ n) found) ∧
        ∀ s', SameIn s s' root.names →
          projectRoot s' start = projectRoot s start ∧ file? s' start = file? s start) ∨
      (Rootless s start ∧ projectRoot s start = .ok (s.resolve start) ∧
        ∃ found, file? s start = .ok found ∧ Governs s start (fun _ => True) found) := by
  split
  -- The start can be asked about or not. If it can, so can all directories above it, and either
  -- one is a root or none is.
  next f stuck => exact searches_fail stuck
  next asked =>
    have known : ∀ f, s.exists? (s.resolve start) ≠ .error f := by
      intro f stuck
      cases asked.symm.trans stuck
    rcases nearestRoot_or_rootless known with ⟨n, root, nearest⟩ | rootless
    · left
      refine ⟨n, root, nearest, projectRoot_of_nearest nearest,
        ⟨_, file?_of_nearest known nearest, ?_⟩, fun s' same => same.governs_alike known nearest⟩
      apply governs_find? known
      · intro k d
        rw [inProject, List.getElem?_take]
        split <;> constructor <;> intro h <;> grind
      · intro j k less near
        omega
    · right
      have found := firstFile?_of_rootless
        (fun d above p tried => isFile?_eq known above tried) rootless
      refine ⟨rootless, projectRoot_of_rootless rootless, _, found, ?_⟩
      apply governs_find? known
      · simp
      · simp

end Configuration

end Layering
