import Layering.Workspace.Action
import Mathlib

/-!
# Locations of paths

Where the names of a path lead, if they lead anywhere: to the location that the path has by its
names alone. In a sound tree, in which every entry stands in a directory, a path without names of
two points leads to whatever is there.
-/

namespace Layering

/-- The name that leads to the directory above. -/
abbrev upName : Text := ['.', '.']

instance : Std.LawfulEqCmp Location.order := inferInstanceAs (Std.LawfulEqOrd Location)

theorem nameSize_append (a b : Text) : nameSize (a ++ b) = nameSize a + nameSize b := by
  simp [nameSize, Utf8.encode, List.flatMap_append]

/-- The location that names have by themselves, seen from another. -/
def Location.walk (here : Location) (names : List Text) : Location :=
  names.foldl (fun l name => if name = upName then l.dropLast else l ++ [name]) here

namespace Location

theorem walk_append (here : Location) (first rest : List Text) :
    walk here (first ++ rest) = walk (walk here first) rest :=
  List.foldl_append

theorem walk_eq_append {names : List Text} (forward : upName ∉ names) (here : Location) :
    walk here names = here ++ names := by
  induction names generalizing here with
  | nil => simp [walk]
  | cons name rest ih =>
    obtain ⟨other, forward⟩ := List.ne_and_not_mem_of_not_mem_cons forward
    have step : walk here (name :: rest) = walk (here ++ [name]) rest := by
      simp [walk, Ne.symm other]
    rw [step, ih forward, List.append_assoc]
    rfl

/-- Going up from what is kept, read backwards, is walking. -/
theorem withoutParents_eq (names : List Text) : Path.withoutParents names = walk [] names := by
  suffices h : ∀ kept : List Text,
      (names.foldl (fun kept name => if name = upName then kept.tail else name :: kept)
        kept).reverse = walk kept.reverse names from h []
  intro kept
  -- Along the names, with what is kept so far let free. It is kept from the back.
  induction names generalizing kept with
  | nil => rfl
  | cons name rest ih =>
    rw [List.foldl_cons, ih]
    by_cases up : name = upName
    · simp [walk, up, List.dropLast_reverse]
    · simp [walk, up]

end Location

namespace Tree

variable {tree tree' : Tree} {here l m : Location} {name : Text} {names : List Text}

theorem at?_of_ne_nil (inner : m ≠ []) : tree.at? m = tree[m]? := if_neg inner

theorem at?_insert (inner : l ≠ []) (e : Entry) (m : Location) :
    Tree.at? (tree.insert l e) m = if m = l then some e else tree.at? m := by
  unfold at?
  rw [Std.ExtTreeMap.getElem?_insert]
  simp only [Std.LawfulEqCmp.compare_eq_iff_eq]
  grind

theorem at?_erase (inner : l ≠ []) (m : Location) :
    Tree.at? (tree.erase l) m = if m = l then none else tree.at? m := by
  unfold at?
  rw [Std.ExtTreeMap.getElem?_erase]
  simp only [Std.LawfulEqCmp.compare_eq_iff_eq]
  grind

theorem isDirectory_iff : tree.isDirectory l = true ↔ tree.at? l = some .directory :=
  decide_eq_true_iff

/-- Nothing stands below a location exactly when no location further on has an entry. -/
theorem below_isEmpty_iff :
    (tree.below l).isEmpty = true ↔ ∀ m, l <+: m → m ≠ l → tree[m]? = none := by
  rw [List.isEmpty_iff, below, List.filterMap_eq_nil_iff]
  constructor
  · intro nothing m part other
    cases entry : tree[m]? with
    | none => rfl
    | some e =>
      have listed := Std.ExtTreeMap.mem_toList_iff_getElem?_eq_some.mpr entry
      have absent := nothing (m, e) listed
      simp [List.isPrefixOf_iff_prefix.mpr part, other] at absent
  · rintro nothing ⟨m, e⟩ listed
    have entry := Std.ExtTreeMap.mem_toList_iff_getElem?_eq_some.mp listed
    refine if_neg fun inside => ?_
    simp only [Bool.and_eq_true, List.isPrefixOf_iff_prefix, decide_eq_true_eq] at inside
    exact nomatch (nothing m inside.1 inside.2).symm.trans entry

/-- Every entry stands in a directory. -/
def Sound (tree : Tree) : Prop :=
  ∀ l name, tree.at? (l ++ [name]) ≠ none → tree.at? l = some .directory

/-- Above an entry there are directories only. -/
theorem Sound.above (sound : tree.Sound) (here : tree.at? m ≠ none) (part : l <+: m)
    (other : l ≠ m) : tree.at? l = some .directory := by
  obtain ⟨rest, rfl⟩ := part
  -- From the last name, since the tree is sound one level at a time.
  induction rest using List.reverseRecOn with
  | nil => simp at other
  | append_singleton rest name ih =>
    rw [← List.append_assoc] at here
    have parent := sound _ _ here
    by_cases last : rest = []
    · rwa [last, List.append_nil] at parent
    · exact ih (by rw [parent]; nofun) (by simpa using last)

/-- Below what is no directory there is nothing. -/
theorem Sound.below (sound : tree.Sound) (leaf : tree.at? l ≠ some .directory) (part : l <+: m)
    (other : l ≠ m) : tree.at? m = none := by
  cases entry : tree.at? m with
  | none => rfl
  | some e => exact absurd (sound.above (by rw [entry]; nofun) part other) leaf

theorem sound_empty : Tree.Sound ∅ := by
  intro l name entry
  rw [at?_of_ne_nil (by simp)] at entry
  simp at entry

theorem Sound.insert (sound : tree.Sound) (parent : tree.at? l.dropLast = some .directory)
    (inner : l ≠ []) {e : Entry} (kept : tree.at? l = some .directory → e = .directory) :
    Tree.Sound (tree.insert l e) := by
  intro m name entry
  rw [at?_insert inner] at entry ⊢
  by_cases new : m ++ [name] = l
  · have above : m = l.dropLast := by rw [← new, List.dropLast_concat]
    have other : m ≠ l := by rw [← new]; simp
    rw [if_neg other, above, parent]
  · rw [if_neg new] at entry
    split
    next same => exact congrArg some (kept (same ▸ sound m name entry))
    next => exact sound m name entry

theorem Sound.erase (sound : tree.Sound) (inner : l ≠ [])
    (empty : ∀ name, tree.at? (l ++ [name]) = none) : Tree.Sound (tree.erase l) := by
  intro m name entry
  rw [at?_erase inner] at entry ⊢
  split at entry
  · exact absurd rfl entry
  · split
    next same => exact absurd (same ▸ empty name) entry
    next => exact sound m name entry

theorem follow_append (here : Location) (first rest : List Text) :
    tree.follow here (first ++ rest) =
      (tree.follow here first).bind fun l => tree.follow l rest := by
  fun_induction follow tree here first with
  | case1 here => rfl
  | case2 here name rest' blocked => simp [follow, blocked, Except.bind]
  | case3 here rest' open_ ih => simpa [follow, open_] using ih
  | case4 here name rest' open_ other long => simp [follow, open_, other, long, Except.bind]
  | case5 here name rest' open_ other short absent =>
    simp [follow, open_, other, short, absent, Except.bind]
  | case6 here name rest' open_ other short present ih =>
    simpa [follow, open_, other, short, present] using ih

/-- Where names lead to is where they are by themselves. -/
theorem eq_walk_of_follow (way : tree.follow here names = .ok l) : l = here.walk names := by
  fun_induction follow tree here names with
  | case1 here => exact (Except.ok.inj way).symm
  | case2 => exact nomatch way
  | case3 here rest open_ ih => simpa [Location.walk] using ih way
  | case4 => exact nomatch way
  | case5 => exact nomatch way
  | case6 here name rest open_ other short present ih =>
    simpa [Location.walk, other] using ih way

/-- Names that lead to an end are short. -/
theorem short_of_follow (way : tree.follow here names = .ok l) :
    ∀ name ∈ names, nameSize name ≤ maxNameSize := by
  fun_induction follow tree here names with
  | case1 => simp
  | case2 => cases way
  | case3 here rest open_ ih => exact List.forall_mem_cons.mpr ⟨by decide, ih way⟩
  | case4 => cases way
  | case5 => cases way
  | case6 here name rest open_ other short present ih =>
    exact List.forall_mem_cons.mpr ⟨Nat.le_of_not_lt short, ih way⟩

/-- Short names are never found to be too long. -/
theorem follow_ne_tooLong (short : ∀ name ∈ names, nameSize name ≤ maxNameSize) :
    tree.follow here names ≠ .error .nameTooLong := by
  fun_induction follow tree here names with
  | case1 => simp
  | case2 => simp
  | case3 here rest open_ ih => exact ih (List.forall_mem_cons.mp short).2
  | case4 here name rest open_ other long =>
    exact absurd (short name List.mem_cons_self) (Nat.not_le_of_lt long)
  | case5 => simp
  | case6 here name rest open_ other short' present ih => exact ih (List.forall_mem_cons.mp short).2

/-- Names lead to the same end where the entries on the way are the same. -/
theorem follow_congr (same : ∀ k, tree'.at? (here.walk (names.take k)) =
    tree.at? (here.walk (names.take k))) : tree'.follow here names = tree.follow here names := by
  -- Along the names: each step looks at the place it stands on and the one it goes to.
  induction names generalizing here with
  | nil => rfl
  | cons name rest ih =>
    have first : tree'.isDirectory here = tree.isDirectory here := by
      have entry : tree'.at? here = tree.at? here := same 0
      rw [isDirectory, isDirectory, entry]
    have later (k : Nat) := same (k + 1)
    simp only [List.take_succ_cons, Location.walk, List.foldl_cons] at later
    unfold follow
    rw [first]
    by_cases up : name = upName
    · simp only [up, if_pos] at later ⊢
      rw [ih later]
    · simp only [up, if_false] at later ⊢
      rw [ih later, show tree'.at? (here ++ [name]) = tree.at? (here ++ [name]) from later 0]

/-- Names that lead anywhere lead to an entry. -/
theorem at?_of_follow (sound : tree.Sound) (entry : tree.at? here ≠ none)
    (way : tree.follow here names = .ok l) : tree.at? l ≠ none := by
  -- By the steps of the walk. Going up ends at a directory above one that is there.
  fun_induction follow tree here names with
  | case1 here => exact Except.ok.inj way ▸ entry
  | case2 => exact nomatch way
  | case3 here rest open_ ih =>
    refine ih ?_ way
    rcases List.eq_nil_or_concat here with rfl | ⟨above, name, rfl⟩
    · exact entry
    · rw [List.concat_eq_append] at entry ⊢
      rw [List.dropLast_concat, sound above name entry]
      nofun
  | case4 => exact nomatch way
  | case5 => exact nomatch way
  | case6 here name rest open_ other short present ih => exact ih present way

/-- In a sound tree, names without two points that lead nowhere lead to a place without an entry. -/
theorem Sound.at?_of_follow_error (sound : tree.Sound) {o : Obstacle} (forward : upName ∉ names)
    (way : tree.follow here names = .error o) (short : o ≠ .nameTooLong) :
    tree.at? (here ++ names) = none := by
  -- By the reason to stop: a file on the way, or a name that is missing. Below both there is
  -- nothing.
  fun_induction follow tree here names with
  | case1 => exact nomatch way
  | case2 here name rest blocked =>
    have leaf : tree.at? here ≠ some .directory := by
      rw [Ne, ← isDirectory_iff, Bool.not_eq_true]
      simpa using blocked
    exact sound.below leaf (List.prefix_append ..) (by simp)
  | case3 here rest => exact absurd List.mem_cons_self forward
  | case4 => exact absurd (Except.error.inj way).symm short
  | case5 here name rest _ _ _ absent =>
    by_cases last : rest = []
    · rw [last, absent]
    · refine sound.below (l := here ++ [name]) (by rw [absent]; nofun) ⟨rest, by simp⟩ ?_
      simpa using Ne.symm last
  | case6 here name rest _ _ _ present ih =>
    have := ih (List.ne_and_not_mem_of_not_mem_cons forward).2 way
    rwa [List.append_assoc] at this

/-- Names that lead on from a location lead on from a directory. -/
theorem directory_of_follow (way : tree.follow here names = .ok l) (further : names ≠ []) :
    tree.at? here = some .directory := by
  cases names with
  | nil => exact absurd rfl further
  | cons name rest =>
    rw [← isDirectory_iff]
    cases open_ : tree.isDirectory here with
    | true => rfl
    | false => simp [follow, open_] at way

/-- Names that lead to an entry pass entries only. -/
theorem at?_of_take (way : tree.follow here names = .ok l) (there : tree.at? l ≠ none) (k : Nat) :
    tree.at? (here.walk (names.take k)) ≠ none := by
  cases part : names.drop k with
  | nil =>
    rw [List.take_of_length_le (List.drop_eq_nil_iff.mp part), ← eq_walk_of_follow way]
    exact there
  | cons name rest =>
    rw [← List.take_append_drop k names, follow_append] at way
    cases first : tree.follow here (names.take k) with
    | error o => rw [first] at way; exact nomatch way
    | ok m =>
      rw [first] at way
      rw [← eq_walk_of_follow first, directory_of_follow way (by rw [part]; nofun)]
      nofun

/-- The second tree has all directories of the first. -/
def Opens (tree tree' : Tree) : Prop :=
  ∀ m, tree.at? m = some .directory → tree'.at? m = some .directory

private theorem Opens.isDirectory (opens : Opens tree tree')
    (open_ : ¬(!tree.isDirectory here) = true) : tree'.isDirectory here = true :=
  isDirectory_iff.mpr (opens _ (isDirectory_iff.mp (by simpa using open_)))

/-- Names lead to the same entry wherever the directories on the way are. -/
theorem Opens.follow (opens : Opens tree tree') (way : tree.follow here names = .ok l)
    (last : names ≠ [] → tree'.at? l ≠ none) : tree'.follow here names = .ok l := by
  -- By the steps of the walk: each was allowed by a directory, and directories stay open.
  fun_induction Tree.follow tree here names with
  | case1 => exact way
  | case2 => exact nomatch way
  | case3 here rest open_ ih =>
    simpa [Tree.follow, opens.isDirectory open_] using ih way fun _ => last (by simp)
  | case4 => exact nomatch way
  | case5 => exact nomatch way
  | case6 here name rest open_ other short present ih =>
    have present' : tree'.at? (here ++ [name]) ≠ none := by
      by_cases further : rest = []
      · rw [further] at way
        exact Except.ok.inj way ▸ last (by simp)
      · rw [opens _ (directory_of_follow way further)]
        nofun
    simpa [Tree.follow, opens.isDirectory open_, other, short, present'] using ih way fun _ => last (by simp)

/-- A name that is too long stays on the way wherever the directories before it are. -/
theorem Opens.follow_tooLong (opens : Opens tree tree')
    (way : tree.follow here names = .error .nameTooLong) :
    tree'.follow here names = .error .nameTooLong := by
  -- By the steps of the walk. The name that is too long is refused before its place is looked
  -- at.
  fun_induction Tree.follow tree here names with
  | case1 => exact nomatch way
  | case2 => exact nomatch way
  | case3 here rest open_ ih => simpa [Tree.follow, opens.isDirectory open_] using ih way
  | case4 here name rest open_ other long =>
    simp [Tree.follow, opens.isDirectory open_, other, long]
  | case5 => exact nomatch way
  | case6 here name rest open_ other short present ih =>
    have present' : tree'.at? (here ++ [name]) ≠ none := by
      cases rest with
      | nil => exact nomatch way
      | cons next rest =>
        cases further : tree.isDirectory (here ++ [name]) with
        | false => simp [Tree.follow, further] at way
        | true =>
          rw [opens _ (isDirectory_iff.mp further)]
          nofun
    simpa [Tree.follow, opens.isDirectory open_, other, short, present'] using ih way

end Tree

namespace Site

variable {s : Site} {p : Path} {l : Location}

/-- The location of a path by its names. -/
def location (s : Site) (p : Path) : Location := Location.walk (s.start p) p.names

/-- The entry at the location of a path. -/
def entryAt (s : Site) (p : Path) : Option Entry := s.tree.at? (s.location p)

/-- Where a path starts and leads by its names depends on the working directory only. -/
theorem start_of_workingDirectory {s' : Site} (same : s'.workingDirectory = s.workingDirectory)
    (p : Path) : s'.start p = s.start p := by
  rw [start, start, same]

theorem location_of_workingDirectory {s' : Site}
    (same : s'.workingDirectory = s.workingDirectory) (p : Path) :
    s'.location p = s.location p := by
  rw [location, location, start_of_workingDirectory same]

theorem resolve_of_workingDirectory {s' : Site}
    (same : s'.workingDirectory = s.workingDirectory) (p : Path) :
    s'.resolve p = s.resolve p := by
  rw [resolve, resolve, here, here, same]

theorem start_of_beside {s' : Site} (beside : s' = { s with tree := s'.tree }) (p : Path) :
    s'.start p = s.start p := start_of_workingDirectory (by rw [beside]) p

theorem location_of_beside {s' : Site} (beside : s' = { s with tree := s'.tree }) (p : Path) :
    s'.location p = s.location p := location_of_workingDirectory (by rw [beside]) p

/-- Resolving a path gives its location. -/
theorem names_resolve (forward : upName ∉ s.workingDirectory) (p : Path) :
    (s.resolve p).names = s.location p := by
  unfold resolve Path.resolve location start here
  rw [Location.withoutParents_eq]
  unfold Path.join
  split
  next => rfl
  next => rw [Location.walk_append, Location.walk_eq_append forward]; rfl

theorem resolve_eq (forward : upName ∉ s.workingDirectory) (p : Path) :
    s.resolve p = ⟨.root, s.location p⟩ := by
  rw [← names_resolve forward]
  rfl

theorem eq_location_of_locate (way : s.locate p = .ok l) : l = s.location p :=
  Tree.eq_walk_of_follow way

theorem location_of_forward (forward : upName ∉ p.names) :
    s.location p = s.start p ++ p.names := Location.walk_eq_append forward _

/-- What is in the way of a path is in the way of all that go on from it. -/
theorem locate_append_error {o : Obstacle} (stuck : s.locate p = .error o) (more : List Text) :
    s.locate ⟨p.anchor, p.names ++ more⟩ = .error o := by
  rw [locate, Tree.follow_append]
  exact congrArg (Except.bind · _) stuck

theorem locate_of_parent_error {o : Obstacle} (stuck : s.locate p.parent = .error o) :
    s.locate p = .error o := by
  rcases List.eq_nil_or_concat p.names with none | ⟨before, name, names⟩
  · have same : p.parent = p := by rw [Path.parent, none, List.dropLast_nil, ← none]
    rwa [same] at stuck
  · have whole : p = ⟨p.parent.anchor, p.parent.names ++ [name]⟩ := by
      rw [Path.parent, names, List.concat_eq_append, List.dropLast_concat, ← List.concat_eq_append,
        ← names]
    rw [whole]
    exact locate_append_error stuck [name]

/-! ### What is asked of a path -/

theorem entryOf?_of_locate (way : s.locate p = .ok l) : s.entryOf? p = .ok (s.entryAt p) := by
  rw [entryOf?, way, entryAt, eq_location_of_locate way]

theorem entryOf?_of_error {o : Obstacle} (stuck : s.locate p = .error o) (other : o ≠ .nameTooLong) :
    s.entryOf? p = .ok none := by
  rw [entryOf?, stuck]
  cases o with
  | nameTooLong => exact absurd rfl other
  | notFound => rfl
  | notDirectory => rfl

theorem entryOf?_of_tooLong (long : s.locate p = .error .nameTooLong) :
    s.entryOf? p = .error (.nameTooLong p) := by
  rw [entryOf?, long]

/-- A path leads to its location, or to nothing, or it holds a name that is too long. -/
theorem entryOf?_cases (s : Site) (p : Path) :
    (s.locate p = .ok (s.location p) ∧ s.entryOf? p = .ok (s.entryAt p)) ∨
    (∃ o, s.locate p = .error o ∧ o ≠ .nameTooLong ∧ s.entryOf? p = .ok none) ∨
    (s.locate p = .error .nameTooLong ∧ s.entryOf? p = .error (.nameTooLong p)) := by
  cases way : s.locate p with
  | ok l => exact .inl ⟨congrArg _ (eq_location_of_locate way), entryOf?_of_locate way⟩
  | error o =>
    by_cases long : o = .nameTooLong
    · subst long
      exact .inr (.inr ⟨rfl, entryOf?_of_tooLong way⟩)
    · exact .inr (.inl ⟨o, rfl, long, entryOf?_of_error way long⟩)

/-- A question about a path is answered unless a name is too long. -/
theorem exists?_isOk : (∃ there, s.exists? p = .ok there) ↔ s.locate p ≠ .error .nameTooLong := by
  rcases s.entryOf?_cases p with ⟨way, asked⟩ | ⟨o, stuck, other, asked⟩ | ⟨long, asked⟩
  · simp [exists?, asked, way, Except.map]
  · simp [exists?, asked, stuck, other, Except.map]
  · simp [exists?, asked, long, Except.map]

/-- Questions about a path are answered alike where it leads to what is alike. -/
theorem entryOf?_map_congr {α : Type} (f : Option Entry → α) {s' : Site}
    (located : s'.locate p = s.locate p)
    (same : f (s'.tree.at? (s.location p)) = f (s.tree.at? (s.location p))) :
    (s'.entryOf? p).map f = (s.entryOf? p).map f := by
  unfold entryOf?
  rw [located]
  cases way : s.locate p with
  | error o => cases o <;> rfl
  | ok l =>
    rw [eq_location_of_locate way]
    exact congrArg Except.ok same

theorem entryOf?_congr {s' : Site} (located : s'.locate p = s.locate p)
    (same : s'.tree.at? (s.location p) = s.tree.at? (s.location p)) :
    s'.entryOf? p = s.entryOf? p := by
  simpa only [Except.map_id, id] using entryOf?_map_congr id located same

theorem read_eq_ok {bytes : Bytes} {mode : Nat} : s.read p = .ok (bytes, mode) ↔
    s.locate p = .ok (s.location p) ∧ s.entryAt p = some (.file bytes mode) := by
  unfold read
  cases way : s.locate p with
  | error o => simp
  | ok l =>
    rw [entryAt, ← eq_location_of_locate way]
    rcases entry : s.tree.at? l with _ | (_ | ⟨old, oldMode⟩) <;> simp [entry]

theorem read_congr {s' : Site} (located : s'.locate p = s.locate p)
    (same : s'.tree.at? (s.location p) = s.tree.at? (s.location p)) : s'.read p = s.read p := by
  unfold read
  rw [located]
  cases way : s.locate p with
  | error o => rfl
  | ok l =>
    rw [eq_location_of_locate way]
    simp only [same]

/-- What is said to be there is there. -/
theorem locate_of_exists (there : s.exists? p = .ok true) :
    s.locate p = .ok (s.location p) ∧ s.entryAt p ≠ none := by
  rcases s.entryOf?_cases p with ⟨way, asked⟩ | ⟨_, _, _, asked⟩ | ⟨_, asked⟩
  · rw [exists?, asked] at there
    refine ⟨way, fun absent => ?_⟩
    rw [absent] at there
    cases there
  · rw [exists?, asked] at there
    cases there
  · rw [exists?, asked] at there
    cases there

/-- What is said to be absent is not found. -/
theorem locate_of_not_exists (absent : s.exists? p = .ok false) :
    s.locate p = .ok (s.location p) ∧ s.entryAt p = none ∨
      ∃ o, s.locate p = .error o ∧ o ≠ .nameTooLong := by
  rcases s.entryOf?_cases p with ⟨way, asked⟩ | ⟨o, stuck, other, _⟩ | ⟨_, asked⟩
  · rw [exists?, asked] at absent
    have none := Option.isSome_eq_false_iff.mp (Except.ok.inj absent)
    exact .inl ⟨way, Option.isNone_iff_eq_none.mp none⟩
  · exact .inr ⟨o, stuck, other⟩
  · rw [exists?, asked] at absent
    cases absent

/-- The names of two points in a path come before names that may lead nowhere. -/
def Firm (s : Site) (p : Path) : Prop :=
  ∃ front back l, p.names = front ++ back ∧ upName ∉ back ∧
    s.tree.follow (s.start p) front = .ok l ∧ (front ≠ [] → s.tree.at? l = some .directory)

theorem firm_of_forward (forward : upName ∉ p.names) : s.Firm p :=
  ⟨[], p.names, s.start p, rfl, forward, rfl, absurd rfl⟩

theorem firm_of_exists (sound : s.tree.Sound) (there : s.exists? p = .ok true) : s.Firm p := by
  have way := (locate_of_exists there).1
  rcases List.eq_nil_or_concat p.names with none | ⟨before, name, names⟩
  · exact firm_of_forward (by simp [none])
  rw [List.concat_eq_append] at names
  rw [locate, names, Tree.follow_append] at way
  cases first : s.tree.follow (s.start p) before with
  | error o => rw [first] at way; cases way
  | ok l =>
    rw [first] at way
    have open_ := Tree.directory_of_follow way (by simp)
    -- A name that leads up ends above the directory it was asked in; any other is the last of
    -- the path.
    by_cases up : name = upName
    · refine ⟨before ++ [name], [], l.dropLast, by simp [names], by simp, ?_, fun _ => ?_⟩
      · rw [Tree.follow_append, first]
        simp [Except.bind, Tree.follow, Tree.isDirectory_iff.mpr open_, up]
      · rcases List.eq_nil_or_concat l with rfl | ⟨above, last, rfl⟩
        · rfl
        · rw [List.concat_eq_append] at open_ ⊢
          rw [List.dropLast_concat, sound above last (by simp [open_])]
    · exact ⟨before, [name], l, names, by simpa using Ne.symm up, first, fun _ => open_⟩

/-- A path stays firm as long as no directory goes. -/
theorem Firm.of_opens {s' : Site} (firm : s.Firm p) (opens : s.tree.Opens s'.tree)
    (start : s'.start p = s.start p) : s'.Firm p := by
  obtain ⟨front, back, l, names, forward, first, open_⟩ := firm
  refine ⟨front, back, l, names, forward, ?_, fun further => opens l (open_ further)⟩
  rw [start]
  exact opens.follow first fun further => by simp [opens l (open_ further)]

/-- Where a firm path leads nowhere there is no entry. -/
theorem Firm.entryAt_of_error (firm : s.Firm p) (sound : s.tree.Sound) {o : Obstacle}
    (way : s.locate p = .error o) (short : o ≠ .nameTooLong) : s.entryAt p = none := by
  obtain ⟨front, back, l, names, forward, first, _⟩ := firm
  rw [locate, names, Tree.follow_append, first] at way
  rw [entryAt, location, names, Location.walk_append, ← Tree.eq_walk_of_follow first,
    Location.walk_eq_append forward]
  exact sound.at?_of_follow_error forward way short

/-- A firm path finds what is there. -/
theorem Firm.entryAt_of_not_exists (firm : s.Firm p) (sound : s.tree.Sound)
    (absent : s.exists? p = .ok false) : s.entryAt p = none := by
  rcases locate_of_not_exists absent with ⟨_, entry⟩ | ⟨o, way, short⟩
  · exact entry
  · exact firm.entryAt_of_error sound way short

/-- What is missing on the way of a firm path is above its location. -/
theorem Firm.prefix_of_absent (firm : s.Firm p) {k : Nat}
    (absent : s.tree.at? ((s.start p).walk (p.names.take k)) = none) :
    (s.start p).walk (p.names.take k) <+: s.location p := by
  obtain ⟨front, back, l, names, forward, first, open_⟩ := firm
  have forward' : upName ∉ back.take (k - front.length) := fun up => forward (List.mem_of_mem_take up)
  rw [location, names, List.take_append, Location.walk_append _ front back,
    Location.walk_eq_append forward]
  rw [names, List.take_append] at absent
  -- The front of the path was walked, so what is missing lies in the part behind it, which only
  -- descends.
  by_cases inside : front ≠ [] ∧ k ≤ front.length
  · obtain ⟨further, short⟩ := inside
    have there : s.tree.at? l ≠ none := by simp [open_ further]
    rw [Nat.sub_eq_zero_of_le short, List.take_zero, List.append_nil] at absent
    exact absurd absent (Tree.at?_of_take first there k)
  · have whole : front.take k = front := by
      refine List.take_of_length_le ?_
      by_cases none : front = []
      · simp [none]
      · exact Nat.le_of_lt (Nat.lt_of_not_le fun short => inside ⟨none, short⟩)
    rw [whole, Location.walk_append, Location.walk_eq_append forward']
    exact (List.prefix_append_right_inj _).mpr (List.take_prefix ..)

/-- A path without names of two points, or one that leads to something. -/
def Steady (s : Site) (p : Path) : Prop := upName ∉ p.names ∨ s.exists? p = .ok true

theorem Steady.firm (steady : s.Steady p) (sound : s.tree.Sound) : s.Firm p :=
  steady.elim firm_of_forward (firm_of_exists sound)

/-- What is found is found wherever the directories on the way are. -/
theorem exists_of_opens {s' : Site} (opens : s.tree.Opens s'.tree) (start : s'.start p = s.start p)
    (there : s.exists? p = .ok true) (entry : s'.tree.at? (s.location p) ≠ none) :
    s'.exists? p = .ok true := by
  have way : s'.locate p = .ok (s.location p) := by
    rw [locate, start]
    exact opens.follow (locate_of_exists there).1 fun _ => entry
  rw [exists?, entryOf?_of_locate way, entryAt, ← eq_location_of_locate way]
  exact congrArg Except.ok (Option.isSome_iff_ne_none.mpr entry)

/-- What hides the directory of a path hides its slot. -/
theorem slot_of_locate_error {o : Obstacle} (stuck : s.locate p.parent = .error o) :
    s.slot? p = .error o := by
  have way : s.tree.follow (s.start p) p.names.dropLast = .error o := stuck
  unfold slot?
  rw [way]
  rfl

/-- Where a file stands in the place of its directory a path has no slot. -/
theorem slot_of_file {bytes : Bytes} {mode : Nat}
    (found : s.locate p.parent = .ok (s.location p.parent))
    (file : s.entryAt p.parent = some (.file bytes mode)) : s.slot? p = .error .notDirectory := by
  have way : s.tree.follow (s.start p) p.names.dropLast = .ok (s.location p.parent) := found
  have file : s.tree.at? (s.location p.parent) = some (.file bytes mode) := file
  unfold slot?
  rw [way]
  simp only [bind, Except.bind, Tree.isDirectory, file]
  rfl

/-- The slot of a path is the same where its directory is. -/
theorem slot_congr {s' : Site} (located : s'.locate p.parent = s.locate p.parent)
    (same : s'.tree.at? (s.location p.parent) = s.tree.at? (s.location p.parent)) :
    s'.slot? p = s.slot? p := by
  have way : s'.tree.follow (s'.start p) p.names.dropLast =
      s.tree.follow (s.start p) p.names.dropLast := located
  unfold slot?
  rw [way]
  cases found : s.tree.follow (s.start p) p.names.dropLast with
  | error o => rfl
  | ok l =>
    have at_ : l = s.location p.parent := Tree.eq_walk_of_follow found
    simp only [bind, Except.bind, Tree.isDirectory, at_, same]

/-- A slot is the location of its path, in a directory that the names before the last lead to. -/
theorem slot_eq_some (taken : s.slot? p = .ok (some l)) :
    l = s.location p ∧ l ≠ [] ∧ s.tree.at? l.dropLast = some .directory ∧
      s.tree.follow (s.start p) p.names.dropLast = .ok l.dropLast ∧
      ∃ name, p.names.getLast? = some name ∧ l = l.dropLast ++ [name] ∧ name ≠ upName ∧
        ¬nameSize name > maxNameSize := by
  unfold slot? at taken
  cases way : s.tree.follow (s.start p) p.names.dropLast with
  | error o => rw [way] at taken; exact nomatch taken
  | ok parent =>
    simp only [way, bind, Except.bind] at taken
    split at taken
    · exact nomatch taken
    next open_ =>
      cases last : p.names.getLast? with
      | none => rw [last] at taken; exact nomatch taken
      | some name =>
        simp only [last] at taken
        split at taken
        · exact nomatch taken
        next other =>
          split at taken
          · exact nomatch taken
          next short =>
            cases taken
            have open_ : s.tree.at? parent = some .directory := by
              rw [← Tree.isDirectory_iff]
              simpa using open_
            refine ⟨?_, by simp, by rwa [List.dropLast_concat],
              by rw [List.dropLast_concat], name, rfl, by rw [List.dropLast_concat], other, short⟩
            rw [location, ← List.dropLast_append_getLast? name last, Location.walk_append,
              ← Tree.eq_walk_of_follow way]
            simp [Location.walk, other]

/-- A slot stays where it is as long as no directory goes. -/
theorem slot_of_opens {s' : Site} (opens : s.tree.Opens s'.tree) (start : s'.start p = s.start p)
    (taken : s.slot? p = .ok (some l)) : s'.slot? p = .ok (some l) := by
  obtain ⟨_, _, open_, way, name, last, same, other, short⟩ := slot_eq_some taken
  have open' := opens _ open_
  have way' : s'.tree.follow (s'.start p) p.names.dropLast = .ok l.dropLast := by
    rw [start]
    refine opens.follow way fun _ => ?_
    rw [open']
    nofun
  unfold slot?
  rw [way', last]
  simp only [bind, Except.bind, Tree.isDirectory_iff.mpr open', other, short, ← same]
  rfl

/-- A path that has a slot has short names. -/
theorem short_of_slot (taken : s.slot? p = .ok (some l)) :
    ∀ name ∈ p.names, nameSize name ≤ maxNameSize := by
  obtain ⟨_, _, _, way, name, last, _, _, short⟩ := slot_eq_some taken
  rw [← List.dropLast_append_getLast? name last]
  intro other member
  rcases List.mem_append.mp member with before | here
  · exact Tree.short_of_follow way other before
  · rw [List.mem_singleton.mp here]
    exact Nat.le_of_not_lt short

/-- A path that has a slot leads to what is in it. -/
theorem follow_slot (taken : s.slot? p = .ok (some l)) :
    s.locate p = if s.tree.at? l = none then .error .notFound else .ok l := by
  obtain ⟨_, _, open_, way, name, last, same, other, short⟩ := slot_eq_some taken
  have names := List.dropLast_append_getLast? name last
  rw [locate, ← names, Tree.follow_append, way]
  simp only [Except.bind, Tree.follow, Tree.isDirectory_iff.mpr open_, ← same, other, short]
  simp

/-- What hides the slot of a path hides what the path leads to. -/
theorem locate_of_slot_error {o : Obstacle} (stuck : s.slot? p = .error o)
    (other : o ≠ .notDirectory) : s.locate p = .error o := by
  unfold slot? at stuck
  cases way : s.tree.follow (s.start p) p.names.dropLast with
  | error o' =>
    simp only [way, bind, Except.bind, Except.error.injEq] at stuck
    exact locate_of_parent_error (stuck ▸ way)
  | ok parent =>
    simp only [way, bind, Except.bind] at stuck
    split at stuck
    · exact absurd (Except.error.inj stuck).symm other
    next open_ =>
      cases last : p.names.getLast? with
      | none => rw [last] at stuck; cases stuck
      | some name =>
        simp only [last] at stuck
        split at stuck
        · cases stuck
        next up =>
          split at stuck
          next long =>
            rw [locate, ← List.dropLast_append_getLast? name last, Tree.follow_append, way]
            simp only [Except.bind, Tree.follow, up, long, if_true, if_false]
            rw [if_neg open_, Except.error.inj stuck]
          next => cases stuck

end Site

end Layering
