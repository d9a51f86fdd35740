import Layering.Proofs.Lookups

/-!
# What hinders writing

A file at a direct path can be written, and one that is there can be removed, unless a directory is in
its place or another file on its way. Nothing else is in the way of it: the directories that are missing
are made, and for the new contents there is always some name that is free.
-/

namespace Layering

/-- A file lies on the way to a location, so that nothing can lie there. -/
def Tree.Blocked (tree : Tree) (l : Location) : Prop :=
  ∃ m bytes mode, m <+: l ∧ m ≠ l ∧ tree.at? m = some (.file bytes mode)

namespace Tree

variable {tree : Tree} {here l : Location} {names : List Text}

theorem Sound.not_blocked (sound : tree.Sound) (there : tree.at? l ≠ none) : ¬tree.Blocked l := by
  rintro ⟨m, bytes, mode, part, other, file⟩
  exact there (sound.below (by simp [file]) part other)

theorem Sound.not_blocked_of_open (sound : tree.Sound) (open_ : tree.at? here = some .directory)
    {name : Text} (absent : tree.at? (here ++ [name]) = none) (part : here ++ [name] <+: l) :
    ¬tree.Blocked l := by
  rintro ⟨m, bytes, mode, inside, -, file⟩
  rcases List.prefix_or_prefix_of_prefix inside part with above | below
  · rcases List.prefix_concat_iff.mp above with rfl | above
    · cases absent.symm.trans file
    · have same : tree.at? m = some .directory := by
        by_cases here_ : m = here
        · rw [here_, open_]
        · exact sound.above (by simp [open_]) above here_
      cases same.symm.trans file
  · have gone : tree.at? m = none := by
      by_cases same : here ++ [name] = m
      · rw [← same, absent]
      · exact sound.below (by simp [absent]) below same
    cases gone.symm.trans file

/-- A file lies on the way to what is in a directory if it lies on the way to it, or in its place. -/
theorem blocked_concat {name : Text} : tree.Blocked (l ++ [name]) ↔
    tree.Blocked l ∨ ∃ bytes mode, tree.at? l = some (.file bytes mode) := by
  constructor
  · rintro ⟨m, bytes, mode, part, differ, file⟩
    have part := (List.prefix_concat_iff.mp part).resolve_left differ
    by_cases here : m = l
    · exact .inr ⟨bytes, mode, here ▸ file⟩
    · exact .inl ⟨m, bytes, mode, part, here, file⟩
  · rintro (⟨m, bytes, mode, part, differ, file⟩ | ⟨bytes, mode, file⟩)
    · refine ⟨m, bytes, mode, part.trans (List.prefix_append ..), ?_, file⟩
      rintro rfl
      simpa using part.length_le
    · exact ⟨l, bytes, mode, List.prefix_append .., by simp, file⟩

/-- Names that are short and lead down are followed to what is there, to the first that is missing, or
to a file on the way. -/
theorem Sound.follow_cases (sound : tree.Sound) (open_ : tree.at? here = some .directory)
    (forward : upName ∉ names) (short : ∀ name ∈ names, nameSize name ≤ maxNameSize) :
    (tree.at? (here ++ names) ≠ none ∧ tree.follow here names = .ok (here ++ names)) ∨
    (tree.at? (here ++ names) = none ∧ ¬tree.Blocked (here ++ names) ∧
      tree.follow here names = .error .notFound) ∨
    (tree.Blocked (here ++ names) ∧ tree.follow here names = .error .notDirectory) := by
  -- By induction on the names: the first of them is missing, a directory, or a file.
  induction names generalizing here with
  | nil => exact .inl ⟨by simp [open_], by rw [follow, List.append_nil]⟩
  | cons name rest ih =>
    have up : upName ≠ name := fun same => forward (same ▸ List.mem_cons_self)
    have forward : upName ∉ rest := fun member => forward (List.mem_cons_of_mem _ member)
    obtain ⟨fits, short⟩ := List.forall_mem_cons.mp short
    have split : here ++ name :: rest = here ++ [name] ++ rest := by simp
    have part : here ++ [name] <+: here ++ name :: rest := split ▸ List.prefix_append ..
    have step : tree.follow here (name :: rest) = if tree.at? (here ++ [name]) = none
        then .error .notFound else tree.follow (here ++ [name]) rest := by
      rw [follow, isDirectory_iff.mpr open_, if_neg (by simp), if_neg (Ne.symm up),
        if_neg (Nat.not_lt.mpr fits)]
    rw [step]
    rcases entry : tree.at? (here ++ [name]) with _ | ⟨_ | ⟨bytes, mode⟩⟩
    · rw [if_pos rfl]
      refine .inr (.inl ⟨?_, sound.not_blocked_of_open open_ entry part, rfl⟩)
      by_cases last : rest = []
      · rw [last, entry]
      · exact sound.below (by simp [entry]) part (by simpa using last)
    · rw [if_neg (by simp), split]
      exact ih entry forward short
    · rw [if_neg (by simp), split]
      cases rest with
      | nil => exact .inl ⟨by simp [entry], by rw [follow, List.append_nil]⟩
      | cons next rest =>
        refine .inr (.inr ⟨⟨_, bytes, mode, List.prefix_append .., by simp, entry⟩, ?_⟩)
        rw [follow, isDirectory, entry]
        rfl

end Tree

namespace Site

variable {s : Site} {p : Path}

/-- The slot of a direct path that leads to no directory. -/
theorem Direct.slot_cases (direct : s.Direct p) (sound : s.tree.Sound)
    (leaf : s.entryAt p ≠ some .directory) :
    (s.tree.Blocked (s.location p) ∧ s.slot? p = .error .notDirectory) ∨
    (¬s.tree.Blocked (s.location p) ∧ s.entryAt p.parent = none ∧
      s.slot? p = .error .notFound) ∨
    (¬s.tree.Blocked (s.location p) ∧ s.slot? p = .ok (some (s.location p))) := by
  obtain ⟨base, rest, way, short⟩ := direct
  have inner := way.inner leaf
  obtain ⟨name, last, other, at_⟩ := way.last inner
  have above := way.parent inner
  have fits : nameSize name ≤ maxNameSize := by
    obtain ⟨front, names, _⟩ := way.names
    rw [names, List.getLast?_append_of_ne_nil _ inner] at last
    exact short name (List.mem_of_getLast? last)
  -- A path is blocked by a file above its parent, or by its parent being one.
  have blocked_iff : s.tree.Blocked (s.location p) ↔ s.tree.Blocked (s.location p.parent) ∨
      ∃ bytes mode, s.entryAt p.parent = some (.file bytes mode) := at_ ▸ Tree.blocked_concat
  have cases_ := sound.follow_cases above.directory above.forward
    fun name member => short name (List.dropLast_subset _ member)
  rw [← above.location, ← above.locate] at cases_
  rcases cases_ with ⟨there, found⟩ | ⟨absent, free, found⟩ | ⟨blocked, found⟩
  · rcases entry : s.entryAt p.parent with _ | ⟨_ | ⟨bytes, mode⟩⟩
    · exact absurd entry there
    · refine .inr (.inr ⟨?_, ?_⟩)
      · rw [blocked_iff, entry]
        simp [sound.not_blocked there]
      · rw [slot_of_parent found entry last other, if_neg (Nat.not_lt.mpr fits), at_]
    · exact .inl ⟨blocked_iff.mpr (.inr ⟨bytes, mode, entry⟩), slot_of_file found entry⟩
  · refine .inr (.inl ⟨?_, absent, slot_of_locate_error found⟩)
    rw [blocked_iff, entryAt, absent]
    simp [free]
  · exact .inl ⟨blocked_iff.mpr (.inl blocked), slot_of_locate_error found⟩

end Site

namespace Action

open Site

variable {s s' : Site} {p : Path}

/-- A file is removed, or is missing already, unless a directory or a file is in the way. -/
theorem deleteFile_ok_iff (direct : s.Direct p) (sound : s.tree.Sound) :
    (deleteFile p s).1 = .ok () ↔
      s.entryAt p ≠ some .directory ∧ ¬s.tree.Blocked (s.location p) := by
  constructor
  · intro done
    -- The deletion goes through when there was nothing, or when it removed a file. Both leave
    -- the way free.
    rcases deleteFile_cases p s with ⟨-, q, missing⟩ | ⟨-, inner, bytes, mode, entry⟩ | ⟨f, run⟩
    · obtain ⟨base, rest, way, short⟩ := direct
      have absent := entryAt_of_withoutFile_notFound sound way.firm missing
      have leaf : s.entryAt p ≠ some .directory := by simp [absent]
      refine ⟨leaf, ?_⟩
      rcases Direct.slot_cases ⟨base, rest, way, short⟩ sound leaf with
        ⟨_, stuck⟩ | ⟨free, _⟩ | ⟨free, _⟩
      · cases missing.symm.trans (withoutFile_of_stuck stuck)
      · exact free
      · exact free
    · exact ⟨by simp [entry], sound.not_blocked (by rw [← entryAt, entry]; simp)⟩
    · rw [run] at done
      cases done
  · rintro ⟨leaf, free⟩
    rcases direct.slot_cases sound leaf with ⟨blocked, _⟩ | ⟨_, _, missing⟩ | ⟨_, taken⟩
    · exact absurd blocked free
    · rw [deleteFile_of_missing (withoutFile_of_stuck missing)]
    · rcases entry : s.tree.at? (s.location p) with _ | ⟨_ | ⟨bytes, mode⟩⟩
      · rw [deleteFile_of_missing (withoutFile_of_absent taken entry)]
      · exact absurd entry leaf
      · rw [deleteFile_of_ok (withoutFile_of_file taken entry)]

/-! ### Making directories -/

/-- No file lies at a location or on the way to it. -/
def Clear (s : Site) (l : Location) : Prop :=
  ∀ m bytes mode, m <+: l → s.tree.at? m ≠ some (.file bytes mode)

theorem Clear.absent {l : Location} (clear : Clear s l) (leaf : s.tree.at? l ≠ some .directory) :
    s.tree.at? l = none := by
  rcases entry : s.tree.at? l with _ | ⟨_ | ⟨bytes, mode⟩⟩
  · rfl
  · exact absurd entry leaf
  · exact absurd entry (clear _ bytes mode List.prefix_rfl)

theorem up_of_leads (leads : s.LeadsToDirectory p) (depth : Nat) :
    (makeDirectories.up depth p s).1 = .ok () := by
  have found : ∀ q, s.withDirectory p ≠ .error (.notFound q) := by
    intro q missing
    cases leads.1.symm.trans (locate_of_slot_error (withDirectory_notFound missing) (by simp))
  rcases made : s.withDirectory p with f | s'
  · rw [up_of_refused depth made fun q same => found q (same ▸ made)]
    exact congrArg (·.1) (acceptDirectory_of_leads leads f)
  · rw [up_of_made depth made]

/-- Once the directory above is there, a directory can be made where no file is. -/
theorem again_ok (direct : s.Direct p) (sound : s.tree.Sound) (clear : Clear s (s.location p))
    (above : s.entryAt p.parent = some .directory) : (makeDirectories.up 0 p s).1 = .ok () := by
  by_cases there : s.entryAt p = some .directory
  · exact up_of_leads ⟨direct.locate sound (by simp [there]), there⟩ 0
  · rcases direct.slot_cases sound there with
      ⟨⟨m, bytes, mode, part, _, file⟩, _⟩ | ⟨_, absent, _⟩ | ⟨_, taken⟩
    · exact absurd file (clear m bytes mode part)
    · cases absent.symm.trans above
    · rw [up_of_made 0 (withDirectory_of_free taken (clear.absent there))]

theorem up_ok (sound : s.tree.Sound) {base : Location} {rest : List Text} (depth : Nat)
    (way : s.Way p base rest) (short : ∀ name ∈ rest, nameSize name ≤ maxNameSize)
    (clear : Clear s (s.location p)) (enough : rest.length ≤ depth) :
    (makeDirectories.up depth p s).1 = .ok () := by
  -- By induction on how many directories may be missing: once the one above is there, this one is made.
  induction depth generalizing p rest with
  | zero =>
    obtain rfl := List.length_eq_zero_iff.mp (Nat.le_zero.mp enough)
    have direct : s.Direct p := ⟨base, [], way, short⟩
    have entry : s.entryAt p = some .directory := by
      rw [entryAt, way.location, List.append_nil, way.directory]
    exact up_of_leads ⟨direct.locate sound (by simp [entry]), entry⟩ 0
  | succ depth ih =>
    have direct : s.Direct p := ⟨base, rest, way, short⟩
    by_cases open_ : s.entryAt p = some .directory
    · exact up_of_leads ⟨direct.locate sound (by simp [open_]), open_⟩ _
    have inner := way.inner open_
    rcases direct.slot_cases sound open_ with
      ⟨⟨m, bytes, mode, part, _, file⟩, _⟩ | ⟨_, absent, missing⟩ | ⟨_, taken⟩
    · exact absurd file (clear m bytes mode part)
    · obtain ⟨name, _, _, at_⟩ := way.last inner
      have clearAbove : Clear s (s.location p.parent) :=
        fun m bytes mode part => clear m bytes mode (part.trans (at_ ▸ List.prefix_append ..))
      have made := ih (way.parent inner) (fun name member => short name (List.dropLast_subset _ member))
        clearAbove (by rw [List.length_dropLast]; omega)
      have above := makes_up depth p.parent s
      rw [up_succ_of_missing depth (withDirectory_of_stuck missing), bind_apply]
      rcases run : makeDirectories.up depth p.parent s with ⟨e | ⟨⟩, s₁⟩
      · rw [run] at made
        cases made
      · rw [run] at above
        have places := location_of_beside above.grows.beside
        have direct₁ := direct.of_opens above.grows.opens (by rw [above.grows.beside])
        refine again_ok direct₁ (above.grows.sound sound) ?_ (above.leads rfl).2
        intro m bytes mode part file
        rw [places] at part
        rcases above.grows.entries m with same | ⟨_, new, _⟩
        · exact clear m bytes mode part (same ▸ file)
        · cases new.symm.trans file
    · rw [up_of_made _ (withDirectory_of_free taken (clear.absent open_))]

theorem makeDirectories_ok (direct : s.Direct p) (sound : s.tree.Sound)
    (clear : Clear s (s.location p)) : (makeDirectories p s).1 = .ok () := by
  obtain ⟨base, rest, way, short⟩ := direct
  obtain ⟨front, names, _⟩ := way.names
  exact up_ok sound _ way short clear (by rw [names, List.length_append]; omega)

/-! ### A free name -/

theorem temporaryName_inj {name : Text} {n m : Nat}
    (same : temporaryName name n = temporaryName name m) : n = m := by
  have digits (k : Nat) : (List.replicate (8 - (Text.ofNat k).length) 'X' ++
      Text.ofNat k).filter Char.isDigit = Text.ofNat k := by
    rw [List.filter_append, List.filter_replicate_of_neg (by decide), List.nil_append,
      List.filter_eq_self]
    exact fun c member => Nat.isDigit_of_mem_toDigits (by decide) (by decide) member
  simp only [temporaryName, List.append_assoc, List.cons_append, List.cons.injEq,
    List.append_cancel_left_eq, true_and] at same
  rw [← List.append_assoc, ← List.append_assoc, List.append_cancel_right_eq] at same
  have number := congrArg (fun digits => Nat.ofDigitChars 10 (digits.filter Char.isDigit) 0) same
  rw [digits, digits] at number
  simpa [Text.ofNat] using number

/-- There are more names to try than entries in the tree. -/
theorem freeLocation_isSome (s : Site) (directory : Location) (name : Text) :
    (freeLocation? s directory name).isSome := by
  rw [Option.isSome_iff_ne_none]
  intro full
  -- Otherwise all names that are tried would be taken, and they are more than there are entries.
  let tried := (List.range (s.tree.size + 1)).map fun n => directory ++ [temporaryName name n]
  have differ : tried.Nodup := by
    refine List.Nodup.map (fun n m same => ?_) List.nodup_range
    exact temporaryName_inj (List.singleton_inj.mp (List.append_cancel_left same))
  have taken : tried ⊆ s.tree.keys := by
    intro l member
    have entry := List.find?_eq_none.mp full l member
    obtain ⟨n, _, rfl⟩ := List.mem_map.mp member
    rw [decide_eq_true_iff, Tree.at?_of_ne_nil (by simp)] at entry
    rw [Std.ExtTreeMap.mem_keys, Std.ExtTreeMap.mem_iff_isSome_getElem?]
    exact Option.isSome_iff_ne_none.mpr entry
  have fewer := (differ.subperm taken).length_le
  rw [Std.ExtTreeMap.length_keys, List.length_map, List.length_range] at fewer
  omega

/-! ### Moving -/

/-- Making the directories above a path does not touch what it leads to. -/
theorem at?_of_grows_above {base : Location} {rest : List Text} (way : s.Way p base rest)
    (grows : Grows s s' p.parent) : s'.tree.at? (s.location p) = s.tree.at? (s.location p) := by
  refine (grows.entries _).resolve_right ?_
  rintro ⟨absent, _, k, reached⟩
  have inner := way.inner (by simp [entryAt, absent])
  obtain ⟨name, _, _, at_⟩ := way.last inner
  have same := Tree.eq_walk_of_follow reached
  have part := (way.parent inner).firm.prefix_of_absent (k := k) (same ▸ absent)
  rw [← same, at_] at part
  simpa using part.length_le

/-- New contents are moved to their place, unless a directory is there. -/
theorem replace_ok {temporary l : Location} {bytes : Bytes} {fresh : Nat} (directory p : Path)
    (written : s.tree.at? temporary = some (.file bytes fresh)) (taken : s.slot? p = .ok (some l))
    (leaf : s.tree.at? l ≠ some .directory) : (replace temporary directory p s).1 = .ok () := by
  unfold replace change
  simp only [bind, Except.bind, entry_of_slot taken, taken, written]
  rcases entry : s.tree.at? l with _ | ⟨_ | ⟨old, mode⟩⟩
  · rfl
  · exact absurd entry leaf
  · rfl

end Action

end Layering
