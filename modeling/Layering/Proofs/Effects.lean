import Layering.Proofs.Locations
import Layering.Proofs.Refusals

/-!
# Effects of the operations on files

What each operation can change: the entries that differ afterwards, and that the tree stays sound.
Whatever fails here fails because the file system refused something.
-/

namespace Layering

/-- An end that is no failure other than a fault of the file system. -/
def FaultOnly {α : Type} (result : Except Failure α) : Prop :=
  ∀ e, result = .error e → ∃ f, e = .fault f

theorem faultOnly_ok {α : Type} (a : α) : FaultOnly (.ok a : Except Failure α) := nofun

theorem faultOnly_fault {α : Type} (f : Fault) : FaultOnly (.error (.fault f) : Except Failure α) := by
  rintro _ ⟨⟩
  exact ⟨f, rfl⟩

namespace Site

variable {s s' s'' : Site} {p : Path} {l m : Location}

theorem at?_insert (inner : l ≠ []) (e : Entry) (m : Location) :
    (s.insert l e).tree.at? m = if m = l then some e else s.tree.at? m := Tree.at?_insert inner e m

theorem at?_erase (inner : l ≠ []) (m : Location) :
    (s.erase l).tree.at? m = if m = l then none else s.tree.at? m := Tree.at?_erase inner m

/-- Directories were made on the way of a path, and nothing else happened. -/
structure Grows (s s' : Site) (p : Path) : Prop where
  beside : s' = { s with tree := s'.tree }
  entries : ∀ m, s'.tree.at? m = s.tree.at? m ∨ (s.tree.at? m = none ∧
    s'.tree.at? m = some .directory ∧ ∃ k, s'.tree.follow (s.start p) (p.names.take k) = .ok m)
  sound : s.tree.Sound → s'.tree.Sound

theorem Grows.refl (s : Site) (p : Path) : Grows s s p := ⟨rfl, fun _ => .inl rfl, id⟩

theorem Grows.opens (h : Grows s s' p) : s.tree.Opens s'.tree := by
  intro m entry
  rcases h.entries m with same | ⟨absent, _⟩
  · rw [same, entry]
  · exact nomatch absent.symm.trans entry

theorem Grows.trans (first : Grows s s' p) (second : Grows s' s'' p) : Grows s s'' p where
  beside := by rw [second.beside, first.beside]
  entries m := by
    have start := start_of_beside first.beside p
    rcases second.entries m with same | ⟨absent, made, way⟩
    · rw [same]
      refine (first.entries m).imp_right fun ⟨absent, made, k, way⟩ => ⟨absent, made, k, ?_⟩
      exact second.opens.follow way fun _ => by simp [same, made]
    · rcases first.entries m with same | ⟨_, made', _⟩
      · exact .inr ⟨by rw [← same, absent], made, start ▸ way⟩
      · exact nomatch absent.symm.trans made'
  sound sound := second.sound (first.sound sound)

theorem Grows.of_parent (h : Grows s s' p.parent) : Grows s s' p where
  beside := h.beside
  entries m := by
    refine (h.entries m).imp_right fun ⟨absent, made, k, way⟩ => ⟨absent, made, ?_⟩
    refine ⟨min k (p.names.length - 1), ?_⟩
    rwa [Path.parent, List.dropLast_eq_take, List.take_take] at way
  sound := h.sound

/-- The path leads to a directory. -/
def LeadsToDirectory (s : Site) (p : Path) : Prop :=
  s.locate p = .ok (s.location p) ∧ s.entryAt p = some .directory

theorem isDirectory_iff_leads : s.isDirectory? p = .ok true ↔ s.LeadsToDirectory p := by
  constructor
  · intro there
    rcases s.entryOf?_cases p with ⟨way, asked⟩ | ⟨_, _, _, asked⟩ | ⟨_, asked⟩
    · rw [isDirectory?, asked] at there
      exact ⟨way, of_decide_eq_true (Except.ok.inj there)⟩
    · rw [isDirectory?, asked] at there
      cases there
    · rw [isDirectory?, asked] at there
      cases there
  · rintro ⟨way, open_⟩
    rw [isDirectory?, entryOf?_of_locate way, open_]
    rfl

theorem leads_of_isDirectory (there : s.isDirectory? p = .ok true) : s.LeadsToDirectory p :=
  isDirectory_iff_leads.mp there

theorem exists_of_leads (leads : s.LeadsToDirectory p) : s.exists? p = .ok true := by
  rw [exists?, entryOf?_of_locate leads.1, leads.2]
  rfl

/-! ### What is taken from a slot and put into it -/

section

variable {o : Obstacle}

theorem withDirectory_of_stuck (stuck : s.slot? p = .error o) :
    s.withDirectory p = .error (obstacle p o) := by
  rw [withDirectory, stuck]

theorem withDirectory_of_nameless (taken : s.slot? p = .ok none) :
    s.withDirectory p = .error (.alreadyExists p) := by
  rw [withDirectory, taken]

theorem withDirectory_of_free (taken : s.slot? p = .ok (some l)) (free : s.tree.at? l = none) :
    s.withDirectory p = .ok (s.insert l .directory) := by
  rw [withDirectory, taken]
  exact if_pos free

theorem withDirectory_of_there (taken : s.slot? p = .ok (some l)) (there : s.tree.at? l ≠ none) :
    s.withDirectory p = .error (.alreadyExists p) := by
  rw [withDirectory, taken]
  exact if_neg there

/-- A new directory goes into a slot that is free. -/
theorem withDirectory_eq_ok (made : s.withDirectory p = .ok s') :
    ∃ l, s.slot? p = .ok (some l) ∧ s.tree.at? l = none ∧ s' = s.insert l .directory := by
  rcases taken : s.slot? p with o | _ | l
  · cases made.symm.trans (withDirectory_of_stuck taken)
  · cases made.symm.trans (withDirectory_of_nameless taken)
  · by_cases free : s.tree.at? l = none
    · exact ⟨l, rfl, free, Except.ok.inj (made.symm.trans (withDirectory_of_free taken free))⟩
    · cases made.symm.trans (withDirectory_of_there taken free)

theorem withDirectory_notFound {q : Path} (missing : s.withDirectory p = .error (.notFound q)) :
    s.slot? p = .error .notFound := by
  rcases taken : s.slot? p with o | _ | l
  · rw [withDirectory_of_stuck taken] at missing
    cases o with
    | notFound => rfl
    | notDirectory => cases missing
    | nameTooLong => cases missing
  · cases missing.symm.trans (withDirectory_of_nameless taken)
  · by_cases free : s.tree.at? l = none
    · cases missing.symm.trans (withDirectory_of_free taken free)
    · cases missing.symm.trans (withDirectory_of_there taken free)

theorem withoutFile_of_stuck (stuck : s.slot? p = .error o) :
    s.withoutFile p = .error (obstacle p o) := by
  rw [withoutFile, stuck]

theorem withoutFile_of_nameless (taken : s.slot? p = .ok none) :
    s.withoutFile p = .error (.isDirectory p) := by
  rw [withoutFile, taken]

theorem withoutFile_of_absent (taken : s.slot? p = .ok (some l)) (absent : s.tree.at? l = none) :
    s.withoutFile p = .error (.notFound p) := by
  rw [withoutFile, taken]
  simp only [absent]

theorem withoutFile_of_open (taken : s.slot? p = .ok (some l))
    (open_ : s.tree.at? l = some .directory) : s.withoutFile p = .error (.isDirectory p) := by
  rw [withoutFile, taken]
  simp only [open_]

theorem withoutFile_of_file {bytes : Bytes} {mode : Nat} (taken : s.slot? p = .ok (some l))
    (file : s.tree.at? l = some (.file bytes mode)) : s.withoutFile p = .ok (s.erase l) := by
  rw [withoutFile, taken]
  simp only [file]

end

theorem grows_withDirectory (made : s.withDirectory p = .ok s') :
    Grows s s' p ∧ s'.LeadsToDirectory p := by
  obtain ⟨l, taken, absent, rfl⟩ := withDirectory_eq_ok made
  obtain ⟨place, inner, parent, _⟩ := slot_eq_some taken
  have entry : (s.insert l .directory).tree.at? l = some .directory := by
    rw [at?_insert inner, if_pos rfl]
  have opens : s.tree.Opens (s.insert l .directory).tree := fun m open_ => by
    rw [at?_insert inner]
    split
    next => rfl
    next => exact open_
  -- The new directory stands in the way of no path, so its own path leads to it.
  have taken' : (s.insert l .directory).slot? p = .ok (some l) := slot_of_opens opens rfl taken
  have leads := follow_slot taken'
  rw [entry, if_neg (by nofun)] at leads
  refine ⟨⟨rfl, fun m => ?_, fun sound => sound.insert parent inner fun _ => rfl⟩,
    place ▸ leads, by rw [entryAt, ← entry]; exact congrArg _ place.symm⟩
  by_cases same : m = l
  · subst same
    exact .inr ⟨absent, entry, p.names.length, by rw [List.take_length]; exact leads⟩
  · exact .inl (by rw [at?_insert inner, if_neg same])

end Site

namespace Action

open Site

variable {s s' : Site} {p : Path}

theorem acceptDirectory_cases (p : Path) (f : Fault) (s : Site) :
    (makeDirectories.acceptDirectory p f s = (.ok (), s) ∧ s.LeadsToDirectory p) ∨
      ∃ f', makeDirectories.acceptDirectory p f s = (.error (.fault f'), s) := by
  unfold makeDirectories.acceptDirectory
  rw [bind_apply]
  simp only [askFault, ask]
  cases there : s.isDirectory? p with
  | error f' => exact .inr ⟨f', rfl⟩
  | ok is =>
    cases is with
    | true => exact .inl ⟨rfl, leads_of_isDirectory there⟩
    | false => exact .inr ⟨f, rfl⟩

theorem up_of_made (depth : Nat) (made : s.withDirectory p = .ok s') :
    makeDirectories.up depth p s = (.ok (), s') := by
  unfold makeDirectories.up
  rw [bind_apply, get_apply]
  simp only [made]
  rfl

theorem up_of_refused (depth : Nat) {f : Fault} (refused : s.withDirectory p = .error f)
    (other : ∀ q, f ≠ .notFound q) :
    makeDirectories.up depth p s = makeDirectories.acceptDirectory p f s := by
  unfold makeDirectories.up
  rw [bind_apply, get_apply]
  simp only [refused]

theorem up_zero_of_missing {q : Path} (missing : s.withDirectory p = .error (.notFound q)) :
    makeDirectories.up 0 p s = (.error (.fault (.notFound q)), s) := by
  unfold makeDirectories.up
  rw [bind_apply, get_apply]
  simp only [missing]
  rfl

/-- Once the directories above are made, the directory is tried again, and then for the last time. -/
theorem up_succ_of_missing (depth : Nat) {q : Path}
    (missing : s.withDirectory p = .error (.notFound q)) :
    makeDirectories.up (depth + 1) p s =
      (makeDirectories.up depth p.parent >>= fun _ => makeDirectories.up 0 p) s := by
  conv_lhs => unfold makeDirectories.up
  rw [bind_apply, get_apply]
  simp only [missing]
  rw [bind_apply, bind_apply]
  rcases makeDirectories.up depth p.parent s with ⟨e | ⟨⟩, s'⟩
  · rfl
  · simp only
    conv_rhs => unfold makeDirectories.up

/-- What is true after making directories: those that were missing on the way are there. -/
structure Makes (s : Site) (p : Path) (ended : Except Failure Unit × Site) : Prop where
  grows : Grows s ended.2 p
  faults : FaultOnly ended.1
  leads : ended.1 = .ok () → ended.2.LeadsToDirectory p

theorem makes_acceptDirectory (f : Fault) (p : Path) (s : Site) :
    Makes s p (makeDirectories.acceptDirectory p f s) := by
  rcases acceptDirectory_cases p f s with ⟨run, leads⟩ | ⟨f', run⟩
  · rw [run]
    exact ⟨.refl s p, faultOnly_ok _, fun _ => leads⟩
  · rw [run]
    exact ⟨.refl s p, faultOnly_fault f', nofun⟩

theorem makes_of_withDirectory (made : s.withDirectory p = .ok s') : Makes s p (.ok (), s') := by
  obtain ⟨grows, leads⟩ := grows_withDirectory made
  exact ⟨grows, faultOnly_ok _, fun _ => leads⟩

/-- What is done about a missing directory above makes the directories, if the rest does. -/
theorem makes_of_tried {tried : Except Fault Site} {missing : Path → Action Unit}
    (rest : ∀ q, Makes s p (missing q s)) :
    (∀ s', tried = .ok s' → s.withDirectory p = .ok s') →
    Makes s p ((match tried with
      | .ok s' => set s'
      | .error (.notFound q) => missing q
      | .error f => makeDirectories.acceptDirectory p f : Action Unit) s) := by
  intro real
  rcases tried with f | s'
  · cases f with
    | notFound q => exact rest q
    | _ => exact makes_acceptDirectory _ p s
  · exact makes_of_withDirectory (real s' rfl)

/-- Directories are made as far as making them is not refused. -/
theorem makes_refused (r : Refusals) (depth : Nat) (p : Path) (s : Site) :
    Makes s p (Refusals.makeDirectories.up r depth p s) := by
  have refused (p q : Path) (s : Site) : Makes s p (refuse (.notFound q) s) :=
    ⟨.refl s p, faultOnly_fault _, nofun⟩
  have real (p : Path) (s s' : Site) (tried : r.withDirectory p s = .ok s') :
      s.withDirectory p = .ok s' := by
    unfold Refusals.withDirectory at tried
    split at tried
    · cases tried
    · exact tried
  -- The induction is on the depth: the parent is made first, and the directory tried again.
  induction depth generalizing p s with
  | zero =>
    unfold Refusals.makeDirectories.up
    rw [bind_apply, get_apply]
    exact makes_of_tried (fun q => refused p q s) (real p s)
  | succ depth ih =>
    unfold Refusals.makeDirectories.up
    rw [bind_apply, get_apply]
    refine makes_of_tried (fun _ => ?_) (real p s)
    simp only
    rw [bind_apply]
    have above := ih p.parent s
    rcases run : Refusals.makeDirectories.up r depth p.parent s with ⟨e | ⟨⟩, s'⟩
    · rw [run] at above
      exact ⟨above.grows.of_parent, above.faults, nofun⟩
    · rw [run] at above
      have again := makes_of_tried (fun q => refused p q s') (real p s')
      exact ⟨above.grows.of_parent.trans again.grows, again.faults, again.leads⟩

theorem makes_up (depth : Nat) (p : Path) (s : Site) :
    Makes s p (makeDirectories.up depth p s) := by
  rw [← Refusals.up_nothing]
  exact makes_refused .nothing depth p s

theorem makes_makeDirectories (p : Path) (s : Site) : Makes s p (makeDirectories p s) :=
  makes_up p.names.length p s

/-! ### Removing -/

theorem withoutFile_eq_ok (removed : s.withoutFile p = .ok s') :
    s' = s.erase (s.location p) ∧ s.location p ≠ [] ∧
      ∃ bytes mode, s.entryAt p = some (.file bytes mode) := by
  rcases taken : s.slot? p with o | _ | l
  · cases removed.symm.trans (withoutFile_of_stuck taken)
  · cases removed.symm.trans (withoutFile_of_nameless taken)
  · obtain ⟨rfl, inner, _⟩ := slot_eq_some taken
    rcases entry : s.tree.at? (s.location p) with _ | ⟨_ | ⟨bytes, mode⟩⟩
    · cases removed.symm.trans (withoutFile_of_absent taken entry)
    · cases removed.symm.trans (withoutFile_of_open taken entry)
    · cases removed.symm.trans (withoutFile_of_file taken entry)
      exact ⟨rfl, inner, bytes, mode, entry⟩

theorem deleteFile_of_ok (removed : s.withoutFile p = .ok s') : deleteFile p s = (.ok (), s') := by
  unfold deleteFile
  rw [bind_apply, get_apply]
  simp only [removed]
  rfl

/-- Removing takes a missing file for removed. -/
theorem deleteFile_of_missing {q : Path} (missing : s.withoutFile p = .error (.notFound q)) :
    deleteFile p s = (.ok (), s) := by
  unfold deleteFile
  rw [bind_apply, get_apply]
  simp only [missing]
  rfl

theorem deleteFile_of_refused {f : Fault} (refused : s.withoutFile p = .error f)
    (other : ∀ q, f ≠ .notFound q) : deleteFile p s = (.error (.fault f), s) := by
  unfold deleteFile
  rw [bind_apply, get_apply]
  simp only [refused]
  cases f with
  | notFound q => exact absurd rfl (other q)
  | _ => rfl

/-- Removing a file removes it, finds that it is not there, or fails. -/
theorem deleteFile_cases (p : Path) (s : Site) :
    (deleteFile p s = (.ok (), s) ∧ ∃ q, s.withoutFile p = .error (.notFound q)) ∨
    (deleteFile p s = (.ok (), s.erase (s.location p)) ∧ s.location p ≠ [] ∧
      ∃ bytes mode, s.entryAt p = some (.file bytes mode)) ∨
    ∃ f, deleteFile p s = (.error (.fault f), s) := by
  rcases removed : s.withoutFile p with f | s'
  · by_cases missing : ∃ q, f = .notFound q
    · obtain ⟨q, rfl⟩ := missing
      exact .inl ⟨deleteFile_of_missing removed, q, rfl⟩
    · exact .inr (.inr ⟨f, deleteFile_of_refused removed (not_exists.mp missing)⟩)
  · obtain ⟨rfl, inner, there⟩ := withoutFile_eq_ok removed
    exact .inr (.inl ⟨deleteFile_of_ok removed, inner, there⟩)

/-- A file that cannot be found at a firm path is not there. -/
theorem entryAt_of_withoutFile_notFound {q : Path} (sound : s.tree.Sound) (firm : s.Firm p)
    (missing : s.withoutFile p = .error (.notFound q)) : s.entryAt p = none := by
  rcases taken : s.slot? p with o | _ | l
  · rw [withoutFile_of_stuck taken] at missing
    cases o with
    | notFound => exact firm.entryAt_of_error sound (locate_of_slot_error taken (by simp)) (by nofun)
    | notDirectory => cases missing
    | nameTooLong => cases missing
  · cases missing.symm.trans (withoutFile_of_nameless taken)
  · obtain ⟨rfl, _⟩ := slot_eq_some taken
    rcases entry : s.tree.at? (s.location p) with _ | ⟨_ | _⟩
    · exact entry
    · cases missing.symm.trans (withoutFile_of_open taken entry)
    · cases missing.symm.trans (withoutFile_of_file taken entry)

/-- A file has nothing below it. -/
theorem sound_erase_file (sound : s.tree.Sound) (inner : l ≠ []) {bytes : Bytes} {mode : Nat}
    (entry : s.tree.at? l = some (.file bytes mode)) : (s.erase l).tree.Sound := by
  refine sound.erase inner fun name => ?_
  exact sound.below (by rw [entry]; nofun) (List.prefix_append ..) (by simp)

theorem withoutDirectory_eq_ok (removed : s.withoutDirectory p = .ok s') :
    s' = s.erase (s.location p) ∧ s.location p ≠ [] ∧ s.entryAt p = some .directory ∧
      (∀ m, s.location p <+: m → m ≠ s.location p → s.tree.at? m = none) ∧
      ∃ name, s.location p = s.location p.parent ++ [name] := by
  unfold withoutDirectory at removed
  split at removed
  · exact nomatch removed
  · exact nomatch removed
  next l taken =>
    obtain ⟨rfl, inner, _, way, name, _, same, _⟩ := slot_eq_some taken
    split at removed
    next entry =>
      split at removed
      next empty =>
        refine ⟨(Except.ok.inj removed).symm, inner, entry, fun m part other => ?_, name, ?_⟩
        · have outer : m ≠ [] := by
            rintro rfl
            exact inner (List.prefix_nil.mp part)
          rw [Tree.at?_of_ne_nil outer]
          exact Tree.below_isEmpty_iff.mp empty m part other
        · rw [same]
          congr 1
          exact Tree.eq_walk_of_follow way
      next => exact nomatch removed
    next => exact nomatch removed
    next => exact nomatch removed

/-- Pruning goes up as long as there is an empty directory below the stop. -/
theorem pruneUpTo_eq (stop p : Path) (s : Site) : pruneUpTo stop p s =
    if s.resolve p ≠ s.resolve stop ∧ (s.resolve p).ancestors.contains (s.resolve stop) then
      match s.withoutDirectory p with
      | .error _ => (.ok (), s)
      | .ok s' => pruneUpTo stop p.parent s'
    else (.ok (), s) := by
  unfold pruneUpTo
  cases size : p.names.length with
  | zero =>
    unfold pruneUpTo.up
    rw [bind_apply, get_apply]
    -- With no names left the path is its own parent, and cannot be removed.
    have stuck (s' : Site) : s.withoutDirectory p ≠ .ok s' := fun removed => by
      obtain ⟨_, _, _, _, name, longer⟩ := withoutDirectory_eq_ok removed
      have none := List.length_eq_zero_iff.mp size
      have same : p.parent = p := by
        obtain ⟨anchor, names⟩ := p
        cases none
        rfl
      rw [same] at longer
      simpa using congrArg List.length longer
    simp only [Bool.and_eq_true, decide_eq_true_eq]
    split
    · rcases removed : s.withoutDirectory p with f | s'
      · rfl
      · exact absurd removed (stuck s')
    · rfl
  | succ n =>
    have size' : p.parent.names.length = n := by
      rw [Path.parent, List.length_dropLast, size]
      rfl
    conv_lhs => unfold pruneUpTo.up
    rw [bind_apply, get_apply, size']
    simp only [Bool.and_eq_true, decide_eq_true_eq]
    split
    · rcases s.withoutDirectory p with f | s'
      · rfl
      · simp only
        rw [bind_apply, set_apply]
    · rfl

theorem pruneUpTo_self (p : Path) (s : Site) : pruneUpTo p p s = (.ok (), s) := by
  rw [pruneUpTo_eq, if_neg]
  exact fun other => other.1 rfl

/-- Pruning never fails. -/
theorem pruneUpTo_apply (stop p : Path) (s : Site) :
    pruneUpTo stop p s = (.ok (), (pruneUpTo stop p s).2) := by
  suffices ends : ∀ depth p s, (pruneUpTo.up stop depth p s).1 = .ok () from
    Prod.ext (ends p.names.length p s) rfl
  intro depth
  induction depth with
  | zero =>
    intro p s
    unfold pruneUpTo.up
    rw [bind_apply, get_apply]
    simp only
    split
    · cases s.withoutDirectory p <;> rfl
    · rfl
  | succ depth ih =>
    intro p s
    unfold pruneUpTo.up
    rw [bind_apply, get_apply]
    simp only
    split
    · cases s.withoutDirectory p with
      | error f => rfl
      | ok s' => exact ih p.parent s'
    · rfl

/-- Empty directories strictly below one location were removed on the way to another, and nothing
else happened. -/
structure Prunes (s s' : Site) (stop l : Location) : Prop where
  beside : s' = { s with tree := s'.tree }
  entries : ∀ m, s'.tree.at? m = s.tree.at? m ∨ (s.tree.at? m = some .directory ∧
    s'.tree.at? m = none ∧ stop <+: m ∧ m ≠ stop ∧ m <+: l)
  sound : s.tree.Sound → s'.tree.Sound

theorem Prunes.refl (s : Site) (stop l : Location) : Prunes s s stop l :=
  ⟨rfl, fun _ => .inl rfl, id⟩

theorem Prunes.kept {stop l m : Location} (h : Prunes s s' stop l) (other : ¬m <+: l) :
    s'.tree.at? m = s.tree.at? m :=
  (h.entries m).resolve_right fun gone => other gone.2.2.2.2

theorem Prunes.not_file {stop l m : Location} (h : Prunes s s' stop l)
    (leaf : ∀ bytes mode, s.tree.at? m ≠ some (.file bytes mode)) (bytes : Bytes) (mode : Nat) :
    s'.tree.at? m ≠ some (.file bytes mode) := by
  rcases h.entries m with same | ⟨_, gone, _⟩
  · rw [same]
    exact leaf bytes mode
  · rw [gone]
    nofun

theorem mem_ancestors_iff {p q : Path} :
    q ∈ p.ancestors ↔ q.anchor = p.anchor ∧ q.names <+: p.names ∧ q.names ≠ p.names := by
  obtain ⟨anchor, names⟩ := q
  simp only [Path.ancestors, List.mem_map, List.mem_reverse, List.mem_range, Path.mk.injEq]
  constructor
  · rintro ⟨n, short, rfl, rfl⟩
    refine ⟨rfl, List.take_prefix .., fun same => ?_⟩
    have := congrArg List.length same
    rw [List.length_take] at this
    omega
  · rintro ⟨rfl, part, other⟩
    have shorter := part.length_le
    refine ⟨names.length, ?_, rfl, (List.prefix_iff_eq_take.mp part).symm⟩
    exact Nat.lt_of_le_of_ne shorter fun same => other (part.eq_of_length same)

/-- Pruning goes on while the directory is strictly below the stop. -/
theorem pruning_iff (forward : upName ∉ s.workingDirectory) {stop : Path} :
    (s.resolve p ≠ s.resolve stop ∧ (s.resolve p).ancestors.contains (s.resolve stop) = true) ↔
      s.location stop <+: s.location p ∧ s.location p ≠ s.location stop := by
  rw [List.contains_iff_mem, mem_ancestors_iff, resolve_eq forward, resolve_eq forward]
  simp only [Ne, Path.mk.injEq, true_and]
  grind

/-- What holds when pruning stops, and is carried back over each directory that goes, holds of
pruning. -/
theorem pruneUpTo_rule {stop : Path} {motive : Path → Site → Site → Prop}
    (stops : ∀ p s, ¬(s.location stop <+: s.location p ∧ s.location p ≠ s.location stop) ∨
      (∃ f, s.withoutDirectory p = .error f) → motive p s s)
    (goes : ∀ p s s' s'', s.location stop <+: s.location p → s.location p ≠ s.location stop →
      s.withoutDirectory p = .ok s' → motive p.parent s' s'' → motive p s s'')
    (forward : upName ∉ s.workingDirectory) (p : Path) :
    motive p s (pruneUpTo stop p s).2 := by
  -- By induction on the depth of the place, which each removal brings up by one.
  induction size : (s.location p).length generalizing p s with
  | zero =>
    rw [pruneUpTo_eq]
    split
    next =>
      rcases removed : s.withoutDirectory p with f | s'
      · exact stops p s (.inr ⟨f, removed⟩)
      · obtain ⟨_, _, _, _, name, longer⟩ := withoutDirectory_eq_ok removed
        simp [longer] at size
    next other => exact stops p s (.inl (mt (pruning_iff forward).mpr other))
  | succ n ih =>
    rw [pruneUpTo_eq]
    split
    next inside =>
      obtain ⟨below, outer⟩ := (pruning_iff forward).mp inside
      rcases removed : s.withoutDirectory p with f | s'
      · exact stops p s (.inr ⟨f, removed⟩)
      · obtain ⟨rfl, _, _, _, name, longer⟩ := withoutDirectory_eq_ok removed
        have shorter : ((s.erase (s.location p)).location p.parent).length = n := by
          rw [longer, List.length_append] at size
          exact Nat.succ_inj.mp size
        exact goes p s _ _ below outer removed
          (ih (s := s.erase (s.location p)) forward p.parent shorter)
    next other => exact stops p s (.inl (mt (pruning_iff forward).mpr other))

theorem prunes_pruneUpTo (forward : upName ∉ s.workingDirectory) (stop p : Path) :
    Prunes s (pruneUpTo stop p s).2 (s.location stop) (s.location p) := by
  refine pruneUpTo_rule (motive := fun p s s' => Prunes s s' (s.location stop) (s.location p))
    (fun p s _ => .refl ..) ?_ forward p
  intro p s s' s'' below other removed rest
  obtain ⟨rfl, inner, entry, empty, name, longer⟩ := withoutDirectory_eq_ok removed
  refine ⟨by rw [rest.beside]; rfl, fun m => ?_, fun sound => rest.sound ?_⟩
  · -- Either this step took the entry away or one of the later ones, further up.
    rcases rest.entries m with same | ⟨there, gone, inside, outer, part⟩
    · rw [same, at?_erase inner]
      split
      next here => exact .inr ⟨here ▸ entry, rfl, here ▸ below, here ▸ other,
        here ▸ List.prefix_rfl⟩
      next => exact .inl rfl
    · rw [at?_erase inner] at there
      split at there
      next => exact nomatch there
      next =>
        refine .inr ⟨there, gone, inside, outer, part.trans ?_⟩
        rw [longer]
        exact List.prefix_append ..
  · refine sound.erase inner fun name => ?_
    exact empty _ (List.prefix_append ..) (by simp)

/-! ### Writing -/

theorem entry_of_slot (taken : s.slot? p = .ok (some l)) : s.entryOf? p = .ok (s.tree.at? l) := by
  rw [entryOf?, follow_slot taken]
  cases entry : s.tree.at? l with
  | none => rfl
  | some e => simp [entry]

/-- Moving new contents to their place puts a file there, with the mode of the one before, or
fails. -/
theorem replace_cases (temporary : Location) (directory p : Path) (s : Site) {bytes : Bytes}
    {fresh : Nat} (written : s.tree.at? temporary = some (.file bytes fresh)) :
    (∃ l mode, s.slot? p = .ok (some l) ∧
      (s.tree.at? l = none ∧ mode = fresh ∨ ∃ old, s.tree.at? l = some (.file old mode)) ∧
      replace temporary directory p s =
        (.ok (), (s.erase temporary).insert l (.file bytes mode))) ∨
    ∃ f, replace temporary directory p s = (.error (.fault f), s) := by
  -- Two questions are asked before anything moves, and the second has to name the same entry.
  unfold replace change
  simp only [bind, Except.bind]
  cases looked : s.entryOf? p with
  | error f => exact .inr ⟨f, rfl⟩
  | ok old =>
    simp only
    cases taken : s.slot? p with
    | error o => exact .inr ⟨_, rfl⟩
    | ok slot =>
      cases slot with
      | none => exact .inr ⟨_, rfl⟩
      | some l =>
        have same := (entry_of_slot taken).symm.trans looked
        cases same
        simp only [written]
        cases entry : s.tree.at? l with
        | none => exact .inl ⟨l, fresh, rfl, .inl ⟨entry, rfl⟩, rfl⟩
        | some e =>
          cases e with
          | directory => exact .inr ⟨_, rfl⟩
          | file old mode => exact .inl ⟨l, mode, rfl, .inr ⟨old, entry⟩, rfl⟩

theorem freeLocation_eq_some {directory temporary : Location} {name : Text}
    (found : freeLocation? s directory name = some temporary) :
    s.tree.at? temporary = none ∧ temporary ≠ [] := by
  unfold freeLocation? at found
  have unused := List.find?_some (p := fun l => decide (s.tree.at? l = none)) found
  obtain ⟨n, _, rfl⟩ := List.mem_map.mp (List.mem_of_find?_eq_some found)
  exact ⟨of_decide_eq_true unused, by simp⟩

end Action

namespace Site

/-- The mode that a file has which is written at a location. -/
def modeAt (s : Site) (l : Location) : Nat :=
  match s.tree.at? l with
  | some (.file _ mode) => mode
  | _ => Action.newFileMode

/-- A file was written, with the directories above it, and nothing else happened. -/
structure Writes (s s' : Site) (p : Path) (bytes : Bytes) : Prop where
  beside : s' = { s with tree := s'.tree }
  inner : s.location p ≠ []
  short : ∀ name ∈ Fault.temporaryName p.name :: p.names, nameSize name ≤ maxNameSize
  file : s'.entryAt p = some (.file bytes (s.modeAt (s.location p)))
  free : s.entryAt p ≠ some .directory
  others : ∀ m ≠ s.location p, s'.tree.at? m = s.tree.at? m ∨ (s.tree.at? m = none ∧
    s'.tree.at? m = some .directory ∧ ∃ k, m = Location.walk (s.start p) (p.parent.names.take k))
  sound : s.tree.Sound → s'.tree.Sound

theorem Writes.written {s s' : Site} {p : Path} {bytes : Bytes} (h : Writes s s' p bytes) :
    s'.tree.at? (s.location p) = some (.file bytes (s.modeAt (s.location p))) := by
  have file := h.file
  rwa [entryAt, location_of_beside h.beside] at file

theorem Writes.opens {s s' : Site} {p : Path} {bytes : Bytes} (h : Writes s s' p bytes) :
    s.tree.Opens s'.tree := by
  intro m open_
  have other : m ≠ s.location p := by
    rintro rfl
    exact h.free open_
  rcases h.others m other with same | ⟨absent, _⟩
  · rw [same, open_]
  · cases absent.symm.trans open_

theorem Grows.congr {s s' s'' : Site} {p : Path} (h : Grows s s' p)
    (beside : s'' = { s' with tree := s''.tree })
    (same : ∀ m, s''.tree.at? m = s'.tree.at? m) : Grows s s'' p where
  beside := by rw [beside, h.beside]
  entries m := by
    rw [same]
    refine (h.entries m).imp_right fun ⟨absent, made, k, way⟩ => ⟨absent, made, k, ?_⟩
    exact Tree.Opens.follow (fun m => by rw [same]; exact id) way fun _ => by simp [same, made]
  sound sound l name := by
    rw [same, same]
    exact h.sound sound l name

end Site

namespace Action

open Site

variable {s s' : Site} {p : Path} {l : Location}

/-- Contents that were written beside a file and moved to its place are written. -/
theorem writes_of_moved {bytes : Bytes} {mode : Nat} {temporary : Location}
    (grows : Grows s s' p.parent) (short : nameSize (Fault.temporaryName p.name) ≤ maxNameSize)
    (unused : s'.tree.at? temporary = none) (deep : temporary ≠ [])
    (taken : (s'.insert temporary (.file bytes newFileMode)).slot? p = .ok (some l))
    (before : (s'.insert temporary (.file bytes newFileMode)).tree.at? l = none ∧
        mode = newFileMode ∨
      ∃ old, (s'.insert temporary (.file bytes newFileMode)).tree.at? l = some (.file old mode)) :
    Writes s (((s'.insert temporary (.file bytes newFileMode)).erase temporary).insert l
      (.file bytes mode)) p bytes := by
  obtain ⟨place, inner, parent, _⟩ := slot_eq_some taken
  have place : l = s.location p := place.trans (location_of_beside grows.beside p)
  rw [at?_insert deep] at before parent
  have parent : s'.tree.at? l.dropLast = some .directory := by
    split at parent
    · exact nomatch parent
    · exact parent
  have before : s'.tree.at? l = none ∧ mode = newFileMode ∨
      ∃ old, s'.tree.at? l = some (.file old mode) := by
    split at before
    next here =>
      rcases before with ⟨absent, _⟩ | ⟨_, entry⟩
      · exact nomatch absent
      · exact .inl ⟨here ▸ unused, (Entry.file.inj (Option.some.inj entry)).2.symm⟩
    next => exact before
  -- A directory is never replaced, so making the directories above has left the place as it was.
  have leaf : s'.tree.at? l ≠ some .directory := by
    rcases before with ⟨absent, _⟩ | ⟨_, entry⟩
    · rw [absent]
      nofun
    · rw [entry]
      nofun
  have same : s'.tree.at? l = s.tree.at? l :=
    (grows.entries l).resolve_right fun ⟨_, made, _⟩ => leaf made
  have mode_eq : s.modeAt l = mode := by
    rw [modeAt, ← same]
    rcases before with ⟨absent, rfl⟩ | ⟨_, entry⟩
    · rw [absent]
    · rw [entry]
  have entries (m : Location) : (((s'.insert temporary (.file bytes newFileMode)).erase
      temporary).insert l (.file bytes mode)).tree.at? m =
        if m = l then some (.file bytes mode) else s'.tree.at? m := by
    rw [at?_insert inner, at?_erase deep, at?_insert deep]
    grind
  subst place
  refine ⟨by rw [grows.beside]; rfl, inner,
    List.forall_mem_cons.mpr ⟨short, short_of_slot taken⟩, ?_,
    fun made => leaf (same.trans made), fun m other => ?_, fun sound => ?_⟩
  · rw [mode_eq]
    exact (entries _).trans (if_pos (location_of_beside grows.beside p))
  · rw [entries, if_neg other]
    refine (grows.entries m).imp_right fun ⟨absent, made, k, way⟩ => ⟨absent, made, k, ?_⟩
    exact Tree.eq_walk_of_follow way
  · have kept : Tree.Sound (s'.tree.insert (s.location p) (.file bytes mode)) :=
      (grows.sound sound).insert parent inner fun made => absurd made leaf
    intro m name entry
    have := kept m name
    rw [Tree.at?_insert inner, Tree.at?_insert inner] at this
    rw [entries] at entry ⊢
    exact this entry

/-- The path of a file that was moved to its place leads to it. -/
theorem locate_of_moved {bytes : Bytes} {mode : Nat} {temporary : Location}
    (grows : Grows s s' p.parent) (deep : temporary ≠ [])
    (taken : (s'.insert temporary (.file bytes newFileMode)).slot? p = .ok (some l))
    (before : (s'.insert temporary (.file bytes newFileMode)).tree.at? l = none ∧
        mode = newFileMode ∨
      ∃ old, (s'.insert temporary (.file bytes newFileMode)).tree.at? l = some (.file old mode)) :
    (((s'.insert temporary (.file bytes newFileMode)).erase temporary).insert l
      (.file bytes mode)).locate p = .ok (s.location p) := by
  obtain ⟨place, inner, _⟩ := slot_eq_some taken
  have place : l = s.location p := place.trans (location_of_beside grows.beside p)
  -- Neither the new file nor the one before it is a directory, so all directories stay.
  have opens : (s'.insert temporary (.file bytes newFileMode)).tree.Opens
      (((s'.insert temporary (.file bytes newFileMode)).erase temporary).insert l
        (.file bytes mode)).tree := by
    intro m open_
    have differ : m ≠ l := by
      rintro rfl
      rcases before with ⟨absent, _⟩ | ⟨old, file⟩
      · cases open_.symm.trans absent
      · cases open_.symm.trans file
    have away : m ≠ temporary := by
      rintro rfl
      rw [at?_insert deep, if_pos rfl] at open_
      cases open_
    rw [at?_insert inner, if_neg differ, at?_erase deep, if_neg away]
    exact open_
  have found := follow_slot (slot_of_opens opens rfl taken)
  rw [at?_insert inner, if_pos rfl, if_neg (by nofun)] at found
  rw [found, place]

/-- New contents are put in their place, or something is refused and they stay where they are. -/
theorem refused_replace_cases (r : Refusals) (temporary : Location) (directory p : Path) (s : Site)
    {bytes : Bytes} (written : s.tree.at? temporary = some (.file (r.written bytes) newFileMode)) :
    (∃ l mode, s.slot? p = .ok (some l) ∧ r.written bytes = bytes ∧
      (s.tree.at? l = none ∧ mode = newFileMode ∨ ∃ old, s.tree.at? l = some (.file old mode)) ∧
      r.replace temporary directory p s =
        (.ok (), (s.erase temporary).insert l (.file bytes mode))) ∨
    ∃ f, r.replace temporary directory p s = (.error (.fault f), s) := by
  unfold Refusals.replace
  -- Only a write of the whole contents can be put in place.
  rcases whole : r.contents with _ | ⟨n, f⟩
  · have all : r.written bytes = bytes := by
      unfold Refusals.written
      rw [whole]
    rw [all] at written
    simp only
    rcases r.placing with _ | f
    · rcases replace_cases temporary directory p s written with ⟨l, mode, taken, before, moved⟩ | stuck
      · exact .inl ⟨l, mode, taken, all, before, moved⟩
      · exact .inr stuck
    · exact .inr ⟨f, rfl⟩
  · exact .inr ⟨f, rfl⟩

/-- Writing a file writes it in full, and then its path leads to it, or does no more than to make the
directories above it. -/
theorem refused_writeBytes_cases (r : Refusals) (p : Path) (bytes : Bytes) (s : Site) :
    (∃ s', r.writeBytes p bytes s = (.ok (), s') ∧ Writes s s' p bytes ∧
      s'.locate p = .ok (s.location p)) ∨
    ∃ f s', r.writeBytes p bytes s = (.error (.fault f), s') ∧ Grows s s' p.parent ∧
      ∀ m, s'.tree.at? m = (r.makeDirectories p.parent s).2.tree.at? m := by
  unfold Refusals.writeBytes
  rw [bind_apply]
  obtain ⟨grows, faults, leads⟩ := makes_refused r p.parent.names.length p.parent s
  change Grows s (r.makeDirectories p.parent s).2 p.parent at grows
  change FaultOnly (r.makeDirectories p.parent s).1 at faults
  rcases run : r.makeDirectories p.parent s with ⟨e | ⟨⟩, s₁⟩
  · rw [run] at grows faults
    obtain ⟨f, rfl⟩ := faults e rfl
    exact .inr ⟨f, s₁, rfl, grows, fun _ => rfl⟩
  rw [run] at grows
  simp only
  rw [bind_apply, get_apply]
  simp only
  by_cases long : nameSize (Fault.temporaryName p.name) > maxNameSize
  · rw [if_pos long]
    exact .inr ⟨_, s₁, rfl, grows, fun _ => rfl⟩
  rw [if_neg long]
  rcases r.temporary with _ | f
  swap
  · exact .inr ⟨f, s₁, rfl, grows, fun _ => rfl⟩
  simp only
  rw [bind_apply, get_apply]
  simp only
  rcases found : freeLocation? s₁ (p.parent.absolute s₁.here).names p.name with _ | temporary
  · exact .inr ⟨_, s₁, rfl, grows, fun _ => rfl⟩
  obtain ⟨unused, deep⟩ := freeLocation_eq_some found
  have written : (s₁.insert temporary (.file (r.written bytes) newFileMode)).tree.at? temporary =
      some (.file (r.written bytes) newFileMode) := by rw [at?_insert deep, if_pos rfl]
  simp only
  rw [bind_apply, modify_apply]
  simp only
  rw [bind_apply, attempt_apply]
  simp only
  rcases refused_replace_cases r temporary (p.parent.absolute s₁.here) p _ written with
    ⟨l, mode, taken, whole, before, moved⟩ | ⟨f, stuck⟩
  · rw [moved]
    rw [whole] at taken before ⊢
    have writes := writes_of_moved grows (Nat.le_of_not_lt long) unused deep taken before
    refine .inl ⟨_, rfl, writes, ?_⟩
    exact locate_of_moved grows deep taken before
  · rw [stuck]
    -- What was written beside the file is cleared away, as its place was free before.
    have same (m : Location) : ((s₁.insert temporary (.file (r.written bytes) newFileMode)).erase
        temporary).tree.at? m = s₁.tree.at? m := by
      rw [at?_erase deep, at?_insert deep]
      split
      next here => rw [here, unused]
      next other => rfl
    exact .inr ⟨f, _, rfl, grows.congr rfl same, same⟩

theorem writeBytes_cases (p : Path) (bytes : Bytes) (s : Site) :
    (∃ s', writeBytes p bytes s = (.ok (), s') ∧ Writes s s' p bytes) ∨
      ∃ f s', writeBytes p bytes s = (.error (.fault f), s') ∧ Grows s s' p.parent ∧
        ∀ m, s'.tree.at? m = (makeDirectories p.parent s).2.tree.at? m := by
  rw [← Refusals.writeBytes_nothing, ← Refusals.makeDirectories_nothing]
  rcases refused_writeBytes_cases .nothing p bytes s with ⟨s', run, writes, _⟩ | stuck
  · exact .inl ⟨s', run, writes⟩
  · exact .inr stuck

theorem writes_of_writeBytes {bytes : Bytes} (run : writeBytes p bytes s = (.ok (), s')) :
    Writes s s' p bytes := by
  rcases writeBytes_cases p bytes s with ⟨_, run', writes⟩ | ⟨f, _, stuck, _⟩
  · cases run'.symm.trans run
    exact writes
  · cases stuck.symm.trans run

end Action

end Layering
