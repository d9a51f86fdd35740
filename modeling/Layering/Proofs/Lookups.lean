import Layering.Proofs.ExactPatches

/-!
# Looking things up again

What a path finds after others have worked on the tree. A path that leads straight on over names of a
proper size finds exactly what stands at its location, and whatever comes to the tree is found there
too. So the module of a directory is the same as before, or one that is new on the way.
-/

namespace Layering

namespace Site

variable {s s' : Site} {p : Path}

/-- A path that leads straight on from a directory, over names that are not too long. -/
def Direct (s : Site) (p : Path) : Prop :=
  ∃ base rest, s.Way p base rest ∧ ∀ name ∈ rest, nameSize name ≤ maxNameSize

theorem direct_of_forward (housed : s.Housed) (forward : upName ∉ p.names)
    (short : ∀ name ∈ p.names, nameSize name ≤ maxNameSize) : s.Direct p :=
  ⟨_, _, way_of_forward housed forward, short⟩

theorem direct_of_leads (leads : s.LeadsToDirectory p) : s.Direct p :=
  ⟨s.location p, [], ⟨⟨p.names, (List.append_nil _).symm, leads.1⟩, leads.2, List.not_mem_nil⟩, nofun⟩

theorem direct_of_exists (sound : s.tree.Sound) (housed : s.Housed)
    (there : s.exists? p = .ok true) : s.Direct p := by
  obtain ⟨base, rest, way⟩ := way_of_firm housed (firm_of_exists sound there)
  refine ⟨base, rest, way, fun name member => ?_⟩
  obtain ⟨front, names, _⟩ := way.names
  exact Tree.short_of_follow (locate_of_exists there).1 name
    (names ▸ List.mem_append_right _ member)

namespace Direct

theorem locate_ne_tooLong (direct : s.Direct p) : s.locate p ≠ .error .nameTooLong := by
  obtain ⟨base, rest, way, short⟩ := direct
  rw [way.locate]
  exact Tree.follow_ne_tooLong short

theorem entryOf? (direct : s.Direct p) (sound : s.tree.Sound) : s.entryOf? p = .ok (s.entryAt p) := by
  rcases s.entryOf?_cases p with ⟨_, asked⟩ | ⟨o, stuck, other, asked⟩ | ⟨long, _⟩
  · exact asked
  · obtain ⟨base, rest, way, _⟩ := direct
    rw [asked, way.firm.entryAt_of_error sound stuck other]
  · exact absurd long direct.locate_ne_tooLong

theorem exists? (direct : s.Direct p) (sound : s.tree.Sound) :
    s.exists? p = .ok (s.entryAt p).isSome := by
  rw [Site.exists?, direct.entryOf? sound]
  rfl

theorem isDirectory? (direct : s.Direct p) (sound : s.tree.Sound) :
    s.isDirectory? p = .ok (decide (s.entryAt p = some .directory)) := by
  rw [Site.isDirectory?, direct.entryOf? sound]
  rfl

theorem locate (direct : s.Direct p) (sound : s.tree.Sound) (there : s.entryAt p ≠ none) :
    s.locate p = .ok (s.location p) := by
  have short := direct.locate_ne_tooLong
  obtain ⟨base, rest, way, _⟩ := direct
  exact way.locate_of_there sound there short

theorem read (direct : s.Direct p) (sound : s.tree.Sound) {bytes : Bytes} {mode : Nat}
    (entry : s.entryAt p = some (.file bytes mode)) : s.read p = .ok (bytes, mode) := by
  rw [read_eq_ok, direct.locate sound (by simp [entry])]
  exact ⟨rfl, entry⟩

theorem parent (direct : s.Direct p) : s.Direct p.parent := by
  obtain ⟨base, rest, way, short⟩ := direct
  by_cases inner : rest = []
  · subst inner
    obtain ⟨front, names, first⟩ := way.names
    rw [List.append_nil] at names
    rcases List.eq_nil_or_concat front with rfl | ⟨before, name, rfl⟩
    · refine ⟨base, [], ⟨⟨[], ?_, first⟩, way.directory, List.not_mem_nil⟩, nofun⟩
      rw [Path.parent, names]
      rfl
    · rw [List.concat_eq_append] at names first
      rw [Tree.follow_append] at first
      cases above : s.tree.follow (s.start p) before with
      | error o =>
        rw [above] at first
        cases first
      | ok l =>
        rw [above] at first
        refine ⟨l, [], ⟨⟨before, ?_, above⟩, Tree.directory_of_follow first (by simp),
          List.not_mem_nil⟩, nofun⟩
        rw [Path.parent, names, List.dropLast_concat, List.append_nil]
  · exact ⟨base, _, way.parent inner, fun name member => short name (List.dropLast_subset _ member)⟩

theorem child (direct : s.Direct p) {name : Text} (other : name ≠ upName)
    (short : nameSize name ≤ maxNameSize) : s.Direct (p.child name) := by
  obtain ⟨base, rest, way, short'⟩ := direct
  refine ⟨base, rest ++ [name], way.append (by simpa using Ne.symm other), fun name' member => ?_⟩
  rcases List.mem_append.mp member with before | last
  · exact short' name' before
  · rw [List.mem_singleton.mp last]
    exact short

theorem location_child (direct : s.Direct p) {name : Text} (other : name ≠ upName) :
    s.location (p.child name) = s.location p ++ [name] := by
  obtain ⟨base, rest, way, _⟩ := direct
  have forward : upName ∉ [name] := by simpa using Ne.symm other
  have way' := way.append forward
  rw [way.location, List.append_assoc]
  exact way'.location

theorem of_opens (direct : s.Direct p) (opens : s.tree.Opens s'.tree)
    (place : s'.workingDirectory = s.workingDirectory) : s'.Direct p := by
  obtain ⟨base, rest, way, short⟩ := direct
  exact ⟨base, rest, way.of_opens opens place, short⟩

end Direct

/-- A tree in which everything stays what it is, a directory or a file, and more may be added. -/
structure Extends (s s' : Site) : Prop where
  place : s'.workingDirectory = s.workingDirectory
  sound : s'.tree.Sound
  opens : s.tree.Opens s'.tree
  files : ∀ m bytes mode, s.tree.at? m = some (.file bytes mode) →
    ∃ bytes mode, s'.tree.at? m = some (.file bytes mode)

theorem Pending.extends {due : Location → Prop} (pending : s.Pending s' due) : s.Extends s' where
  place := pending.place
  sound := pending.sound
  opens := pending.tree.opens
  files m bytes mode entry := by
    rcases pending.tree.kept m _ entry with same | ⟨_, _, new, mode', _, file⟩
    · exact ⟨_, _, same⟩
    · exact ⟨_, _, file⟩

namespace Extends

variable (grown : s.Extends s')
include grown

theorem there {m : Location} (entry : s.tree.at? m ≠ none) : s'.tree.at? m ≠ none := by
  obtain ⟨e, entry⟩ := Option.ne_none_iff_exists'.mp entry
  cases e with
  | directory => simp [grown.opens m entry]
  | file bytes mode =>
    obtain ⟨_, _, file⟩ := grown.files m bytes mode entry
    simp [file]

theorem isDirectory_iff {m : Location} (entry : s.tree.at? m ≠ none) :
    s'.tree.at? m = some .directory ↔ s.tree.at? m = some .directory := by
  obtain ⟨e, entry⟩ := Option.ne_none_iff_exists'.mp entry
  cases e with
  | directory => simp [entry, grown.opens m entry]
  | file bytes mode =>
    obtain ⟨_, _, file⟩ := grown.files m bytes mode entry
    simp [file, entry]

theorem location (p : Path) : s'.location p = s.location p :=
  location_of_workingDirectory grown.place p

theorem resolve (p : Path) : s'.resolve p = s.resolve p :=
  resolve_of_workingDirectory grown.place p

theorem housed (housed : s.Housed) : s'.Housed := by
  rw [Housed, grown.place]
  exact grown.opens _ housed

theorem exists_of_exists (there : s.exists? p = .ok true) : s'.exists? p = .ok true := by
  refine exists_of_opens grown.opens (start_of_workingDirectory grown.place p) there ?_
  exact grown.there (locate_of_exists there).2

/-- A direct path finds as much as before, unless there is something new at its location. -/
theorem exists_eq (sound : s.tree.Sound) (direct : s.Direct p)
    (old : s.entryAt p = none → s'.tree.at? (s.location p) = none) :
    s'.exists? p = s.exists? p := by
  rw [(direct.of_opens grown.opens grown.place).exists? grown.sound, direct.exists? sound,
    entryAt, grown.location]
  refine congrArg Except.ok (Bool.eq_iff_iff.mpr ?_)
  rw [Option.isSome_iff_ne_none, Option.isSome_iff_ne_none]
  exact ⟨fun there absent => there (old absent), grown.there⟩

theorem isDirectory_eq (sound : s.tree.Sound) (direct : s.Direct p)
    (old : s.entryAt p = none → s'.tree.at? (s.location p) ≠ some .directory) :
    s'.isDirectory? p = s.isDirectory? p := by
  rw [(direct.of_opens grown.opens grown.place).isDirectory? grown.sound,
    direct.isDirectory? sound, entryAt, grown.location]
  refine congrArg Except.ok (decide_eq_decide.mpr ?_)
  by_cases absent : s.entryAt p = none
  · simp [old absent, absent]
  · exact grown.isDirectory_iff absent

end Extends

end Site

namespace RepairContext

open Site

variable {c : RepairContext} {s s' : Site} {directory root : Path}

theorem descriptorName_ne_up : descriptorName ≠ upName := by decide

theorem descriptorName_short : nameSize descriptorName ≤ maxNameSize := by decide

/-- The module above a directory is found again, unless a directory on the way has become a module. -/
theorem moduleAbove_extends (grown : s.Extends s') (sound : s.tree.Sound) {n : Nat}
    (direct : s.Direct directory) (found : c.moduleAbove s directory n = .ok root) :
    ∃ root', c.moduleAbove s' directory n = .ok root' ∧ (root' = root ∨
      s.Direct root' ∧ s.tree.at? (s.location root' ++ [descriptorName]) = none ∧
        s'.tree.at? (s.location root' ++ [descriptorName]) ≠ none) := by
  induction n generalizing directory with
  | zero => exact ⟨_, rfl, .inl (Except.ok.inj found)⟩
  | succ n ih =>
    have direct' := direct.of_opens grown.opens grown.place
    have inside := direct.child descriptorName_ne_up descriptorName_short
    have inside' := direct'.child descriptorName_ne_up descriptorName_short
    have there := inside.exists? sound
    have there' := inside'.exists? grown.sound
    rw [entryAt, direct.location_child descriptorName_ne_up] at there
    rw [entryAt, direct'.location_child descriptorName_ne_up, grown.location] at there'
    unfold moduleAbove at found ⊢
    rw [there] at found
    rw [there', grown.resolve, grown.resolve]
    simp only [bind, Except.bind] at found ⊢
    -- The search stops at a descriptor that was there; a new one may stop it earlier.
    by_cases old : s.tree.at? (s.location directory ++ [descriptorName]) = none
    · by_cases new : s'.tree.at? (s.location directory ++ [descriptorName]) = none
      · rw [old] at found
        rw [new]
        simp only [Option.isSome_none, Bool.false_eq_true, if_false] at found ⊢
        split at found
        next stop =>
          rw [if_pos stop]
          exact ⟨_, rfl, .inl (Except.ok.inj found)⟩
        next further =>
          rw [if_neg further]
          exact ih direct.parent found
      · rw [if_pos (Option.isSome_iff_ne_none.mpr new)]
        exact ⟨_, rfl, .inr ⟨direct, old, new⟩⟩
    · rw [if_pos (Option.isSome_iff_ne_none.mpr old)] at found
      rw [if_pos (Option.isSome_iff_ne_none.mpr (grown.there old))]
      exact ⟨_, rfl, .inl (Except.ok.inj found)⟩

/-- A place is a directory, or below the root of the project. -/
def Inside (c : RepairContext) (s : Site) (p : Path) : Prop :=
  s.isDirectory? p = .ok true ∨ s.resolve c.projectRoot ∈ (s.resolve p).ancestors

/-- The module of a violation is found again, unless a directory on the way has become a module. -/
theorem moduleOf_extends {v : Violation} (grown : s.Extends s') (sound : s.tree.Sound)
    (housed : s.Housed) (direct : s.Direct (Path.ofText v.location))
    (inside : c.Inside s (Path.ofText v.location)) (found : c.moduleOf s v = .ok root) :
    ∃ root', c.moduleOf s' v = .ok root' ∧ (root' = root ∨
      s.Direct root' ∧ s.tree.at? (s.location root' ++ [descriptorName]) = none ∧
        s'.tree.at? (s.location root' ++ [descriptorName]) ≠ none) := by
  have direct' := direct.of_opens grown.opens grown.place
  have is := direct.isDirectory? sound
  have is' := direct'.isDirectory? grown.sound
  rw [moduleOf_eq_above] at found ⊢
  simp only at found ⊢
  set place := Path.ofText v.location
  rw [entryAt, grown.location] at is'
  rw [entryAt] at is
  rw [is] at found
  rw [is']
  simp only [bind, Except.bind, decide_eq_true_eq] at found ⊢
  by_cases old : s.tree.at? (s.location place) = some .directory
  · rw [if_pos old] at found
    rw [if_pos (grown.opens _ old)]
    exact moduleAbove_extends grown sound direct found
  rw [if_neg old] at found
  by_cases new : s'.tree.at? (s.location place) = some .directory
  swap
  · rw [if_neg new]
    exact moduleAbove_extends grown sound direct.parent found
  -- The place has become a directory, from which the search now starts.
  rw [if_pos new, moduleAbove]
  have above : s.resolve c.projectRoot ∈ (s.resolve place).ancestors := by
    refine inside.resolve_left fun there => old ?_
    simpa [is] using there
  have far : s.resolve place ≠ s.resolve c.projectRoot := by
    intro same
    exact (Action.mem_ancestors_iff.mp above).2.2 (by rw [same])
  have length : place.names.length = place.parent.names.length + 1 := by
    have some : place.names ≠ [] := by
      intro none
      apply old
      rw [Site.location, none]
      exact housed.start place
    rw [Path.parent, List.length_dropLast]
    have := List.length_pos_iff.mpr some
    omega
  have there' := (direct'.child descriptorName_ne_up descriptorName_short).exists? grown.sound
  rw [entryAt, direct'.location_child descriptorName_ne_up, grown.location] at there'
  have absent : s.tree.at? (s.location place ++ [descriptorName]) = none :=
    sound.below old (List.prefix_append ..) (by simp)
  rw [there', grown.resolve, grown.resolve]
  simp only [bind, Except.bind]
  by_cases made : s'.tree.at? (s.location place ++ [descriptorName]) = none
  · rw [made, List.contains_iff_mem.mpr above, length]
    simp only [Option.isSome_none, Bool.false_eq_true, if_false, far, decide_false, Bool.not_true,
      Bool.or_self]
    exact moduleAbove_extends grown sound direct.parent found
  · rw [if_pos (Option.isSome_iff_ne_none.mpr made)]
    exact ⟨_, rfl, .inr ⟨direct, absent, made⟩⟩

end RepairContext

end Layering
