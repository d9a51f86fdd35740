import Layering.Proofs.Effects

/-!
# Ways

A path leads to a directory that is there, and from there straight on over names that may be missing.
What is made on its way ends at the path or before a name that is too long, and what stops a search
upwards is the nearest entry above.
-/

namespace Layering

namespace Site

variable {s s' : Site} {p : Path} {base : Location} {rest : List Text}

/-- The working directory is there. -/
def Housed (s : Site) : Prop := s.tree.at? s.workingDirectory = some .directory

theorem Housed.start (housed : s.Housed) (p : Path) : s.tree.at? (s.start p) = some .directory := by
  unfold Site.start
  split
  · rfl
  · exact housed

/-- A path leads to a directory and from there on over the given names, none of which leads up. -/
structure Way (s : Site) (p : Path) (base : Location) (rest : List Text) : Prop where
  names : ∃ front, p.names = front ++ rest ∧ s.tree.follow (s.start p) front = .ok base
  directory : s.tree.at? base = some .directory
  forward : upName ∉ rest

theorem way_of_firm (housed : s.Housed) (firm : s.Firm p) : ∃ base rest, s.Way p base rest := by
  obtain ⟨front, back, l, names, forward, first, open_⟩ := firm
  refine ⟨l, back, ⟨front, names, first⟩, ?_, forward⟩
  by_cases none : front = []
  · rw [none] at first
    exact Except.ok.inj first ▸ housed.start p
  · exact open_ none

theorem way_of_forward (housed : s.Housed) (forward : upName ∉ p.names) :
    s.Way p (s.start p) p.names :=
  ⟨⟨[], rfl, rfl⟩, housed.start p, forward⟩

theorem way_of_absolute (absolute : p.isAbsolute = true) (forward : upName ∉ p.names) :
    s.Way p [] p.names := by
  refine ⟨⟨[], rfl, ?_⟩, rfl, forward⟩
  rw [start, if_pos absolute, Tree.follow]

theorem follow_prefix {front : List Text} (names : p.names = front ++ rest) {l : Location}
    (way : s.tree.follow (s.start p) front = .ok l) : s.locate p = s.tree.follow l rest := by
  rw [locate, names, Tree.follow_append, way]
  rfl

namespace Way

variable (way : s.Way p base rest)
include way

theorem firm : s.Firm p := by
  obtain ⟨front, names, first⟩ := way.names
  exact ⟨front, rest, base, names, way.forward, first, fun _ => way.directory⟩

theorem location : s.location p = base ++ rest := by
  obtain ⟨front, names, first⟩ := way.names
  rw [Site.location, names, Location.walk_append, ← Tree.eq_walk_of_follow first,
    Location.walk_eq_append way.forward]

theorem locate : s.locate p = s.tree.follow base rest := by
  obtain ⟨front, names, first⟩ := way.names
  exact follow_prefix names first

/-- The way goes on as long as no directory goes. -/
theorem of_opens (opens : s.tree.Opens s'.tree) (wd : s'.workingDirectory = s.workingDirectory) :
    s'.Way p base rest := by
  obtain ⟨front, names, first⟩ := way.names
  have open_ := opens base way.directory
  refine ⟨⟨front, names, ?_⟩, open_, way.forward⟩
  rw [start_of_workingDirectory wd]
  exact opens.follow first fun _ => by simp [open_]

theorem parent (inner : rest ≠ []) : s.Way p.parent base rest.dropLast := by
  obtain ⟨front, names, first⟩ := way.names
  refine ⟨⟨front, ?_, first⟩, way.directory, fun up => way.forward (List.dropLast_subset _ up)⟩
  rw [Path.parent, names, List.dropLast_append_of_ne_nil inner]

theorem append {more : List Text} (forward : upName ∉ more) :
    s.Way ⟨p.anchor, p.names ++ more⟩ base (rest ++ more) := by
  obtain ⟨front, names, first⟩ := way.names
  refine ⟨⟨front, ?_, first⟩, way.directory, List.not_mem_append way.forward forward⟩
  rw [names, List.append_assoc]

/-- What is no directory lies beyond one. -/
theorem inner (leaf : s.entryAt p ≠ some .directory) : rest ≠ [] := by
  rintro rfl
  apply leaf
  rw [entryAt, way.location, List.append_nil, way.directory]

/-- What is there is found, if no name is too long. -/
theorem locate_of_there (sound : s.tree.Sound) (there : s.entryAt p ≠ none)
    (short : s.locate p ≠ .error .nameTooLong) : s.locate p = .ok (s.location p) := by
  cases found : s.locate p with
  | ok l => rw [eq_location_of_locate found]
  | error o =>
    have other : o ≠ .nameTooLong := by
      rintro rfl
      exact short found
    exact absurd (way.firm.entryAt_of_error sound found other) there

theorem exists_of_there (sound : s.tree.Sound) (there : s.entryAt p ≠ none)
    (short : s.locate p ≠ .error .nameTooLong) : s.exists? p = .ok true := by
  rw [exists?, entryOf?_of_locate (way.locate_of_there sound there short)]
  exact congrArg Except.ok (Option.isSome_iff_ne_none.mpr there)

/-- The last name of a path beyond a directory. -/
theorem last (inner : rest ≠ []) : ∃ name, p.names.getLast? = some name ∧ name ≠ upName ∧
    s.location p = s.location p.parent ++ [name] := by
  obtain ⟨front, names, _⟩ := way.names
  refine ⟨rest.getLast inner, ?_, fun up => way.forward (up ▸ List.getLast_mem inner), ?_⟩
  · rw [names, List.getLast?_append_of_ne_nil _ inner, List.getLast?_eq_some_getLast inner]
  · rw [way.location, (way.parent inner).location, List.append_assoc,
      List.dropLast_append_getLast inner]

end Way

/-- The slot of a path of which the directory is found. -/
theorem slot_of_parent {name : Text} (way : s.locate p.parent = .ok (s.location p.parent))
    (open_ : s.entryAt p.parent = some .directory) (last : p.names.getLast? = some name)
    (other : name ≠ upName) : s.slot? p =
      if nameSize name > maxNameSize then .error .nameTooLong
      else .ok (some (s.location p.parent ++ [name])) := by
  have way' : s.tree.follow (s.start p) p.names.dropLast = .ok (s.location p.parent) := way
  unfold slot?
  rw [way', last]
  simp only [bind, Except.bind, Tree.isDirectory_iff.mpr open_, other]
  rfl

end Site

/-- The nearest entry at or above a location. -/
structure Tree.Nearest (tree : Tree) (stop l : Location) : Prop where
  above : stop <+: l
  there : tree.at? stop ≠ none
  between : ∀ m, stop <+: m → m ≠ stop → m <+: l → tree.at? m = none

namespace Site

variable {s : Site} {p stop : Path} {base : Location} {rest : List Text}

/-- What is absent lies below the nearest entry above it. -/
theorem nearest_of_parent (way : s.Way p base rest) (absent : s.entryAt p = none) {l : Location}
    (nearest : s.tree.Nearest l (s.location p.parent)) : s.tree.Nearest l (s.location p) := by
  obtain ⟨name, _, _, at_⟩ := way.last (way.inner (by simp [absent]))
  rw [at_]
  refine ⟨nearest.above.trans (List.prefix_append ..), nearest.there, ?_⟩
  intro m below other part
  rcases List.prefix_concat_iff.mp part with rfl | part
  · rw [← at_]
    exact absent
  · exact nearest.between m below other part

theorem nearest_of_up (sound : s.tree.Sound) {size : Nat} (length : p.names.length = size)
    (way : s.Way p base rest) (found : nearestAncestor.up s p size = .ok stop) :
    s.tree.Nearest (s.location stop) (s.location p) ∧ ∃ k, stop = ⟨p.anchor, p.names.take k⟩ := by
  induction size generalizing p rest with
  | zero =>
    cases found
    refine ⟨⟨List.prefix_rfl, ?_, fun m below other part => ?_⟩, 0, ?_⟩
    · have none : rest = [] := by
        obtain ⟨front, names, _⟩ := way.names
        rw [List.length_eq_zero_iff.mp length] at names
        exact (List.append_eq_nil_iff.mp names.symm).2
      rw [way.location, none, List.append_nil, way.directory]
      simp
    · exact absurd (part.eq_of_length_le below.length_le) other
    · rw [← length, List.take_length]
  | succ size ih =>
    -- What is absent has the nearest of its parent.
    unfold nearestAncestor.up at found
    cases there : s.exists? p with
    | error f => simp [there, bind, Except.bind] at found
    | ok is =>
      cases is with
      | true =>
        simp only [there, bind, Except.bind, if_true] at found
        cases found
        refine ⟨⟨List.prefix_rfl, (locate_of_exists there).2, fun m below other part => ?_⟩,
          size + 1, by rw [← length, List.take_length]⟩
        exact absurd (part.eq_of_length_le below.length_le) other
      | false =>
        simp only [there, bind, Except.bind, Bool.false_eq_true, if_false] at found
        have absent := way.firm.entryAt_of_not_exists sound there
        have length' : p.parent.names.length = size := by
          rw [Path.parent, List.length_dropLast, length]
          rfl
        obtain ⟨nearest, k, rfl⟩ :=
          ih length' (way.parent (way.inner (by simp [absent]))) found
        refine ⟨nearest_of_parent way absent nearest, min k (p.names.length - 1), ?_⟩
        rw [Path.parent, List.dropLast_eq_take, List.take_take]

/-- The search upwards from what is absent ends at the nearest entry above it. -/
theorem nearest_of_nearestAncestor (sound : s.tree.Sound) (way : s.Way p base rest)
    (absent : s.entryAt p = none) (found : s.nearestAncestor p = .ok stop) :
    s.tree.Nearest (s.location stop) (s.location p) ∧
      ∃ k, stop = ⟨p.anchor, p.names.take k⟩ := by
  obtain ⟨nearest, k, rfl⟩ :=
    nearest_of_up sound rfl (way.parent (way.inner (by simp [absent]))) found
  refine ⟨nearest_of_parent way absent nearest, min k (p.names.length - 1), ?_⟩
  rw [Path.parent, List.dropLast_eq_take, List.take_take]

end Site

namespace Action

open Site

variable {s s' : Site} {p : Path} {base m : Location} {rest : List Text}

theorem acceptDirectory_of_leads (leads : s.LeadsToDirectory p) (f : Fault) :
    makeDirectories.acceptDirectory p f s = (.ok (), s) := by
  unfold makeDirectories.acceptDirectory
  rw [bind_apply]
  simp only [askFault, ask, isDirectory_iff_leads.mpr leads, Except.mapError]
  rfl

/-- Making directories works, does nothing, or comes to a name that is too long. -/
def Reaches (s : Site) (p : Path) (ended : Except Failure Unit × Site) : Prop :=
  ended.1 = .ok () ∨ (∀ m, ended.2.tree.at? m = s.tree.at? m) ∨
    ended.2.locate p = .error .nameTooLong

theorem reaches_of_refused (depth : Nat) {f : Fault} (refused : s.withDirectory p = .error f)
    (other : ∀ q, f ≠ .notFound q) : Reaches s p (makeDirectories.up depth p s) := by
  rw [up_of_refused depth refused other]
  rcases acceptDirectory_cases p f s with ⟨run, _⟩ | ⟨f', run⟩
  · exact .inl (congrArg (·.1) run)
  · rw [run]
    exact .inr (.inl fun _ => rfl)

/-- Once the directory above is there, only a name that is too long can be in the way. -/
theorem reaches_again (sound : s.tree.Sound) (way : s.Way p base rest) (inner : rest ≠ [])
    (missing : s.locate p = .error .notFound) (grows : Grows s s' p)
    (above : s'.LeadsToDirectory p.parent) : Reaches s p (makeDirectories.up 0 p s') := by
  obtain ⟨name, last, other, at_⟩ := way.last inner
  have places := location_of_beside grows.beside
  have taken := slot_of_parent above.1 above.2 last other
  by_cases long : nameSize name > maxNameSize
  · rw [if_pos long] at taken
    rw [up_of_refused 0 (withDirectory_of_stuck taken) fun _ same => by cases same]
    have tooLong := locate_of_slot_error taken (by simp)
    rcases acceptDirectory_cases p (obstacle p .nameTooLong) s' with ⟨run, _⟩ | ⟨f, run⟩
    · exact .inl (congrArg (·.1) run)
    · rw [run]
      exact .inr (.inr tooLong)
  · rw [if_neg long, places, ← at_] at taken
    cases entry : s'.tree.at? (s.location p) with
    | none =>
      rw [up_of_made 0 (withDirectory_of_free taken entry)]
      exact .inl rfl
    | some e =>
      rw [up_of_refused 0 (withDirectory_of_there taken (by simp [entry])) fun _ same => by cases same]
      have found := follow_slot taken
      rw [entry, if_neg (by simp)] at found
      cases e with
      | directory =>
        have leads : s'.LeadsToDirectory p := by
          unfold LeadsToDirectory Site.entryAt
          rw [places]
          exact ⟨found, entry⟩
        exact .inl (congrArg (·.1) (acceptDirectory_of_leads leads _))
      | file bytes mode =>
        -- A file in the way was there before, and then the path was not missing.
        have old : s.tree.at? (s.location p) = some (.file bytes mode) := by
          rcases grows.entries (s.location p) with same | ⟨_, made, _⟩
          · rw [← same, entry]
          · cases entry.symm.trans made
        have there : s.entryAt p ≠ none := by simp [Site.entryAt, old]
        have found := way.locate_of_there sound there (by simp [missing])
        cases missing.symm.trans found

theorem reaches_up (sound : s.tree.Sound) (depth : Nat) (way : s.Way p base rest) :
    Reaches s p (makeDirectories.up depth p s) := by
  induction depth generalizing p rest with
  | zero =>
    rcases made : s.withDirectory p with f | s'
    · by_cases lacking : ∃ q, f = .notFound q
      · obtain ⟨q, rfl⟩ := lacking
        rw [up_zero_of_missing made]
        exact .inr (.inl fun _ => rfl)
      · exact reaches_of_refused 0 made (not_exists.mp lacking)
    · rw [up_of_made 0 made]
      exact .inl rfl
  | succ depth ih =>
    rcases made : s.withDirectory p with f | s'
    · by_cases lacking : ∃ q, f = .notFound q
      · obtain ⟨q, rfl⟩ := lacking
        have missing := locate_of_slot_error (withDirectory_notFound made) (by simp)
        have inner : rest ≠ [] := by
          rintro rfl
          cases way.locate.symm.trans missing
        rw [up_succ_of_missing depth made, bind_apply]
        have above := makes_up depth p.parent s
        -- What stops the making of the parent stops that of the directory.
        have reached := ih (way.parent inner)
        rcases run : makeDirectories.up depth p.parent s with ⟨e | ⟨⟩, s'⟩
        · rw [run] at reached
          rcases reached with ok | same | long
          · cases ok
          · exact .inr (.inl same)
          · exact .inr (.inr (locate_of_slot_error (slot_of_locate_error long) (by simp)))
        · rw [run] at above
          exact reaches_again sound way inner missing above.grows.of_parent (above.leads rfl)
      · exact reaches_of_refused (depth + 1) made (not_exists.mp lacking)
    · rw [up_of_made (depth + 1) made]
      exact .inl rfl

/-- A directory that was made and in which nothing was made is the last one on its way, or the name
after it is too long. -/
theorem tip_of_makeDirectories (sound : s.tree.Sound) (way : s.Way p base rest)
    (fresh : s.tree.at? m = none)
    (made : (makeDirectories p s).2.tree.at? m = some .directory)
    (leaf : ∀ name, (makeDirectories p s).2.tree.at? (m ++ [name]) = none) :
    m = s.location p ∨ ∃ name more, s.location p = m ++ name :: more ∧
      maxNameSize < nameSize name := by
  have makes := makes_makeDirectories p s
  have reached : Reaches s p (makeDirectories p s) := reaches_up sound p.names.length way
  generalize makeDirectories p s = ended at makes reached made leaf
  obtain ⟨result, s'⟩ := ended
  have grows := makes.grows
  have way' := way.of_opens grows.opens (by rw [grows.beside])
  have wd : s'.start p = s.start p := start_of_beside grows.beside p
  -- What was made lies beyond the directory where the way starts.
  obtain ⟨done, left, parts, found⟩ : ∃ done left, rest = done ++ left ∧
      s'.tree.follow base done = .ok m := by
    rcases grows.entries m with same | ⟨_, _, k, found⟩
    · cases fresh.symm.trans (same.symm.trans made)
    obtain ⟨front, names, first⟩ := way'.names
    rw [← wd, names, List.take_append, Tree.follow_append] at found
    by_cases inside : k ≤ front.length
    · rw [Nat.sub_eq_zero_of_le inside, List.take_zero] at found
      obtain ⟨front', names', first'⟩ := way.names
      obtain rfl : front = front' := List.append_cancel_right (names.symm.trans names')
      have there := Tree.at?_of_take first' (by simp [way.directory]) k
      cases part : s'.tree.follow (s'.start p) (front.take k) with
      | error o => rw [part] at found; cases found
      | ok l =>
        rw [part] at found
        cases found
        rw [Tree.eq_walk_of_follow part, wd] at fresh
        exact absurd fresh there
    · rw [List.take_of_length_le (by omega), first] at found
      exact ⟨rest.take (k - front.length), rest.drop (k - front.length), by simp, found⟩
  have forward : upName ∉ done := fun up => way.forward (parts ▸ List.mem_append_left _ up)
  have at_ : m = base ++ done := by
    rw [Tree.eq_walk_of_follow found, Location.walk_eq_append forward]
  rw [way.location, parts, ← List.append_assoc, ← at_]
  cases left with
  | nil => exact .inl (List.append_nil m).symm
  | cons name more =>
    refine .inr ⟨name, more, rfl, ?_⟩
    rcases reached with ok | same | long
    · -- The path is there, and so is what comes next on its way.
      have there := (makes.leads ok).2
      rw [Site.entryAt, way'.location, parts, ← List.append_assoc, ← at_, List.append_cons] at there
      cases more with
      | nil => rw [List.append_nil] at there; cases (leaf name).symm.trans there
      | cons next more =>
        have between := (grows.sound sound).above (l := m ++ [name]) (by rw [there]; simp)
          (List.prefix_append ..) (by simp)
        cases (leaf name).symm.trans between
    · cases fresh.symm.trans ((same m).symm.trans made)
    · have other : name ≠ upName := fun up => way.forward (by simp [parts, up])
      rw [way'.locate, parts, Tree.follow_append, found] at long
      by_contra short
      simp [Except.bind, Tree.follow, Tree.isDirectory_iff.mpr made, other, short, leaf name] at long

end Action

end Layering
