import Layering.Proofs.Restoring
import Layering.Proofs.Ways

/-!
# What is pending

Between a change and its end a tree differs from the one before at the places that are due, and in
directories that were made for them. Such a directory in which nothing stands is the last one on the
way to a place, or the next name on the way is too long. When nothing is due any more, the tree is as
before.
-/

namespace Layering

namespace Tree

variable {before tree tree' : Tree} {due due' : Location → Prop} {l m : Location}

/-- A location is the last one on the way to another, or the one before a name that is too long. -/
def EndsAbove (l m : Location) : Prop :=
  ∃ name more, l = m ++ name :: more ∧ (more = [] ∨ maxNameSize < nameSize name)

theorem EndsAbove.above (ends : EndsAbove l m) : m <+: l ∧ m ≠ l := by
  obtain ⟨name, more, rfl, _⟩ := ends
  exact ⟨List.prefix_append .., by simp⟩

/-- A tree is as before, but for files where they are due and directories on the way to them. -/
structure Pending (before tree : Tree) (due : Location → Prop) : Prop where
  kept : ∀ m e, before.at? m = some e → tree.at? m = some e ∨
    due m ∧ ∃ old new mode, e = .file old mode ∧ tree.at? m = some (.file new mode)
  files : ∀ m bytes mode, before.at? m = none → tree.at? m = some (.file bytes mode) → due m
  tips : ∀ m, before.at? m = none → tree.at? m = some .directory →
    (∀ name, tree.at? (m ++ [name]) = none) → ∃ l, due l ∧ EndsAbove l m

/-- Above an entry there is one in which no other stands. -/
theorem exists_leaf (there : tree.at? m ≠ none) :
    ∃ l, m <+: l ∧ tree.at? l ≠ none ∧ ∀ name, tree.at? (l ++ [name]) = none := by
  have bounded (l : Location) (entry : tree.at? l ≠ none) :
      l.length ≤ tree.keys.toFinset.sup List.length := by
    by_cases outer : l = []
    · simp [outer]
    · apply Finset.le_sup
      rw [List.mem_toFinset, Std.ExtTreeMap.mem_keys, Std.ExtTreeMap.mem_iff_isSome_getElem?,
        Option.isSome_iff_ne_none, ← at?_of_ne_nil outer]
      exact entry
  -- The induction is on how much longer a location can get.
  induction room : tree.keys.toFinset.sup List.length - m.length generalizing m with
  | zero =>
    refine ⟨m, List.prefix_rfl, there, fun name => ?_⟩
    by_contra entry
    have longer := bounded _ entry
    rw [List.length_append, List.length_singleton] at longer
    omega
  | succ room ih =>
    by_cases more : ∃ name, tree.at? (m ++ [name]) ≠ none
    · obtain ⟨name, entry⟩ := more
      obtain ⟨l, part, rest⟩ := ih entry (by rw [List.length_append, List.length_singleton]; omega)
      exact ⟨l, (List.prefix_append ..).trans part, rest⟩
    · refine ⟨m, List.prefix_rfl, there, fun name => ?_⟩
      by_contra entry
      exact more ⟨name, entry⟩

namespace Pending

theorem refl (before : Tree) (due : Location → Prop) : Pending before before due where
  kept _ _ entry := .inl entry
  files _ _ _ absent file := by cases absent.symm.trans file
  tips _ absent made := by cases absent.symm.trans made

theorem mono (h : Pending before tree due) (more : ∀ m, due m → due' m) :
    Pending before tree due' where
  kept m e entry := (h.kept m e entry).imp_right fun ⟨here, rest⟩ => ⟨more m here, rest⟩
  files m bytes mode absent file := more m (h.files m bytes mode absent file)
  tips m absent made leaf := by
    obtain ⟨l, here, ends⟩ := h.tips m absent made leaf
    exact ⟨l, more l here, ends⟩

theorem congr (h : Pending before tree due) (same : ∀ m, tree'.at? m = tree.at? m) :
    Pending before tree' due where
  kept m e entry := by
    rw [same]
    exact h.kept m e entry
  files m bytes mode absent := by
    rw [same]
    exact h.files m bytes mode absent
  tips m absent made leaf := by
    simp only [same] at made leaf
    exact h.tips m absent made leaf

theorem opens (h : Pending before tree due) : before.Opens tree := by
  intro m open_
  rcases h.kept m _ open_ with same | ⟨_, old, _, mode, file, _⟩
  · exact same
  · cases file

/-- What was there is still there. -/
theorem there (h : Pending before tree due) (entry : before.at? m ≠ none) :
    tree.at? m ≠ none := by
  obtain ⟨e, entry⟩ := Option.ne_none_iff_exists'.mp entry
  rcases h.kept m e entry with same | ⟨_, _, _, _, _, file⟩
  · simp [same]
  · simp [file]

/-- What is not due is as before, unless it is new. -/
theorem kept_of_not_due (h : Pending before tree due) (entry : before.at? m ≠ none)
    (other : ¬due m) : tree.at? m = before.at? m := by
  obtain ⟨e, entry⟩ := Option.ne_none_iff_exists'.mp entry
  rw [entry]
  exact (h.kept m e entry).resolve_right fun ⟨here, _⟩ => other here

/-- A new directory is on the way to a place that is due. -/
theorem leads_of_directory (h : Pending before tree due) (sound : before.Sound)
    (absent : before.at? m = none) (made : tree.at? m = some .directory) :
    ∃ l, due l ∧ m <+: l ∧ m ≠ l := by
  obtain ⟨tip, part, there, leaf⟩ := exists_leaf (show tree.at? m ≠ none by simp [made])
  have fresh : before.at? tip = none := by
    by_cases same : m = tip
    · rw [← same, absent]
    · exact sound.below (by simp [absent]) part same
  obtain ⟨e, last⟩ := Option.ne_none_iff_exists'.mp there
  cases e with
  | file bytes mode =>
    refine ⟨tip, h.files tip bytes mode fresh last, part, ?_⟩
    rintro rfl
    cases made.symm.trans last
  | directory =>
    obtain ⟨l, here, ends⟩ := h.tips tip fresh last leaf
    obtain ⟨above, other⟩ := ends.above
    refine ⟨l, here, part.trans above, ?_⟩
    rintro rfl
    exact other (above.eq_of_length_le part.length_le)

/-- A new entry is at a place that is due, or a directory on the way to one. -/
theorem leads (h : Pending before tree due) (sound : before.Sound) (absent : before.at? m = none)
    (entry : tree.at? m ≠ none) : due m ∨ ∃ l, due l ∧ m <+: l ∧ m ≠ l := by
  obtain ⟨e, entry⟩ := Option.ne_none_iff_exists'.mp entry
  cases e with
  | file bytes mode => exact .inl (h.files m bytes mode absent entry)
  | directory => exact .inr (h.leads_of_directory sound absent entry)

/-- What two changes one after the other leave pending. -/
theorem trans (h : Pending before tree due) (h' : Pending tree tree' due) :
    Pending before tree' due where
  kept m e entry := by
    rcases h.kept m e entry with same | ⟨here, old, new, mode, rfl, file⟩
    · exact h'.kept m e same
    · rcases h'.kept m _ file with same | ⟨_, _, newer, _, same, file'⟩
      · exact .inr ⟨here, old, new, mode, rfl, same⟩
      · cases same
        exact .inr ⟨here, old, newer, mode, rfl, file'⟩
  files m bytes mode absent file := by
    rcases entry : tree.at? m with _ | (_ | ⟨old, mode'⟩)
    · exact h'.files m bytes mode entry file
    · cases (h'.opens m entry).symm.trans file
    · exact h.files m old mode' absent entry
  tips m absent made leaf := by
    rcases entry : tree.at? m with _ | (_ | ⟨old, mode'⟩)
    · exact h'.tips m entry made leaf
    · refine h.tips m absent entry fun name => ?_
      by_contra there
      exact h'.there there (leaf name)
    · rcases h'.kept m _ entry with same | ⟨_, _, _, _, _, file⟩
      · cases same.symm.trans made
      · cases file.symm.trans made

/-- When nothing is due, the tree is as before. -/
theorem same (h : Pending before tree due) (sound : before.Sound) (settled : ∀ l, ¬due l)
    (m : Location) : tree.at? m = before.at? m := by
  by_cases was : before.at? m = none
  · by_contra changed
    rcases h.leads sound was (fun absent => changed (absent.trans was.symm)) with here | ⟨l, here, _⟩
    · exact settled m here
    · exact settled l here
  · exact h.kept_of_not_due was (settled m)

/-- A file at a place that is due, with the mode that it had, and directories on the way to it. -/
theorem put (h : Pending before tree due) (sound : tree'.Sound) (here : due l) {bytes : Bytes}
    {mode : Nat} (file : tree'.at? l = some (.file bytes mode))
    (fits : ∀ e, before.at? l = some e → ∃ old, e = .file old mode)
    (others : ∀ m ≠ l, tree'.at? m = tree.at? m ∨
      tree.at? m = none ∧ tree'.at? m = some .directory ∧ m <+: l) :
    Pending before tree' due where
  kept m e entry := by
    by_cases at_ : m = l
    · subst at_
      obtain ⟨old, rfl⟩ := fits e entry
      exact .inr ⟨here, old, bytes, mode, rfl, file⟩
    · rcases others m at_ with same | ⟨absent, _⟩
      · rw [same]
        exact h.kept m e entry
      · exact absurd absent (h.there (by simp [entry]))
  files m bytes' mode' absent file' := by
    by_cases at_ : m = l
    · exact at_ ▸ here
    · rcases others m at_ with same | ⟨_, made, _⟩
      · exact h.files m bytes' mode' absent (same ▸ file')
      · cases made.symm.trans file'
  tips m absent made leaf := by
    have at_ : m ≠ l := by
      rintro rfl
      cases made.symm.trans file
    rcases others m at_ with same | ⟨_, _, part⟩
    · refine h.tips m absent (same ▸ made) fun name => ?_
      by_cases next : m ++ [name] = l
      · rw [← next, leaf name] at file
        cases file
      · rcases others _ next with same' | ⟨absent', _⟩
        · rw [← same', leaf name]
        · exact absent'
    · -- The directory is on the way to the file, so that something stands in it.
      obtain ⟨rest, rfl⟩ := part
      cases rest with
      | nil => simp at at_
      | cons name more =>
        have next : tree'.at? (m ++ [name]) ≠ none := by
          by_cases last : more = []
          · rw [last] at file
            simp [file]
          · rw [sound.above (l := m ++ [name]) (m := m ++ name :: more) (by simp [file])
              (by simp) (by simpa using last)]
            simp
        exact absurd (leaf name) next

/-- Directories that are the last ones on the way to what is due. -/
theorem make (h : Pending before tree due)
    (entries : ∀ m, tree'.at? m = tree.at? m ∨ tree.at? m = none ∧ tree'.at? m = some .directory)
    (ends : ∀ m, tree.at? m = none → tree'.at? m = some .directory →
      (∀ name, tree'.at? (m ++ [name]) = none) → ∃ l, due l ∧ EndsAbove l m) :
    Pending before tree' due where
  kept m e entry := by
    rcases entries m with same | ⟨absent, _⟩
    · rw [same]
      exact h.kept m e entry
    · exact absurd absent (h.there (by simp [entry]))
  files m bytes mode absent file := by
    rcases entries m with same | ⟨_, made⟩
    · exact h.files m bytes mode absent (same ▸ file)
    · cases made.symm.trans file
  tips m absent made leaf := by
    rcases entries m with same | ⟨absent', _⟩
    · refine h.tips m absent (same ▸ made) fun name => ?_
      rcases entries (m ++ [name]) with same' | ⟨absent', _⟩
      · rw [← same', leaf name]
      · exact absent'
    · exact ends m absent' made leaf

/-- Removing what was not there and has nothing in it, at a place that is due. -/
theorem remove (h : Pending before tree due) (here : due l) (fresh : before.at? l = none)
    (entries : ∀ m, tree'.at? m = if m = l then none else tree.at? m) :
    Pending before tree' due where
  kept m e entry := by
    have other : m ≠ l := by
      rintro rfl
      cases fresh.symm.trans entry
    rw [entries, if_neg other]
    exact h.kept m e entry
  files m bytes mode absent file := by
    rw [entries] at file
    split at file
    · cases file
    · exact h.files m bytes mode absent file
  tips m absent made leaf := by
    rw [entries] at made
    split at made
    · cases made
    by_cases last : ∃ name, m ++ [name] = l
    · obtain ⟨name, rfl⟩ := last
      exact ⟨_, here, name, [], rfl, .inl rfl⟩
    · refine h.tips m absent made fun name => ?_
      have := leaf name
      rwa [entries, if_neg fun at_ => last ⟨name, at_⟩] at this

/-- A place is not due any more when nothing new is there or ends above it. -/
theorem settle (h : Pending before tree fun m => m = l ∨ due m)
    (same : tree.at? l = before.at? l)
    (ends : ∀ m, EndsAbove l m → before.at? m = none → tree.at? m = some .directory →
      ¬∀ name, tree.at? (m ++ [name]) = none) : Pending before tree due where
  kept m e entry := by
    rcases h.kept m e entry with kept | ⟨rfl | here, changed⟩
    · exact .inl kept
    · exact .inl (same.trans entry)
    · exact .inr ⟨here, changed⟩
  files m bytes mode absent file := by
    rcases h.files m bytes mode absent file with rfl | here
    · cases (absent.symm.trans same.symm).trans file
    · exact here
  tips m absent made leaf := by
    obtain ⟨l', rfl | here, above⟩ := h.tips m absent made leaf
    · exact absurd leaf (ends m above absent made)
    · exact ⟨l', here, above⟩

/-- What was there and is as before is not due any more. -/
theorem settle_of_there (h : Pending before tree fun m => m = l ∨ due m) (sound : before.Sound)
    (there : before.at? l ≠ none) (same : tree.at? l = before.at? l) :
    Pending before tree due := by
  refine h.settle same fun m above absent => ?_
  obtain ⟨part, other⟩ := above.above
  cases absent.symm.trans (sound.above there part other)

end Pending

end Tree

namespace Site

variable {before s s' : Site} {due due' : Location → Prop} {p : Path} {base : Location}
variable {rest : List Text}

/-- A site is as before, but for what is due in its tree and for messages. -/
structure Pending (before s : Site) (due : Location → Prop) : Prop where
  place : s.workingDirectory = before.workingDirectory
  held : s.held = before.held
  sound : s.tree.Sound
  tree : before.tree.Pending s.tree due

namespace Pending

theorem refl (sound : before.tree.Sound) (due : Location → Prop) : Pending before before due :=
  ⟨rfl, rfl, sound, .refl before.tree due⟩

theorem mono (h : Pending before s due) (more : ∀ m, due m → due' m) : Pending before s due' :=
  ⟨h.place, h.held, h.sound, h.tree.mono more⟩

theorem advance (h : Pending before s due) (beside : s' = { s with tree := s'.tree })
    (sound : s.tree.Sound → s'.tree.Sound) (tree : before.tree.Pending s'.tree due') :
    Pending before s' due' :=
  ⟨by rw [beside, h.place], by rw [beside, h.held], sound h.sound, tree⟩

theorem location (h : Pending before s due) (p : Path) : s.location p = before.location p :=
  location_of_workingDirectory h.place p

theorem way (h : Pending before s due) (way : before.Way p base rest) : s.Way p base rest :=
  way.of_opens h.tree.opens h.place

/-- Writing a file at a place that is due. -/
theorem writes {bytes : Bytes} (h : Pending before s due) (way : before.Way p base rest)
    (here : due (before.location p)) (written : Writes s s' p bytes) : Pending before s' due := by
  have file := written.written
  have free : s.tree.at? (s.location p) ≠ some .directory := written.free
  rw [h.location] at file free
  refine h.advance written.beside written.sound
    (h.tree.put (written.sound h.sound) here file ?_ ?_)
  · intro e entry
    unfold modeAt
    rcases h.tree.kept _ e entry with same | ⟨_, old, new, mode, rfl, changed⟩
    · cases e with
      | directory => exact absurd same free
      | file old mode => exact ⟨old, by rw [same]⟩
    · exact ⟨old, by rw [changed]⟩
  · intro m other
    rw [← h.location] at other
    rcases written.others m other with same | ⟨absent, made, k, passed⟩
    · exact .inl same
    · refine .inr ⟨absent, made, ?_⟩
      rw [Path.parent, List.dropLast_eq_take, List.take_take] at passed
      rw [← h.location, passed]
      exact (h.way way).firm.prefix_of_absent (passed ▸ absent)

/-- Making directories above a place that is due. -/
theorem makeDirectories (h : Pending before s due) (way : before.Way p base rest) {name : Text}
    (here : due (before.location p ++ [name])) :
    Pending before (Action.makeDirectories p s).2 due := by
  have grows := (Action.makes_makeDirectories p s).grows
  refine h.advance grows.beside grows.sound (h.tree.make ?_ ?_)
  · exact fun m => (grows.entries m).imp_right fun ⟨absent, made, _⟩ => ⟨absent, made⟩
  · intro m fresh made leaf
    refine ⟨_, here, ?_⟩
    rcases Action.tip_of_makeDirectories h.sound (h.way way) fresh made leaf with
      rfl | ⟨next, more, passed, long⟩
    · exact ⟨name, [], by rw [h.location], .inl rfl⟩
    · refine ⟨next, more ++ [name], ?_, .inr long⟩
      rw [← h.location, passed, List.append_assoc, List.cons_append]

theorem writeBytes (h : Pending before s due) (way : before.Way p base rest) (inner : rest ≠ [])
    (here : due (before.location p)) (bytes : Bytes) :
    Pending before (Action.writeBytes p bytes s).2 due := by
  rcases Action.writeBytes_cases p bytes s with ⟨s', run, written⟩ | ⟨f, s', run, grows, same⟩
  · rw [run]
    exact h.writes way here written
  · rw [run]
    obtain ⟨name, _, _, at_⟩ := way.last inner
    have made := h.makeDirectories (way.parent inner) (at_ ▸ here)
    exact h.advance grows.beside grows.sound (made.tree.congr same)

/-- Letting everyone run a file that is new. -/
theorem makeExecutable (h : Pending before s due) (fresh : before.entryAt p = none)
    (here : due (before.location p)) : Pending before (Action.makeExecutable p s).2 due := by
  unfold Action.makeExecutable
  rw [Action.bind_apply, Action.get_apply]
  simp only
  unfold withMode
  cases way : s.locate p with
  | error o => exact h
  | ok l =>
    obtain rfl := eq_location_of_locate way
    rcases entry : s.tree.at? (s.location p) with _ | (_ | ⟨bytes, mode⟩)
    · simp only [entry]
      exact h
    · simp only [entry]
      exact h
    · simp only [entry]
      have inner : s.location p ≠ [] := by
        intro outer
        rw [outer] at entry
        cases entry
      have touches := Touches.of_mode entry (mode ||| Action.executableBits)
      have file := (at?_insert (s := s) inner (.file bytes (mode ||| Action.executableBits)) _).trans
        (if_pos rfl)
      refine h.advance touches.beside touches.sound
        (h.tree.put (touches.sound h.sound) (h.location p ▸ here) file ?_ ?_)
      · intro e was
        rw [h.location] at was
        cases fresh.symm.trans was
      · intro m other
        exact .inl ((at?_insert inner _ _).trans (if_neg other))

/-- Removing a file that is new. -/
theorem clears (h : Pending before s due) (fresh : before.entryAt p = none)
    (here : due (before.location p)) (clears : Clears s s' p) : Pending before s' due := by
  have touches := clears.touches
  rcases clears with ⟨rfl, _⟩ | ⟨rfl, inner, _⟩
  · exact h
  · refine h.advance touches.beside touches.sound
      (h.tree.remove here fresh fun m => ?_)
    rw [← h.location]
    exact at?_erase inner m

end Pending

end Site

end Layering
