import Layering.Proofs.Pending

/-!
# Clearing up

What is due at a place is due no more once the place is as it was: a new file is removed with the
directories that were made for it, or an old one gets its bytes back.
-/

namespace Layering

namespace Tree

variable {before tree tree' : Tree} {due : Location → Prop} {base l m : Location} {name : Text}

/-- No name that is too long comes after a directory on the way from one location to another. -/
def Passable (tree : Tree) (base l : Location) : Prop :=
  ∀ m name more, base <+: m → l = m ++ name :: more → tree.at? m = some .directory →
    nameSize name ≤ maxNameSize

theorem Passable.above (passable : tree.Passable base (l ++ [name])) : tree.Passable base l := by
  rintro m next more part rfl open_
  exact passable m next (more ++ [name]) part (by simp) open_

theorem Passable.of_fewer (passable : tree.Passable base l)
    (fewer : ∀ m, tree'.at? m = some .directory → tree.at? m = some .directory) :
    tree'.Passable base l :=
  fun m name more part same open_ => passable m name more part same (fewer m open_)

theorem Passable.of_short {rest : List Text} (short : ∀ name ∈ rest, nameSize name ≤ maxNameSize) :
    tree.Passable base (base ++ rest) := by
  rintro m name more ⟨between, rfl⟩ same _
  rw [List.append_assoc] at same
  exact short name (List.append_cancel_left same ▸ by simp)

/-- Names lead as far as directories go, or to one that is too long. -/
theorem follow_of_passable (sound : tree.Sound) {names : List Text} (forward : upName ∉ names)
    (passable : tree.Passable l (l ++ names)) (there : tree.at? (l ++ names) ≠ none) :
    tree.follow l names = .ok (l ++ names) := by
  induction names generalizing l with
  | nil => simp [follow]
  | cons name rest ih =>
    obtain ⟨other, forward⟩ := List.ne_and_not_mem_of_not_mem_cons forward
    have open_ : tree.at? l = some .directory :=
      sound.above there (List.prefix_append ..) (by simp)
    have short := passable l name rest List.prefix_rfl rfl open_
    rw [List.append_cons] at there passable ⊢
    -- All on the way to an entry is there: directories, up to the last name.
    have next : tree.at? (l ++ [name]) ≠ none := by
      by_cases last : rest = []
      · simpa [last] using there
      · rw [sound.above there (List.prefix_append ..) (by simpa using last)]
        simp
    have further : tree.Passable (l ++ [name]) (l ++ [name] ++ rest) :=
      fun m => by
        intro name' more part
        exact passable m name' more ((List.prefix_append ..).trans part)
    have step := ih forward further there
    unfold follow
    simp only [isDirectory_iff.mpr open_, Bool.not_true, Bool.false_eq_true, if_false,
      Ne.symm other, Nat.not_lt.mpr short, next]
    exact step

/-- A name that is too long after a directory on the way stops it. -/
theorem follow_tooLong (sound : tree.Sound) {done more : List Text} (forward : upName ∉ done)
    (other : name ≠ upName) (open_ : tree.at? (l ++ done) = some .directory)
    (long : maxNameSize < nameSize name) :
    tree.follow l (done ++ name :: more) = .error .nameTooLong := by
  induction done generalizing l with
  | nil =>
    rw [List.append_nil] at open_
    simp [follow, isDirectory_iff.mpr open_, other, long]
  | cons first rest ih =>
    obtain ⟨other', forward⟩ := List.ne_and_not_mem_of_not_mem_cons forward
    have here : tree.at? l = some .directory :=
      sound.above (m := l ++ first :: rest) (by simp [open_]) (List.prefix_append ..) (by simp)
    rw [List.append_cons] at open_
    have next : tree.at? (l ++ [first]) ≠ none := by
      by_cases last : rest = []
      · rw [last, List.append_nil] at open_
        simp [open_]
      · rw [sound.above (m := l ++ [first] ++ rest) (by simp only [open_]; simp)
          (List.prefix_append ..) (by simpa using last)]
        simp
    -- The first name that is too long need not be the given one.
    by_cases long' : nameSize first > maxNameSize
    · simp [follow, isDirectory_iff.mpr here, Ne.symm other', long']
    · have step := ih forward open_
      rw [List.cons_append]
      unfold follow
      simp only [isDirectory_iff.mpr here, Bool.not_true, Bool.false_eq_true, if_false,
        Ne.symm other', long', next]
      exact step

/-- What is on the way and is no directory is a file. -/
theorem exists_of_follow_notDirectory {names : List Text} (forward : upName ∉ names)
    (there : tree.at? l ≠ none) (stuck : tree.follow l names = .error .notDirectory) :
    ∃ done more bytes mode, names = done ++ more ∧ more ≠ [] ∧
      tree.at? (l ++ done) = some (.file bytes mode) := by
  -- Along the names, with the place let free: the way stops at the first file it meets.
  induction names generalizing l with
  | nil => cases stuck
  | cons name rest ih =>
    obtain ⟨other, forward⟩ := List.ne_and_not_mem_of_not_mem_cons forward
    unfold follow at stuck
    rcases entry : tree.at? l with _ | (_ | ⟨bytes, mode⟩)
    · exact absurd entry there
    · simp only [isDirectory_iff.mpr entry, Bool.not_true, Bool.false_eq_true, if_false,
        Ne.symm other] at stuck
      split at stuck
      · cases stuck
      · split at stuck
        · cases stuck
        next present =>
          obtain ⟨done, more, bytes, mode, rfl, further, file⟩ := ih forward present stuck
          exact ⟨name :: done, more, bytes, mode, rfl, further, by rwa [List.append_cons]⟩
    · exact ⟨[], name :: rest, bytes, mode, rfl, by simp, by rw [List.append_nil, entry]⟩

namespace Pending

/-- A place where nothing is any more is due no more, if the directory above it is an old one or
holds something. -/
theorem settle_absent (h : Pending before tree fun m => m = l ∨ due m) (sound : before.Sound)
    (open_ : before.at? base = some .directory) (below : base <+: l) (fresh : before.at? l = none)
    (gone : tree.at? l = none) (passable : tree.Passable base l)
    (parent : ∀ m name, l = m ++ [name] → before.at? m = none → tree.at? m = some .directory →
      ¬∀ name, tree.at? (m ++ [name]) = none) : Pending before tree due := by
  refine h.settle (gone.trans fresh.symm) ?_
  rintro m ⟨name, more, rfl, last | long⟩ absent made
  · subst last
    exact parent m name rfl absent made
  · -- A new directory lies beyond the old one, from where no name is too long.
    rcases List.prefix_or_prefix_of_prefix below (List.prefix_append m _) with part | part
    · exact absurd long (Nat.not_lt.mpr (passable m name more part rfl made))
    · by_cases same : m = base
      · cases absent.symm.trans (same ▸ open_)
      · cases absent.symm.trans (sound.above (by simp [open_]) part same)

/-- Removing the empty directory above a place where nothing is any more, if it is a new one. -/
theorem remove_above (h : Pending before tree fun l => l = m ++ [name] ∨ due l)
    (sound : before.Sound) (open_ : before.at? base = some .directory) (below : base <+: m)
    (fresh : before.at? m = none) (gone : tree.at? (m ++ [name]) = none)
    (passable : tree.Passable base (m ++ [name]))
    (entries : ∀ l, tree'.at? l = if l = m then none else tree.at? l) :
    Pending before tree' fun l => l = m ∨ due l := by
  have wider : Pending before tree fun l => l = m ++ [name] ∨ l = m ∨ due l :=
    h.mono fun _ => Or.imp_right Or.inr
  have removed := wider.remove (.inr (.inl rfl)) fresh entries
  refine removed.settle_absent sound open_ (below.trans (List.prefix_append ..)) ?_ ?_
    (passable.of_fewer fun l => ?_) ?_
  · exact sound.below (by simp [fresh]) (List.prefix_append ..) (by simp)
  · rw [entries, if_neg (by simp), gone]
  · rw [entries]
    split <;> simp
  · intro m' name' same _ made
    obtain rfl : m = m' := (List.append_inj_left' same rfl)
    rw [entries, if_pos rfl] at made
    cases made

end Pending

theorem Nearest.absent_of_prefix {stop : Location} (nearest : tree.Nearest stop l)
    (fresh : tree.at? m = none) (sound : tree.Sound) (part : m <+: l) : stop <+: m ∧ m ≠ stop := by
  rcases List.prefix_or_prefix_of_prefix nearest.above part with inside | outside
  · refine ⟨inside, ?_⟩
    rintro rfl
    exact nearest.there fresh
  · by_cases same : m = stop
    · exact absurd fresh (same ▸ nearest.there)
    · cases fresh.symm.trans (sound.above nearest.there outside same)

end Tree

namespace Site

variable {before s s' : Site} {due : Location → Prop} {p stop : Path} {base l : Location}
variable {rest : List Text} {name : Text}

namespace Way

/-- What is there is found if no name on the way is too long. -/
theorem locate_of_passable (way : s.Way p base rest) (sound : s.tree.Sound)
    (passable : s.tree.Passable base (s.location p)) (there : s.entryAt p ≠ none) :
    s.locate p = .ok (s.location p) := by
  rw [way.locate]
  rw [entryAt, way.location] at there
  rw [way.location] at passable ⊢
  exact Tree.follow_of_passable sound way.forward passable there

/-- An empty directory can be removed. -/
theorem withoutDirectory (way : s.Way p base rest) (inner : rest ≠ []) (sound : s.tree.Sound)
    (passable : s.tree.Passable base (s.location p)) (open_ : s.entryAt p = some .directory)
    (empty : ∀ name, s.tree.at? (s.location p ++ [name]) = none) :
    ∃ s', s.withoutDirectory p = .ok s' := by
  obtain ⟨name, last, other, at_⟩ := way.last inner
  have above : s.entryAt p.parent = some .directory := by
    rw [entryAt] at open_ ⊢
    exact sound.above (m := s.location p) (by simp [open_]) (at_ ▸ List.prefix_append ..)
      (by simp [at_])
  have passable' := (at_ ▸ passable).above
  have short : ¬nameSize name > maxNameSize := by
    refine Nat.not_lt.mpr (passable _ name [] ?_ at_ above)
    rw [(way.parent inner).location]
    exact List.prefix_append ..
  have taken := slot_of_parent ((way.parent inner).locate_of_passable sound passable'
    (by simp [above])) above last other
  rw [if_neg short, ← at_] at taken
  -- Without children there is nothing further below either.
  have nothing : (s.tree.below (s.location p)).isEmpty = true := by
    rw [Tree.below_isEmpty_iff]
    rintro m ⟨more, rfl⟩ other
    cases more with
    | nil => simp at other
    | cons next more =>
      rw [← Tree.at?_of_ne_nil (by simp)]
      by_cases last : more = []
      · rw [last, empty]
      · refine sound.below (l := s.location p ++ [next]) (by simp [empty]) ?_ ?_
        · exact ⟨more, by simp⟩
        · simpa using Ne.symm last
  have entry : s.tree.at? (s.location p) = some .directory := open_
  unfold Site.withoutDirectory
  rw [taken]
  simp only [entry, nothing, if_true]
  exact ⟨_, rfl⟩

section

variable (way : s.Way p base rest) (inner : rest ≠ []) (sound : s.tree.Sound)
variable (short : ∀ name ∈ rest, nameSize name ≤ maxNameSize)
variable (clear : ∀ m, base <+: m → m <+: s.location p → m ≠ s.location p → ∀ bytes mode,
  s.tree.at? m ≠ some (.file bytes mode))
include way inner sound short clear

/-- The parent is missing or a directory where no file is in the way, and no name is too long. -/
theorem parent_of_clear : s.locate p.parent = .error .notFound ∨ s.LeadsToDirectory p.parent := by
  have parent := way.parent inner
  obtain ⟨name, last, other, at_⟩ := way.last inner
  have above {done more : List Text} {bytes : Bytes} {mode : Nat}
      (split : rest.dropLast = done ++ more) (file : s.tree.at? (base ++ done) =
        some (.file bytes mode)) : False := by
    refine clear _ (List.prefix_append ..) ?_ ?_ _ _ file
    · rw [at_, parent.location, split]
      exact ⟨more ++ [name], by simp⟩
    · rw [at_, parent.location, split]
      simp
  -- The walk stops at a missing name, at a file or at a name that is too long.
  rcases led : s.locate p.parent with o | l
  · cases o with
    | notFound => exact .inl rfl
    | notDirectory =>
      rw [parent.locate] at led
      obtain ⟨done, more, _, _, split, _, file⟩ := Tree.exists_of_follow_notDirectory
        parent.forward (by simp [way.directory]) led
      exact (above split file).elim
    | nameTooLong =>
      rw [parent.locate] at led
      refine absurd led (Tree.follow_ne_tooLong fun name member => ?_)
      exact short name (List.dropLast_subset _ member)
  · have at_ := eq_location_of_locate led
    have there : s.entryAt p.parent ≠ none := by
      rw [parent.locate, at_] at led
      exact Tree.at?_of_follow sound (by simp [way.directory]) led
    rcases entry : s.entryAt p.parent with _ | (_ | ⟨bytes, mode⟩)
    · exact absurd entry there
    · exact .inr ⟨at_ ▸ led, entry⟩
    · rw [entryAt, parent.location] at entry
      exact (above (List.append_nil _).symm entry).elim

/-- A file is removed or found missing where no file is in the way, and no name is too long. -/
theorem deleteFile_of_clear (leaf : s.entryAt p ≠ some .directory) :
    ∃ s', Action.deleteFile p s = (.ok (), s') := by
  obtain ⟨name, last, other, at_⟩ := way.last inner
  have found : (∃ q, s.withoutFile p = .error (.notFound q)) ∨
      ∃ s', s.withoutFile p = .ok s' := by
    -- Without the parent there is nothing to delete. With it the last name decides, and it is
    -- short enough to be asked for.
    rcases way.parent_of_clear inner sound short clear with missing | ⟨led, entry⟩
    · exact .inl ⟨p, withoutFile_of_stuck (slot_of_locate_error missing)⟩
    · have whole : rest = rest.dropLast ++ [name] := by
        rw [way.location, (way.parent inner).location, List.append_assoc] at at_
        exact List.append_cancel_left at_
      have fits : nameSize name ≤ maxNameSize := short name (whole ▸ by simp)
      have taken := slot_of_parent led entry last other
      rw [if_neg (Nat.not_lt.mpr fits), ← at_] at taken
      rcases entry : s.tree.at? (s.location p) with _ | (_ | ⟨bytes, mode⟩)
      · exact .inl ⟨p, withoutFile_of_absent taken entry⟩
      · exact absurd entry leaf
      · exact .inr ⟨_, withoutFile_of_file taken entry⟩
  rcases found with ⟨q, missing⟩ | ⟨s', removed⟩
  · exact ⟨s, Action.deleteFile_of_missing missing⟩
  · exact ⟨s', Action.deleteFile_of_ok removed⟩

end

/-- A file is removed or found missing only where no name on the way is too long. -/
theorem passable_of_deleteFile (way : s.Way p base rest) (inner : rest ≠ [])
    (sound : s.tree.Sound) (run : Action.deleteFile p s = (.ok (), s')) :
    s.tree.Passable base (s.location p) := by
  intro m next more part split open_
  by_contra long
  obtain ⟨done, rfl⟩ := part
  rw [way.location, List.append_assoc] at split
  obtain rfl := List.append_cancel_left split
  have forward : upName ∉ done := fun up => way.forward (List.mem_append_left _ up)
  have other : next ≠ upName := fun up => way.forward (by simp [up])
  -- The long name is the last one, or one on the way to the parent; either way the walk is refused.
  have stuck : s.slot? p = .error .nameTooLong := by
    have parent := way.parent inner
    by_cases long' : s.locate p.parent = .error .nameTooLong
    · exact slot_of_locate_error long'
    · cases List.eq_nil_or_concat more with
      | inl last =>
        subst last
        rw [List.dropLast_concat] at parent
        have above : s.entryAt p.parent = some .directory := by
          rw [entryAt, parent.location]
          exact open_
        obtain ⟨name, last, other', at_⟩ := way.last inner
        rw [way.location, parent.location, ← List.append_assoc] at at_
        obtain rfl : next = name := by simpa using at_
        rw [slot_of_parent (parent.locate_of_there sound (by simp [above]) long') above last other',
          if_pos (Nat.lt_of_not_le long)]
      | inr longer =>
        obtain ⟨between, last, rfl⟩ := longer
        rw [List.concat_eq_append, ← List.cons_append, ← List.append_assoc,
          List.dropLast_concat] at parent
        refine absurd ?_ long'
        rw [parent.locate]
        exact Tree.follow_tooLong sound forward other open_ (Nat.lt_of_not_le long)
  have refused : Action.deleteFile p s = (.error (.fault (.nameTooLong p)), s) :=
    Action.deleteFile_of_refused (withoutFile_of_stuck stuck) fun _ same => by cases same
  cases run.symm.trans refused

end Way

namespace Pending

theorem congr (h : Pending before s due) (beside : s' = { s with tree := s'.tree })
    (same : ∀ m, s'.tree.at? m = s.tree.at? m) : Pending before s' due := by
  refine h.advance beside (fun sound l name => ?_) (h.tree.congr same)
  rw [same, same]
  exact sound l name

theorem trans (h : Pending before s due) (h' : Pending s s' due) : Pending before s' due :=
  ⟨h'.place.trans h.place, h'.held.trans h.held, h'.sound, h.tree.trans h'.tree⟩

end Pending

/-- Nothing is left at a place in a directory, which is still due. -/
structure Emptied (before : Site) (due : Location → Prop) (stop : Path) (base : Location) (p : Path)
    (name : Text) (s : Site) : Prop where
  pending : Pending before s fun m => m = before.location p ++ [name] ∨ due m
  way : ∃ rest, before.Way p base rest
  nearest : before.tree.Nearest (before.location stop) (before.location p ++ [name])
  fresh : before.tree.at? (before.location p ++ [name]) = none
  gone : s.tree.at? (before.location p ++ [name]) = none
  passable : s.tree.Passable base (before.location p ++ [name])

namespace Emptied

variable (h : Emptied before due stop base p name s) (sound : before.tree.Sound)
include h sound

/-- Where pruning stops, the place is due no more. -/
theorem settle (stops : ¬(s.location stop <+: s.location p ∧ s.location p ≠ s.location stop) ∨
    ∃ f, s.withoutDirectory p = .error f) : Pending before s due := by
  obtain ⟨rest, way⟩ := h.way
  have below : base <+: before.location p ++ [name] := by
    rw [way.location, List.append_assoc]
    exact List.prefix_append ..
  refine h.pending.advance rfl id (h.pending.tree.settle_absent sound way.directory below h.fresh
    h.gone h.passable ?_)
  intro m next same absent made empty
  obtain rfl : before.location p = m := List.append_inj_left' same rfl
  have way' := h.pending.way way
  have places := h.pending.location
  rcases stops with outside | ⟨f, stuck⟩
  · -- A new directory lies below the stop, which is an old one.
    rw [places, places] at outside
    exact outside (h.nearest.absent_of_prefix absent sound (List.prefix_append ..))
  · have inner : rest ≠ [] := by
      rintro rfl
      rw [way.location, List.append_nil] at absent
      cases absent.symm.trans way.directory
    have passable := h.passable
    rw [← places] at made empty passable
    obtain ⟨s', removed⟩ :=
      way'.withoutDirectory inner h.pending.sound passable.above made empty
    cases stuck.symm.trans removed

/-- A directory that goes is the place that is due next. -/
theorem above (below : s.location stop <+: s.location p) (other : s.location p ≠ s.location stop)
    (removed : s.withoutDirectory p = .ok s') :
    ∃ last, Emptied before due stop base p.parent last s' := by
  obtain ⟨rest, way⟩ := h.way
  obtain ⟨rfl, inner, open_, empty, last, at_⟩ := Action.withoutDirectory_eq_ok removed
  have places := h.pending.location
  rw [places, places] at below other at_
  rw [places] at inner empty
  -- The stop is the nearest that was there, so this directory was made since.
  have absent : before.tree.at? (before.location p) = none :=
    h.nearest.between _ below other (List.prefix_append ..)
  have deep : rest ≠ [] := by
    rintro rfl
    rw [way.location, List.append_nil] at absent
    cases absent.symm.trans way.directory
  have part : base <+: before.location p := by
    rw [way.location]
    exact List.prefix_append ..
  have entries (m : Location) : (s.erase (s.location p)).tree.at? m =
      if m = before.location p then none else s.tree.at? m := by
    rw [places, at?_erase inner]
  have cleared :=
    h.pending.tree.remove_above sound way.directory part absent h.gone h.passable entries
  rw [at_] at cleared absent
  refine ⟨last, ?_, ⟨_, way.parent deep⟩, ?_, absent, ?_, ?_⟩
  · refine h.pending.advance rfl (fun _ => ?_) cleared
    rw [places]
    refine h.pending.sound.erase inner fun next => ?_
    exact empty _ (List.prefix_append ..) (by simp)
  · rw [← at_]
    refine ⟨below, h.nearest.there, fun m between other part => ?_⟩
    exact h.nearest.between m between other (part.trans (List.prefix_append ..))
  · rw [entries, at_, if_pos rfl]
  · rw [← at_]
    refine h.passable.above.of_fewer fun m => ?_
    rw [entries]
    split <;> simp

/-- The empty directories above a place where nothing is any more are removed up to the nearest one
that was there before, so that the place is due no more. -/
theorem pruneUpTo (straight : upName ∉ before.workingDirectory) :
    Pending before (Action.pruneUpTo stop p s).2 due := by
  have straight' : upName ∉ s.workingDirectory := by rwa [h.pending.place]
  refine Action.pruneUpTo_rule
    (motive := fun p s s' => ∀ name, Emptied before due stop base p name s → Pending before s' due)
    (fun p s stops name h => h.settle sound stops) ?_ straight' p name h
  intro p s s' s'' below other removed later name h
  obtain ⟨last, h'⟩ := h.above sound below other removed
  exact later last h'

end Emptied

namespace Pending

/-- A new file is removed with the directories that were made for it. -/
theorem removes (h : Pending before s fun m => m = before.location p ∨ due m)
    (sound : before.tree.Sound) (straight : upName ∉ before.workingDirectory)
    (way : before.Way p base rest) (fresh : before.entryAt p = none)
    (nearest : before.tree.Nearest (before.location stop) (before.location p))
    (run : Action.deleteFile p s = (.ok (), s')) :
    Pending before (Action.pruneUpTo stop p.parent s').2 due := by
  have inner : rest ≠ [] := way.inner (by simp [fresh])
  have way' := h.way way
  rcases Action.deleteFile_clears p s with ⟨s₁, run', clears⟩ | ⟨f, stuck⟩
  · cases run'.symm.trans run
    have gone := clears.entryAt h.sound way'.firm
    have passable := way'.passable_of_deleteFile inner h.sound run
    obtain ⟨name, _, _, at_⟩ := way.last inner
    rw [h.location] at gone passable
    have cleared := h.clears fresh (.inl rfl) clears
    rw [entryAt] at fresh
    rw [at_] at fresh nearest gone passable cleared
    -- Deleting takes entries away only, so the directories on the way are no more than before.
    have passable : s'.tree.Passable base (before.location p.parent ++ [name]) := by
      refine passable.of_fewer fun m open_ => ?_
      rcases clears.gone m with same | ⟨_, gone, _⟩
      · rw [← same, open_]
      · cases gone.symm.trans open_
    have emptied : Emptied before due stop base p.parent name s' :=
      ⟨cleared, ⟨_, way.parent inner⟩, nearest, fresh, gone, passable⟩
    exact emptied.pruneUpTo sound straight
  · cases stuck.symm.trans run

/-- A file gets its bytes back. -/
theorem restores {bytes : Bytes} {mode : Nat}
    (h : Pending before s fun m => m = before.location p ∨ due m) (sound : before.tree.Sound)
    (way : before.Way p base rest) (was : before.entryAt p = some (.file bytes mode))
    (writes : Writes s s' p bytes) :
    Pending before s' due ∧ s'.tree.at? (before.location p) = some (.file bytes mode) ∧
      ∀ m ≠ before.location p, s'.tree.at? m = s.tree.at? m := by
  -- A file that was there had its directories, so writing it makes none.
  have there : ∀ k, before.tree.at? ((before.start p).walk (p.names.take k)) ≠ none := by
    intro k absent
    have part := way.firm.prefix_of_absent absent
    by_cases same : (before.start p).walk (p.names.take k) = before.location p
    · rw [same, ← entryAt, was] at absent
      cases absent
    · cases absent.symm.trans (sound.above (by rw [← entryAt, was]; simp) part same)
  have old : s.modeAt (before.location p) = mode := by
    unfold modeAt
    rcases h.tree.kept _ _ was with same | ⟨_, _, _, _, same, file⟩
    · rw [same]
    · cases same
      rw [file]
  have file := writes.written
  rw [h.location, old] at file
  have others (m : Location) (other : m ≠ before.location p) :
      s'.tree.at? m = s.tree.at? m := by
    refine (writes.others m (by rwa [h.location])).resolve_right ?_
    rintro ⟨absent, _, k, passed⟩
    rw [Path.parent, List.dropLast_eq_take, List.take_take, start_of_workingDirectory h.place]
      at passed
    exact h.tree.there (passed ▸ there _) absent
  refine ⟨h.advance writes.beside writes.sound ?_, file, others⟩
  have put := h.tree.put (writes.sound h.sound) (.inl rfl) file
    (fun e entry => ⟨bytes, by cases was.symm.trans entry; rfl⟩) fun m other => .inl (others m other)
  rw [entryAt] at was
  exact put.settle_of_there sound (by simp [was]) (file.trans was.symm)

end Pending

end Site

namespace Restoration

variable {before s s' : Site} {due : Location → Prop} {target : Path} {copy : Option Path}

/-- Only what ends well is a success. -/
theorem eq_of_success {restore : Action Restoration} {r : Restoration}
    (run : orFault target copy restore s = (.ok r, s')) (success : r.success = true) :
    restore s = (.ok r, s') := by
  unfold orFault at run
  rw [Action.bind_apply, Action.attempt_apply] at run
  rcases ended : restore s with ⟨e | r', s₁⟩
  · rw [ended] at run
    simp only at run
    cases fault : e.fault? with
    | none =>
      rw [fault] at run
      cases run
    | some f =>
      rw [fault] at run
      cases run
      cases success
  · rw [ended] at run
    exact run

/-- A restoration settles its file: when it is a success the file is due no more. What it needs is
kept, and something else may be known of the file afterwards. -/
def Settles (before : Site) (Inv : Site → Prop) (Known : Path → Prop)
    (restore : Path → Action Restoration) (target : Path) : Prop :=
  ∀ due s r s', Inv s → before.Pending s (fun m => m = before.location target ∨ due m) →
    restore target s = (.ok r, s') → r.success = true →
      before.Pending s' due ∧ Inv s' ∧ Known target

/-- When all restorations are successes, none of their files is due any more. -/
theorem settles_mapM {Inv : Site → Prop} {Known : Path → Prop}
    {restore : Path → Action Restoration} {files : List Path} {restored : List Restoration}
    (each : ∀ target ∈ files, Settles before Inv Known restore target) (inv : Inv s)
    (pending : before.Pending s fun m => (∃ target ∈ files, before.location target = m) ∨ due m)
    (run : files.mapM restore s = (.ok restored, s'))
    (whole : ∀ r ∈ restored, r.success = true) :
    before.Pending s' due ∧ Inv s' ∧ ∀ target ∈ files, Known target := by
  induction files generalizing s restored with
  | nil =>
    cases run
    exact ⟨pending.mono (by simp), inv, nofun⟩
  | cons target rest ih =>
    rw [List.mapM_cons] at run
    obtain ⟨r, s₁, first, run⟩ := Action.bind_eq_ok run
    obtain ⟨more, s₂, others, run⟩ := Action.bind_eq_ok run
    cases run
    obtain ⟨success, whole⟩ := List.forall_mem_cons.mp whole
    obtain ⟨settles, each⟩ := List.forall_mem_cons.mp each
    -- The first file is undone with the other files still due, and what is due beside them
    -- stays.
    have start : before.Pending s fun m => m = before.location target ∨
        ((∃ target ∈ rest, before.location target = m) ∨ due m) := by
      refine pending.mono fun m here => ?_
      rcases here with ⟨path, member, rfl⟩ | here
      · rcases List.mem_cons.mp member with rfl | later
        · exact .inl rfl
        · exact .inr (.inl ⟨path, later, rfl⟩)
      · exact .inr (.inr here)
    obtain ⟨pending₁, inv₁, known⟩ := settles _ s r s₁ inv start first success
    obtain ⟨pending₂, inv₂, knowns⟩ := ih each inv₁ pending₁ others whole
    exact ⟨pending₂, inv₂, List.forall_mem_cons.mpr ⟨known, knowns⟩⟩

end Restoration

end Layering
