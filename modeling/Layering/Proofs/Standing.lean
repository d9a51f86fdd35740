import Layering.Proofs.BrokenRepairs
import Layering.Proofs.FailedSnapshots
import Layering.Proofs.KeptSnapshots

/-!
# What repairs leave standing

A repair under the guard of a snapshot may fail and may be taken back in part. However it ends, a file
of before is still a file and a directory still a directory, and what is new lies on the way to a file
that was due. So the directories that are there can be walked as before.
-/

namespace Layering

namespace Tree

variable {before tree : Tree} {here l : Location} {names : List Text}

/-- There is the same kind of entry at a location of two trees, or none in both. -/
structure Alike (before tree : Tree) (l : Location) : Prop where
  directory : tree.isDirectory l = before.isDirectory l
  absent : tree.at? l = none ↔ before.at? l = none

/-- Names are followed alike where the entries on the way are alike. -/
theorem follow_of_alike (alike : ∀ k, Alike before tree (here.walk (names.take k))) :
    tree.follow here names = before.follow here names := by
  induction names generalizing here with
  | nil => rfl
  | cons name rest ih =>
    have start : Alike before tree here := alike 0
    have further (k : Nat) : Alike before tree
        (Location.walk (if name = upName then here.dropLast else here ++ [name]) (rest.take k)) :=
      alike (k + 1)
    unfold follow
    rw [start.directory]
    by_cases up : name = upName
    · rw [if_pos up] at further
      simp only [up, if_true, ih further]
    · rw [if_neg up] at further
      have next : Alike before tree (here ++ [name]) := further 0
      simp only [if_neg up, next.absent, ih further]

end Tree

namespace Site

variable {due hidden : Location → Prop} {before s s' : Site} {p d stop : Path} {l : Location}

/-- What was there is there as a file or as a directory, as it was, and what is new lies on the way
to something that is due. Nothing is said of what is hidden. -/
structure Stands (due hidden : Location → Prop) (before s : Site) : Prop where
  place : s.workingDirectory = before.workingDirectory
  sound : s.tree.Sound
  files : ∀ l, ¬hidden l → ∀ bytes mode, before.tree.at? l = some (.file bytes mode) →
    ∃ bytes mode, s.tree.at? l = some (.file bytes mode)
  directories : ∀ l, ¬hidden l → before.tree.at? l = some .directory →
    s.tree.at? l = some .directory
  fresh : ∀ l, ¬hidden l → before.tree.at? l = none → s.tree.at? l ≠ none → ∃ m, due m ∧ l <+: m

namespace Stands

theorem refl (sound : before.tree.Sound) (due hidden : Location → Prop) :
    Stands due hidden before before where
  place := rfl
  sound := sound
  files _ _ bytes mode file := ⟨bytes, mode, file⟩
  directories _ _ := id
  fresh _ _ absent there := absurd absent there

theorem there (h : Stands due hidden before s) (visible : ¬hidden l)
    (entry : before.tree.at? l ≠ none) : s.tree.at? l ≠ none := by
  cases was : before.tree.at? l with
  | none => exact absurd was entry
  | some e =>
    cases e with
    | directory => simp [h.directories l visible was]
    | file bytes mode =>
      obtain ⟨_, _, file⟩ := h.files l visible bytes mode was
      simp [file]

theorem trans (first : Stands due hidden before s) (second : Stands due hidden s s') :
    Stands due hidden before s' where
  place := second.place.trans first.place
  sound := second.sound
  files l visible bytes mode was := by
    obtain ⟨bytes, mode, file⟩ := first.files l visible bytes mode was
    exact second.files l visible bytes mode file
  directories l visible was := second.directories l visible (first.directories l visible was)
  fresh l visible absent there := by
    by_cases new : s.tree.at? l = none
    · exact second.fresh l visible new there
    · exact first.fresh l visible absent new

/-- What a bundled fixer does stands, whatever strategy guards it. -/
theorem of_pending (pending : Pending before s due) (sound : before.tree.Sound) :
    Stands due hidden before s where
  place := pending.place
  sound := pending.sound
  files l _ bytes mode was := by
    rcases pending.tree.kept l _ was with same | ⟨_, _, new, mode', _, file⟩
    · exact ⟨bytes, mode, same⟩
    · exact ⟨new, mode', file⟩
  directories l _ was := pending.tree.opens l was
  fresh l _ absent there := by
    rcases pending.tree.leads sound absent there with at_ | ⟨m, at_, part, _⟩
    · exact ⟨l, at_, List.prefix_rfl⟩
    · exact ⟨m, at_, part⟩

/-- What changes nothing but what is hidden leaves all else standing. -/
theorem of_aside (h : Stands due hidden before s) (place : s'.workingDirectory = s.workingDirectory)
    (sound : s'.tree.Sound) (same : ∀ l, ¬hidden l → s'.tree.at? l = s.tree.at? l) :
    Stands due hidden before s' where
  place := place.trans h.place
  sound := sound
  files l visible := by rw [same l visible]; exact h.files l visible
  directories l visible := by rw [same l visible]; exact h.directories l visible
  fresh l visible := by rw [same l visible]; exact h.fresh l visible

theorem of_tree_eq (h : Stands due hidden before s) (place : s'.workingDirectory = s.workingDirectory)
    (tree : s'.tree = s.tree) : Stands due hidden before s' :=
  h.of_aside place (tree ▸ h.sound) fun _ _ => by rw [tree]

theorem alike (h : Stands due hidden before s) (visible : ¬hidden l)
    (entry : before.tree.at? l ≠ none) : before.tree.Alike s.tree l where
  directory := by
    cases was : before.tree.at? l with
    | none => exact absurd was entry
    | some e =>
      cases e with
      | directory => simp [Tree.isDirectory, was, h.directories l visible was]
      | file bytes mode =>
        obtain ⟨_, _, file⟩ := h.files l visible bytes mode was
        simp [Tree.isDirectory, was, file]
  absent := iff_of_false (h.there visible entry) entry

theorem location (h : Stands due hidden before s) (p : Path) : s.location p = before.location p :=
  location_of_workingDirectory h.place p

/-- A path over entries that are there and not hidden leads to where it led. -/
theorem locate_eq (h : Stands due hidden before s) (visible : before.Visible hidden p)
    (entries : ∀ k, before.tree.at? ((before.start p).walk (p.names.take k)) ≠ none) :
    s.locate p = before.locate p := by
  unfold locate
  rw [start_of_workingDirectory h.place]
  exact Tree.follow_of_alike fun k => h.alike (visible k) (entries k)

section

variable (h : Stands due hidden before s) (visible : before.Visible hidden p)
variable (there : before.entryAt p ≠ none) (located : s.locate p = before.locate p)
include h visible there located

theorem isDirectory?_eq : s.isDirectory? p = before.isDirectory? p := by
  have same := (h.alike visible.location there).directory
  exact entryOf?_map_congr _ located (by simpa [Tree.isDirectory] using same)

theorem exists?_eq : s.exists? p = before.exists? p := by
  have same := (h.alike visible.location there).absent
  refine entryOf?_map_congr _ located ?_
  rw [Bool.eq_iff_iff, Option.isSome_iff_ne_none, Option.isSome_iff_ne_none, not_iff_not]
  exact same

end

/-- A directory that a path leads to without passing what is hidden is there for good. -/
theorem leads (h : Stands due hidden before s) (leads : before.LeadsToDirectory d)
    (visible : before.Visible hidden d) : s.LeadsToDirectory d := by
  obtain ⟨way, open_⟩ := leads
  have there : before.tree.at? (before.location d) ≠ none := by
    rw [← entryAt, open_]
    simp
  constructor
  · rw [h.locate_eq visible fun k => Tree.at?_of_take way there k, h.location, way]
  · rw [entryAt, h.location]
    exact h.directories _ visible.location open_

end Stands

/-- A path goes straight on from a directory that it leads to without passing what is hidden. -/
structure Rooted (hidden : Location → Prop) (s : Site) (p d : Path) (rest : List Text) : Prop where
  path : p = ⟨d.anchor, d.names ++ rest⟩
  forward : upName ∉ rest
  leads : s.LeadsToDirectory d
  visible : s.Visible hidden d

theorem Rooted.way {rest : List Text} (rooted : before.Rooted hidden p d rest)
    (h : Stands due hidden before s) : s.Way p (s.location d) rest := by
  have way := (h.leads rooted.leads rooted.visible).way.append rooted.forward
  rwa [rooted.path]

/-- What a path finds straight on from such a directory is found there for good. -/
theorem Rooted.locate_eq {rest : List Text} (rooted : before.Rooted hidden p d rest)
    (sound : before.tree.Sound) (visible : before.Visible hidden p)
    (there : before.entryAt p ≠ none) (h : Stands due hidden before s) :
    s.locate p = before.locate p := by
  refine h.locate_eq visible fun k => ?_
  have place : before.location p = before.location d ++ rest :=
    (rooted.way (.refl sound due hidden)).location
  rw [entryAt, place] at there
  have names : p.names = d.names ++ rest := by rw [rooted.path]
  have start : before.start p = before.start d := by rw [rooted.path]; rfl
  rw [names, start, List.take_append, Location.walk_append]
  by_cases inside : k ≤ d.names.length
  · rw [Nat.sub_eq_zero_of_le inside]
    have open_ : before.tree.at? (before.location d) ≠ none := by
      rw [← entryAt, rooted.leads.2]
      simp
    exact Tree.at?_of_take rooted.leads.1 open_ k
  · rw [List.take_of_length_le (by omega),
      Location.walk_eq_append fun up => rooted.forward (List.mem_of_mem_take up)]
    change before.tree.at? (before.location d ++ rest.take (k - d.names.length)) ≠ none
    intro absent
    have part : before.location d ++ rest.take (k - d.names.length) <+: before.location d ++ rest :=
      (List.prefix_append_right_inj _).mpr (List.take_prefix ..)
    exact there (sound.below (by simp [absent]) part fun same => there (same ▸ absent))

/-! ### Steps -/

namespace Stands

/-- A file in its place, with the directories above it. -/
theorem put (h : Stands due hidden before s) (here : due l)
    (place : s'.workingDirectory = s.workingDirectory) (sound : s'.tree.Sound) {bytes : Bytes}
    {mode : Nat} (file : s'.tree.at? l = some (.file bytes mode))
    (free : s.tree.at? l ≠ some .directory)
    (others : ∀ m ≠ l, s'.tree.at? m = s.tree.at? m ∨
      s.tree.at? m = none ∧ s'.tree.at? m = some .directory ∧ m <+: l) :
    Stands due hidden before s' where
  place := place.trans h.place
  sound := sound
  files m visible bytes' mode' was := by
    obtain ⟨_, _, kept⟩ := h.files m visible bytes' mode' was
    by_cases same : m = l
    · exact ⟨bytes, mode, same ▸ file⟩
    · rcases others m same with unchanged | ⟨absent, _⟩
      · exact ⟨_, _, unchanged.trans kept⟩
      · cases absent.symm.trans kept
  directories m visible was := by
    have kept := h.directories m visible was
    have other : m ≠ l := fun same => free (same ▸ kept)
    rcases others m other with unchanged | ⟨absent, _⟩
    · rw [unchanged, kept]
    · cases absent.symm.trans kept
  fresh m visible absent there := by
    by_cases same : m = l
    · exact ⟨l, here, same ▸ List.prefix_rfl⟩
    · rcases others m same with unchanged | ⟨_, _, part⟩
      · exact h.fresh m visible absent (unchanged ▸ there)
      · exact ⟨l, here, part⟩

/-- Directories on the way to something that is due. -/
theorem grow (h : Stands due hidden before s) (here : due l)
    (place : s'.workingDirectory = s.workingDirectory) (sound : s'.tree.Sound)
    (entries : ∀ m, s'.tree.at? m = s.tree.at? m ∨
      s.tree.at? m = none ∧ s'.tree.at? m = some .directory ∧ m <+: l) :
    Stands due hidden before s' where
  place := place.trans h.place
  sound := sound
  files m visible bytes mode was := by
    obtain ⟨_, _, kept⟩ := h.files m visible bytes mode was
    rcases entries m with unchanged | ⟨absent, _⟩
    · exact ⟨_, _, unchanged.trans kept⟩
    · cases absent.symm.trans kept
  directories m visible was := by
    have kept := h.directories m visible was
    rcases entries m with unchanged | ⟨absent, _⟩
    · rw [unchanged, kept]
    · cases absent.symm.trans kept
  fresh m visible absent there := by
    rcases entries m with unchanged | ⟨_, _, part⟩
    · exact h.fresh m visible absent (unchanged ▸ there)
    · exact ⟨l, here, part⟩

theorem writeBytes (h : Stands due hidden before s) (here : due (s.location p)) {base : Location}
    {rest : List Text} (way : s.Way p base rest) (bytes : Bytes) :
    Stands due hidden before (Action.writeBytes p bytes s).2 := by
  have above {m : Location} {k : Nat} (absent : s.tree.at? m = none)
      (made : m = Location.walk (s.start p) (p.parent.names.take k)) : m <+: s.location p := by
    rw [Path.parent, List.dropLast_eq_take, List.take_take] at made
    exact made ▸ way.firm.prefix_of_absent (made ▸ absent)
  rcases Action.writeBytes_cases p bytes s with
    ⟨s', run, writes⟩ | ⟨f, s', run, grows, _⟩
  · rw [run]
    refine h.put here (by rw [writes.beside]) (writes.sound h.sound) writes.written writes.free ?_
    intro m other
    refine (writes.others m other).imp_right ?_
    rintro ⟨absent, made, k, at_⟩
    exact ⟨absent, made, above absent at_⟩
  · rw [run]
    refine h.grow here (by rw [grows.beside]) (grows.sound h.sound) fun m => ?_
    refine (grows.entries m).imp_right ?_
    rintro ⟨absent, made, k, at_⟩
    exact ⟨absent, made, above absent (Tree.eq_walk_of_follow at_)⟩

/-- Only a file that was not there before may be removed. -/
theorem deleteFile (h : Stands due hidden before s)
    (absent : before.tree.at? (s.location p) = none) :
    Stands due hidden before (Action.deleteFile p s).2 := by
  rcases Action.deleteFile_cases p s with ⟨run, _⟩ | ⟨run, inner, bytes, mode, entry⟩ | ⟨f, run⟩
  · rwa [run]
  · rw [run]
    have others {m : Location} (was : before.tree.at? m ≠ none) :
        (s.erase (s.location p)).tree.at? m = s.tree.at? m := by
      rw [at?_erase inner, if_neg fun same : m = s.location p => was (same ▸ absent)]
    refine ⟨h.place, Action.sound_erase_file h.sound inner entry, ?_, ?_, ?_⟩
    · intro m visible bytes mode was
      rw [others (by simp [was])]
      exact h.files m visible bytes mode was
    · intro m visible was
      rw [others (by simp [was])]
      exact h.directories m visible was
    · intro m visible none there
      refine h.fresh m visible none fun gone => there ?_
      rw [at?_erase inner, gone, ite_self]
  · rwa [run]

/-- Only directories that were not there before may be removed. -/
theorem pruneUpTo (h : Stands due hidden before s) (straight : upName ∉ s.workingDirectory)
    (made : ∀ m, s.location stop <+: m → m ≠ s.location stop → m <+: s.location p →
      before.tree.at? m ≠ some .directory) :
    Stands due hidden before (Action.pruneUpTo stop p s).2 := by
  have prunes := Action.prunes_pruneUpTo straight stop p
  have others {m : Location} (was : before.tree.at? m = some .directory) :
      (Action.pruneUpTo stop p s).2.tree.at? m = s.tree.at? m := by
    refine (prunes.entries m).resolve_right ?_
    rintro ⟨_, _, below, other, part⟩
    exact made m below other part was
  refine ⟨?_, prunes.sound h.sound, ?_, ?_, ?_⟩
  · rw [prunes.beside, h.place]
  · intro m visible bytes mode was
    obtain ⟨bytes, mode, file⟩ := h.files m visible bytes mode was
    rcases prunes.entries m with same | ⟨open_, _⟩
    · exact ⟨bytes, mode, same.trans file⟩
    · cases open_.symm.trans file
  · intro m visible was
    rw [others was]
    exact h.directories m visible was
  · intro m visible absent there
    refine h.fresh m visible absent fun gone => there ?_
    rcases prunes.entries m with same | ⟨open_, _⟩
    · rw [same, gone]
    · cases open_.symm.trans gone

/-- A file that is given another mode is still a file. -/
theorem copyMode (h : Stands due hidden before s) (source target : Path) :
    Stands due hidden before (Action.copyMode source target s).2 := by
  unfold Action.copyMode
  refine Action.bind_rule h fun ⟨copied, mode⟩ s' asked _ => ?_
  obtain ⟨_, rfl⟩ := Action.askFault_eq_ok asked
  simp only [Action.change, Site.withMode]
  cases way : s.locate target with
  | error o => exact h
  | ok l =>
    rcases entry : s.tree.at? l with _ | ⟨_ | ⟨bytes, old⟩⟩
    · simpa only [entry] using h
    · simpa only [entry] using h
    · simp only [entry]
      have inner : l ≠ [] := by
        rintro rfl
        cases entry
      have touches := Touches.of_mode entry mode
      refine ⟨h.place, touches.sound h.sound, ?_, ?_, ?_⟩
      all_goals simp only [at?_insert inner]
      · intro m visible bytes' mode' was
        split
        · exact ⟨_, _, rfl⟩
        · exact h.files m visible bytes' mode' was
      · intro m visible was
        have kept := h.directories m visible was
        have other : m ≠ l := by
          rintro rfl
          cases entry.symm.trans kept
        rw [if_neg other, kept]
      · intro m visible absent there
        refine h.fresh m visible absent fun gone => there ?_
        have other : m ≠ l := by
          rintro rfl
          cases entry.symm.trans gone
        rw [if_neg other, gone]

end Stands

end Site

/-! ### Transactions -/

theorem Action.mapM_rule {α β : Type} {motive : Site → Prop} {f : α → Action β} {xs : List α}
    {s : Site} (step : ∀ x ∈ xs, ∀ s, motive s → motive (f x s).2) (here : motive s) :
    motive (xs.mapM f s).2 := by
  induction xs generalizing s with
  | nil => exact here
  | cons x rest ih =>
    obtain ⟨first, others⟩ := List.forall_mem_cons.mp step
    rw [List.mapM_cons]
    refine Action.bind_rule (first s here) fun _ s' _ here => ?_
    exact Action.bind_rule (ih others here) fun _ _ _ here => here

namespace Transaction

variable {α : Type} {t : Transaction} {s : Site} {motive inner : Site → Prop}

/-- What holds through a rollback and through a cleanup holds at the end of a transaction. -/
theorem finish_rule {accepts : α → Bool} {result : Except Failure α} (here : inner s)
    (weaker : ∀ s, inner s → motive s)
    (restoring : ∀ s, inner s → inner (t.strategy.rollback t.files t.project s).2)
    (discarding : ∀ s, inner s → motive (t.strategy.cleanup t.files t.project s).2) :
    motive (t.finish accepts result s).2 := by
  rw [(t.finish_apply accepts result s).1]
  split
  · unfold commit
    split
    · exact discarding s here
    · exact weaker s here
  · unfold rollback
    split
    · have back := restoring s here
      simp only [StateM.bind_apply, ExceptT.run]
      rcases run : t.strategy.rollback t.files t.project s with ⟨e | restored, s'⟩
      · rw [run] at back
        exact weaker s' back
      · rw [run] at back
        simp only
        split
        · have end_ := discarding s' back
          simp only [StateM.bind_apply]
          rcases gone : t.strategy.cleanup t.files t.project s' with ⟨e | ⟨⟩, s''⟩
          · rwa [gone] at end_
          · rwa [gone] at end_
        · exact weaker s' back
    · exact weaker s here

variable (inner) in
/-- A transaction leads from its snapshot over its action to its end. -/
theorem run_rule {accepts : α → Bool} {action : Action α} (enabled : t.enabled = true)
    (refused : ∀ e s', t.strategy.backup t.files t.project s = (.error e, s') → motive s')
    (acted : ∀ handle s', t.strategy.backup t.files t.project s = (.ok handle, s') →
      inner (action s').2)
    (weaker : ∀ s, inner s → motive s)
    (restoring : ∀ s, inner s → inner (t.strategy.rollback t.files t.project s).2)
    (discarding : ∀ s, inner s → motive (t.strategy.cleanup t.files t.project s).2) :
    motive (t.run accepts action s).2 := by
  unfold run begin
  rw [if_pos enabled]
  simp only [StateM.bind_apply, ExceptT.run, Action.bind_apply]
  rcases taken : t.strategy.backup t.files t.project s with ⟨e | handle, s₁⟩
  · exact refused e s₁ taken
  · exact finish_rule (t := { t with handle := some handle, isActive := true })
      (acted handle s₁ taken) weaker restoring discarding

end Transaction

end Layering
