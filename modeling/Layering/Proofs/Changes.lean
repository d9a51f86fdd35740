import Layering.Proofs.Patches
import Layering.Proofs.Pending

/-!
# Changes

What the changes of a patch do to a tree: where each is due the tree may differ from the one before,
a file keeps its bytes unless a change writes it, and what a change writes is there afterwards.
-/

namespace Layering

namespace Site

/-- There is a file at a location that is new or has other bytes than before. -/
def Renewed (before s : Site) (m : Location) : Prop :=
  ∃ bytes mode, s.tree.at? m = some (.file bytes mode) ∧
    ∀ old, before.tree.at? m ≠ some (.file bytes old)

variable {before s s' : Site} {p : Path}

theorem Pending.of_untouched {due : Location → Prop} (h : Pending before s due)
    (untouched : s.Untouched s') : Pending before s' due := by
  obtain ⟨said, rfl⟩ := untouched
  exact ⟨h.place, h.held, h.sound, h.tree⟩

theorem LeadsToDirectory.of_opens (leads : s.LeadsToDirectory p) (opens : s.tree.Opens s'.tree)
    (place : s'.workingDirectory = s.workingDirectory) : s'.LeadsToDirectory p := by
  have entry : s'.entryAt p = some .directory := by
    rw [entryAt, location_of_workingDirectory place]
    exact opens _ leads.2
  refine ⟨?_, entry⟩
  rw [location_of_workingDirectory place, locate, start_of_workingDirectory place]
  refine opens.follow leads.1 fun _ => ?_
  rw [opens _ leads.2]
  simp

end Site

namespace Action

open Site

variable {α : Type} {f : α → Action Unit} {s s' : Site} {p : Path}

/-- What every step keeps is kept by all of them, also when one fails. -/
theorem forM_rule {motive : Site → Prop} {xs : List α}
    (step : ∀ x ∈ xs, ∀ s, motive s → motive (f x s).2) (here : motive s) :
    motive (xs.forM f s).2 := by
  induction xs generalizing s with
  | nil => exact here
  | cons x xs ih =>
    obtain ⟨first, step⟩ := List.forall_mem_cons.mp step
    have next := first s here
    rw [forM_cons_apply]
    -- The state after a refused action is the last one, and the rule holds of it as well.
    rcases run : f x s with ⟨_ | ⟨⟩, s₁⟩
    · rwa [run] at next
    · rw [run] at next
      exact ih step next

theorem discard_apply (x : Action α) (s : Site) :
    (x >>= fun _ => pure () : Action Unit) s = ((x s).1.map fun _ => (), (x s).2) := by
  rw [bind_apply]
  rcases x s with ⟨_ | _, _⟩ <;> rfl

/-- A directory that is there already is left alone. -/
theorem makeDirectories_of_leads (leads : s.LeadsToDirectory p) (m : Location) :
    (makeDirectories p s).2.tree.at? m = s.tree.at? m := by
  refine ((makes_makeDirectories p s).grows.entries m).resolve_right ?_
  rintro ⟨absent, _, k, way⟩
  have there := Tree.at?_of_take leads.1 (by rw [← entryAt, leads.2]; simp) k
  rw [← Tree.eq_walk_of_follow way] at there
  exact there absent

/-- Letting everyone run a file changes its mode at most. -/
theorem makeExecutable_cases (p : Path) (s : Site) :
    (makeExecutable p s).2 = s ∨ ∃ bytes old mode, s.entryAt p = some (.file bytes old) ∧
      (makeExecutable p s).2 = s.insert (s.location p) (.file bytes mode) := by
  unfold makeExecutable withMode
  rw [bind_apply, get_apply]
  simp only
  cases way : s.locate p with
  | error o => exact .inl rfl
  | ok l =>
    obtain rfl := eq_location_of_locate way
    rcases entry : s.tree.at? (s.location p) with _ | (_ | ⟨bytes, mode⟩)
    · simp only [entry]
      exact .inl rfl
    · simp only [entry]
      exact .inl rfl
    · simp only [entry]
      exact .inr ⟨bytes, mode, _, entry, rfl⟩

end Action

namespace Change

variable {before s s' : Site} {due : Location → Prop} {change : Change} {p : Path} {text : Text}
variable {c : RepairContext}

/-- A change writes a text to a file. -/
def Writes (change : Change) (p : Path) (text : Text) : Prop :=
  change = .write p text ∨ change = .update p text

theorem Writes.unique {q : Path} {text' : Text} (writes : change.Writes p text)
    (again : change.Writes q text') : q = p ∧ text' = text := by
  rcases writes with rfl | rfl <;> rcases again with same | same <;> cases same <;> exact ⟨rfl, rfl⟩

/-- A change concerns what is due, and directories that are there already. -/
inductive Due (before : Site) (due : Location → Prop) : Change → Prop
  | directory {p : Path} {base : Location} {rest : List Text} {name : Text}
    (way : before.Way p base rest) (here : due (before.location p ++ [name])) :
    Due before due (.directory p)
  | standing {p : Path} (leads : before.LeadsToDirectory p) : Due before due (.directory p)
  | file {change : Change} {p : Path} {text : Text} {base : Location} {rest : List Text}
    (writes : change.Writes p text) (way : before.Way p base rest) (inner : rest ≠ [])
    (here : due (before.location p)) : Due before due change
  | executable {p : Path} (fresh : before.entryAt p = none) (here : due (before.location p)) :
    Due before due (.executable p)
  | note (text : Text) : Due before due (.note text)

/-- What comes of writing a file in full: all that was there stays but for the file, which has the
bytes unless writing fails. -/
inductive Written (s : Site) (p : Path) (bytes : Bytes) : Except Failure Unit × Site → Prop
  | done {s' : Site} (writes : Site.Writes s s' p bytes) : Written s p bytes (.ok (), s')
  | known {mode : Nat} (there : s.entryAt p = some (.file bytes mode)) :
    Written s p bytes (.ok (), s)
  | refused {e : Failure} : Written s p bytes (.error e, s)
  | failed {e : Failure} {s' : Site} (grows : s.Grows s' p.parent)
    (same : ∀ m, s'.tree.at? m = (Action.makeDirectories p.parent s).2.tree.at? m) :
    Written s p bytes (.error e, s')

theorem written_writeBytes (c : RepairContext) (p : Path) (bytes : Bytes) (s : Site) :
    Written s p bytes (c.writeBytes p bytes s) := by
  unfold RepairContext.writeBytes
  split
  · exact .refused
  · rcases Action.writeBytes_cases p bytes s with ⟨s', run, writes⟩ | ⟨f, s', run, grows, same⟩
    · rw [run]
      exact .done writes
    · rw [run]
      exact .failed grows same

theorem apply_update (c : RepairContext) (p : Path) (text : Text) (s : Site) :
    c.apply (.update p text) s =
      ((c.update p text s).1.map fun _ => (), (c.update p text s).2) :=
  Action.discard_apply (c.update p text) s

theorem apply_executable (c : RepairContext) (p : Path) (s : Site) :
    c.apply (.executable p) s =
      ((Action.makeExecutable p s).1.map fun _ => (), (Action.makeExecutable p s).2) :=
  Action.discard_apply (Action.makeExecutable p) s

theorem written_apply (writes : change.Writes p text) (c : RepairContext) (s : Site) :
    Written s p (Utf8.encode text) (c.apply change s) := by
  rcases writes with rfl | rfl
  · exact written_writeBytes c p _ s
  · rw [apply_update]
    have finish : Written s p (Utf8.encode text)
        (((c.writeBytes p (Utf8.encode text) >>= fun _ => pure true) s).1.map fun _ => (),
          ((c.writeBytes p (Utf8.encode text) >>= fun _ => pure true) s).2) := by
      have written := written_writeBytes c p (Utf8.encode text) s
      rw [Action.bind_apply]
      rcases run : c.writeBytes p (Utf8.encode text) s with ⟨e | ⟨⟩, s'⟩
      · rwa [run] at written
      · rwa [run] at written
    rw [RepairContext.update]
    simp only
    rw [Action.bind_apply, Action.askFault, Action.ask_apply]
    cases asked : s.exists? p with
    | error f => exact .refused
    | ok there =>
      cases there with
      | false => exact finish
      | true =>
        simp only [Except.mapError, if_true]
        rw [Action.bind_apply, Action.ask_apply]
        cases read : s.read p with
        | error f =>
          simp only [Site.readBytes, read]
          exact .refused
        | ok contents =>
          obtain ⟨bytes, mode⟩ := contents
          simp only [Site.readBytes, read, Except.map, Except.mapError]
          -- An update reads the file first, and leaves it alone when it holds the text already.
          by_cases same : bytes = Utf8.encode text
          · rw [if_pos same]
            exact .known (same ▸ (Site.read_eq_ok.mp read).2)
          · rw [if_neg same]
            exact finish

namespace Written

variable {bytes : Bytes} {ended : Except Failure Unit × Site}

theorem place (h : Written s p bytes ended) :
    ended.2.workingDirectory = s.workingDirectory := by
  cases h with
  | done writes => rw [writes.beside]
  | known => rfl
  | refused => rfl
  | failed grows => rw [grows.beside]

/-- A file keeps its bytes, unless it is the one that is written. -/
theorem keeps (h : Written s p bytes ended) {m : Location} {held : Bytes} {mode : Nat}
    (file : s.tree.at? m = some (.file held mode)) :
    ∃ new mode, ended.2.tree.at? m = some (.file new mode) ∧
      (new = held ∨ m = s.location p ∧ new = bytes) := by
  have same {s' : Site} (entry : s'.tree.at? m = s.tree.at? m) :
      ∃ new mode, s'.tree.at? m = some (.file new mode) ∧
        (new = held ∨ m = s.location p ∧ new = bytes) := ⟨held, mode, entry.trans file, .inl rfl⟩
  cases h with
  | known => exact same rfl
  | refused => exact same rfl
  | failed grows =>
    exact same ((grows.entries m).resolve_right fun ⟨absent, _⟩ => nomatch absent.symm.trans file)
  | done writes =>
    by_cases here : m = s.location p
    · subst here
      exact ⟨bytes, _, writes.written, .inr ⟨rfl, rfl⟩⟩
    · exact same ((writes.others m here).resolve_right fun ⟨absent, _⟩ =>
        nomatch absent.symm.trans file)

theorem there (h : Written s p bytes ended) (ok : ended.1 = .ok ()) :
    ∃ mode, ended.2.tree.at? (s.location p) = some (.file bytes mode) := by
  cases h with
  | done writes => exact ⟨_, writes.written⟩
  | known there => exact ⟨_, there⟩
  | refused => cases ok
  | failed => cases ok

theorem pending (h : Written s p bytes ended) (pending : before.Pending s due) {base : Location}
    {rest : List Text} (way : before.Way p base rest) (inner : rest ≠ [])
    (here : due (before.location p)) : before.Pending ended.2 due := by
  cases h with
  | done writes => exact pending.writes way here writes
  | known => exact pending
  | refused => exact pending
  | failed grows same =>
    obtain ⟨name, _, _, at_⟩ := way.last inner
    have made := pending.makeDirectories (way.parent inner) (at_ ▸ here)
    exact pending.advance grows.beside grows.sound (made.tree.congr same)

end Written

/-- A change of what is due keeps everything else as it was before. -/
theorem pending_apply (c : RepairContext) (change_due : change.Due before due)
    (pending : before.Pending s due) : before.Pending (c.apply change s).2 due := by
  cases change_due with
  | directory way here => exact pending.makeDirectories way here
  | @standing p leads =>
    have grows := (Action.makes_makeDirectories p s).grows
    have leads' := leads.of_opens pending.tree.opens pending.place
    exact pending.advance grows.beside grows.sound
      (pending.tree.congr (Action.makeDirectories_of_leads leads'))
  | file writes way inner here => exact (written_apply writes c s).pending pending way inner here
  | @executable p fresh here =>
    rw [apply_executable]
    exact pending.makeExecutable fresh here
  | note text => exact pending.of_untouched ⟨[⟨.step, text⟩], rfl⟩

/-- A change writes something else than what was in a file before. -/
def Renews (before : Site) (change : Change) : Prop :=
  ∀ p text, change.Writes p text → ∀ mode,
    before.entryAt p ≠ some (.file (Utf8.encode text) mode)

theorem Renews.of_writes (writes : change.Writes p text)
    (new : ∀ mode, before.entryAt p ≠ some (.file (Utf8.encode text) mode)) :
    change.Renews before := by
  intro q text' again
  obtain ⟨rfl, rfl⟩ := writes.unique again
  exact new

/-- A change that writes nothing renews all that it writes. -/
theorem Renews.of_nothing (nothing : ∀ p text, ¬change.Writes p text) : change.Renews before :=
  fun p text writes => absurd writes (nothing p text)

/-- A file keeps its bytes, unless a change writes it. -/
theorem keeps_apply (c : RepairContext) (change : Change) {s : Site} {m : Location} {held : Bytes}
    {mode : Nat} (file : s.tree.at? m = some (.file held mode)) :
    ∃ new mode, (c.apply change s).2.tree.at? m = some (.file new mode) ∧ (new = held ∨
      ∃ p text, change.Writes p text ∧ m = s.location p ∧ new = Utf8.encode text) := by
  have written {p : Path} {text : Text} (writes : change.Writes p text) :=
    (written_apply writes c s).keeps file
  cases change with
  | directory p =>
    refine ⟨held, mode, ?_, .inl rfl⟩
    rw [← file]
    exact ((Action.makes_makeDirectories p s).grows.entries m).resolve_right
      fun ⟨absent, _⟩ => nomatch absent.symm.trans file
  | write p text =>
    obtain ⟨new, mode, there, same | ⟨here, same⟩⟩ := written (.inl rfl)
    · exact ⟨new, mode, there, .inl same⟩
    · exact ⟨new, mode, there, .inr ⟨p, text, .inl rfl, here, same⟩⟩
  | update p text =>
    obtain ⟨new, mode, there, same | ⟨here, same⟩⟩ := written (.inr rfl)
    · exact ⟨new, mode, there, .inl same⟩
    · exact ⟨new, mode, there, .inr ⟨p, text, .inr rfl, here, same⟩⟩
  | executable p =>
    rw [apply_executable]
    -- Only the mode changes here; the bytes of the file are those held before.
    rcases Action.makeExecutable_cases p s with same | ⟨bytes, old, mode', entry, made⟩
    · exact ⟨held, mode, by rw [same, file], .inl rfl⟩
    · have inner : s.location p ≠ [] := by
        intro outer
        rw [Site.entryAt, outer] at entry
        cases entry
      simp only [made, Site.at?_insert inner]
      split
      next here =>
        rw [here] at file
        cases file.symm.trans entry
        exact ⟨held, mode', rfl, .inl rfl⟩
      next => exact ⟨held, mode, file, .inl rfl⟩
  | note text => exact ⟨held, mode, file, .inl rfl⟩

theorem place_apply (c : RepairContext) (change : Change) (s : Site) :
    (c.apply change s).2.workingDirectory = s.workingDirectory := by
  cases change with
  | directory p =>
    change (Action.makeDirectories p s).2.workingDirectory = _
    rw [(Action.makes_makeDirectories p s).grows.beside]
  | write p text => exact (written_apply (.inl rfl) c s).place
  | update p text => exact (written_apply (.inr rfl) c s).place
  | executable p =>
    rw [apply_executable]
    rcases Action.makeExecutable_cases p s with same | ⟨_, _, _, _, made⟩
    · rw [same]
    · rw [made]
      rfl
  | note text => rfl

/-- What is renewed stays so under changes that all renew. -/
theorem renewed_apply (c : RepairContext) (renews : change.Renews before)
    (place : s.workingDirectory = before.workingDirectory) {m : Location}
    (renewed : before.Renewed s m) : before.Renewed (c.apply change s).2 m := by
  obtain ⟨bytes, mode, file, fresh⟩ := renewed
  obtain ⟨new, mode', there, rfl | ⟨p, text, writes, rfl, rfl⟩⟩ := keeps_apply c change file
  · exact ⟨new, mode', there, fresh⟩
  · refine ⟨_, mode', there, fun old => ?_⟩
    rw [Site.location_of_workingDirectory place]
    exact renews p text writes old

theorem renewed_of_writes (writes : change.Writes p text) (renews : change.Renews before)
    (place : s.workingDirectory = before.workingDirectory)
    (ok : (c.apply change s).1 = .ok ()) :
    before.Renewed (c.apply change s).2 (before.location p) := by
  obtain ⟨mode, there⟩ := (written_apply writes c s).there ok
  rw [Site.location_of_workingDirectory place] at there
  exact ⟨_, mode, there, renews p text writes⟩

variable {changes : List Change}

theorem pending_forM (all : ∀ change ∈ changes, change.Due before due)
    (pending : before.Pending s due) : before.Pending (changes.forM c.apply s).2 due :=
  Action.forM_rule (motive := fun s => before.Pending s due)
    (fun change member _ => pending_apply c (all change member)) pending

theorem renewed_forM (renews : ∀ change ∈ changes, change.Renews before)
    (place : s.workingDirectory = before.workingDirectory) {m : Location}
    (renewed : before.Renewed s m) : before.Renewed (changes.forM c.apply s).2 m := by
  refine (Action.forM_rule (motive := fun s => s.workingDirectory = before.workingDirectory ∧
    before.Renewed s m) ?_ ⟨place, renewed⟩).2
  intro change member s here
  exact ⟨(place_apply c change s).trans here.1,
    renewed_apply c (renews change member) here.1 here.2⟩

/-- Where all changes succeed, each file that one of them writes is renewed. -/
theorem renewed_of_forM (renews : ∀ change ∈ changes, change.Renews before)
    (place : s.workingDirectory = before.workingDirectory)
    (run : changes.forM c.apply s = (.ok (), s')) (member : change ∈ changes)
    (writes : change.Writes p text) : before.Renewed s' (before.location p) := by
  induction changes generalizing s with
  | nil => cases member
  | cons first rest ih =>
    have place' := (place_apply c first s).trans place
    rw [Action.forM_cons_apply] at run
    rcases done : c.apply first s with ⟨e | ⟨⟩, s₁⟩
    · rw [done] at run
      cases run
    · rw [done] at run place'
      obtain ⟨head, tail⟩ := List.forall_mem_cons.mp renews
      -- The change that writes the path does it here or later. Once the path is renewed, the
      -- changes behind keep it so.
      rcases List.mem_cons.mp member with rfl | later
      · have here := renewed_of_writes writes head place (c := c) (congrArg (·.1) done)
        rw [done] at here
        have last : before.Renewed (rest.forM c.apply s₁).2 (before.location p) :=
          renewed_forM tail place' here
        have run' : rest.forM c.apply s₁ = (.ok (), s') := run
        rwa [run'] at last
      · exact ih tail place' run later

end Change

end Layering
