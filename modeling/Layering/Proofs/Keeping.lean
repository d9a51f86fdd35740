import Layering.Proofs.Rollback

/-!
# Files that are kept

What the operations on files leave as it is: everything but the file that they are about. Directories
come and go, but not above a file. From this follows what the strategies leave alone when they take,
restore and discard snapshots of other files.
-/

namespace Layering

namespace Site

variable {s s' s'' : Site} {kept : Location → Prop} {p : Path}

/-- Nothing but the tree has changed, and some of its files have not. -/
structure Keeps (kept : Location → Prop) (s s' : Site) : Prop where
  beside : s' = { s with tree := s'.tree }
  sound : s.tree.Sound → s'.tree.Sound
  files : ∀ l, kept l → ∀ bytes mode, s.tree.at? l = some (.file bytes mode) →
    s'.tree.at? l = some (.file bytes mode)

namespace Keeps

theorem refl (kept : Location → Prop) (s : Site) : Keeps kept s s :=
  ⟨rfl, id, fun _ _ _ _ => id⟩

theorem trans (first : Keeps kept s s') (second : Keeps kept s' s'') : Keeps kept s s'' where
  beside := by rw [second.beside, first.beside]
  sound sound := second.sound (first.sound sound)
  files l here bytes mode file := second.files l here bytes mode (first.files l here bytes mode file)

theorem place (keeps : Keeps kept s s') : s'.workingDirectory = s.workingDirectory := by
  rw [keeps.beside]

theorem of_grows (grows : Grows s s' p) : Keeps kept s s' where
  beside := grows.beside
  sound := grows.sound
  files l _ bytes mode file := by
    rcases grows.entries l with same | ⟨absent, _⟩
    · exact same ▸ file
    · cases absent.symm.trans file

theorem of_writes {bytes : Bytes} (other : ¬kept (s.location p)) (writes : Writes s s' p bytes) :
    Keeps kept s s' where
  beside := writes.beside
  sound := writes.sound
  files l here _ _ file := by
    rcases writes.others l (fun same => other (same ▸ here)) with same | ⟨absent, _⟩
    · exact same ▸ file
    · cases absent.symm.trans file

theorem of_clears (other : ¬kept (s.location p)) (clears : Clears s s' p) : Keeps kept s s' where
  beside := clears.touches.beside
  sound := clears.touches.sound
  files l here _ _ file := by
    rw [clears.other fun same => other (same ▸ here)]
    exact file

theorem of_prunes {stop way : Location} (prunes : Action.Prunes s s' stop way) :
    Keeps kept s s' where
  beside := prunes.beside
  sound := prunes.sound
  files l _ _ _ file := by
    rcases prunes.entries l with same | ⟨directory, _⟩
    · exact same ▸ file
    · cases directory.symm.trans file

theorem of_file {l : Location} (other : ¬kept l) (inner : l ≠ [])
    (parent : s.tree.at? l.dropLast = some .directory) (leaf : s.tree.at? l ≠ some .directory)
    (bytes : Bytes) (mode : Nat) : Keeps kept s (s.insert l (.file bytes mode)) where
  beside := rfl
  sound := (Touches.of_file inner parent leaf bytes mode).sound
  files m here _ _ file := by
    rwa [at?_insert inner, if_neg fun same => other (by rwa [← same])]

end Keeps

end Site

namespace Action

open Site

variable {before : Site} {kept : Location → Prop} {α β : Type} {p : Path}

/-- An action that keeps some files, whatever the tree in which it is run. -/
def Keeps (before : Site) (kept : Location → Prop) (x : Action α) : Prop :=
  ∀ s, s.workingDirectory = before.workingDirectory → Site.Keeps kept s (x s).2

namespace Keeps

theorem pure (a : α) : Keeps before kept (pure a : Action α) := fun s _ => .refl kept s

theorem bind {x : Action α} {f : α → Action β} (first : Keeps before kept x)
    (later : ∀ a, Keeps before kept (f a)) : Keeps before kept (x >>= f) := by
  intro s place
  have keeps := first s place
  rw [bind_apply]
  rcases run : x s with ⟨e | a, s'⟩
  · rwa [run] at keeps
  · rw [run] at keeps
    exact keeps.trans (later a s' (keeps.place.trans place))

/-- What is done with an answer may rest on the answer being true. -/
theorem ask_bind {question : Site → Except Failure α} {f : α → Action β}
    (later : ∀ s a, s.workingDirectory = before.workingDirectory → question s = .ok a →
      Keeps before kept (f a)) : Keeps before kept (ask question >>= f) := by
  intro s place
  rw [bind_apply, ask_apply]
  cases answer : question s with
  | error e => exact .refl kept s
  | ok a => exact later s a place answer s place

theorem get_bind {f : Site → Action β} (later : ∀ s, Keeps before kept (f s)) :
    Keeps before kept (get >>= f) := fun s place => by
  rw [bind_apply, get_apply]
  exact later s s place

theorem ask (question : Site → Except Failure α) : Keeps before kept (ask question) :=
  fun s _ => .refl kept s

theorem askFault (question : Site → Except Fault α) : Keeps before kept (askFault question) :=
  fun s _ => .refl kept s

theorem change {f : Site → Except Fault Site} (each : ∀ s s',
    s.workingDirectory = before.workingDirectory → f s = .ok s' → Site.Keeps kept s s') :
    Keeps before kept (change f) := by
  intro s place
  unfold Action.change
  cases done : f s with
  | ok s' => exact each s s' place done
  | error e => exact .refl kept s

theorem throw (e : Failure) : Keeps before kept (throw e : Action α) := fun s _ => .refl kept s

theorem attempt {x : Action α} (keeps : Keeps before kept x) : Keeps before kept (attempt x) :=
  keeps

theorem orFault {target : Path} {copy : Option Path} {x : Action Restoration}
    (keeps : Keeps before kept x) : Keeps before kept (Restoration.orFault target copy x) := by
  refine bind keeps.attempt fun result => ?_
  cases result with
  | ok r => exact pure r
  | error e =>
    simp only
    cases e.fault? with
    | some f => exact pure _
    | none => exact throw e

theorem mapM {xs : List α} {f : α → Action β} (each : ∀ x ∈ xs, Keeps before kept (f x)) :
    Keeps before kept (xs.mapM f) := by
  induction xs with
  | nil => exact pure []
  | cons x rest ih =>
    obtain ⟨first, others⟩ := List.forall_mem_cons.mp each
    rw [List.mapM_cons]
    exact first.bind fun y => (ih others).bind fun ys => pure _

theorem forM {xs : List α} {f : α → Action Unit} (each : ∀ x ∈ xs, Keeps before kept (f x)) :
    Keeps before kept (xs.forM f) := by
  induction xs with
  | nil => exact pure ()
  | cons x rest ih =>
    obtain ⟨first, others⟩ := List.forall_mem_cons.mp each
    exact first.bind fun _ => ih others

theorem makeDirectories (p : Path) : Keeps before kept (makeDirectories p) :=
  fun s _ => .of_grows (makes_makeDirectories p s).grows

theorem pruneUpTo (forward : upName ∉ before.workingDirectory) (stop p : Path) :
    Keeps before kept (pruneUpTo stop p) := by
  intro s place
  rw [← place] at forward
  exact .of_prunes (prunes_pruneUpTo forward stop p)

variable (other : ¬kept (before.location p))
include other

theorem deleteFile : Keeps before kept (deleteFile p) := by
  intro s place
  rw [← location_of_workingDirectory place] at other
  rcases deleteFile_clears p s with ⟨s', run, clears⟩ | ⟨f, run⟩
  · rw [run]
    exact .of_clears other clears
  · rw [run]
    exact .refl kept s

theorem writeBytes (bytes : Bytes) : Keeps before kept (writeBytes p bytes) := by
  intro s place
  rw [← location_of_workingDirectory place] at other
  rcases writeBytes_cases p bytes s with ⟨s', run, writes⟩ | ⟨f, s', run, grows, _⟩
  · rw [run]
    exact .of_writes other writes
  · rw [run]
    exact .of_grows grows

theorem copyFile (source : Path) : Keeps before kept (copyFile source p) := by
  intro s place
  rw [← location_of_workingDirectory place] at other
  rcases copyFile_cases source p s with ⟨bytes, mode, _, inner, parent, leaf, run⟩ | ⟨f, run⟩
  · rw [run]
    exact .of_file other inner parent leaf bytes mode
  · rw [run]
    exact .refl kept s

theorem copyMode (source : Path) : Keeps before kept (copyMode source p) := by
  refine bind (askFault _) fun (_, mode) => change fun s s' place done => ?_
  rw [← location_of_workingDirectory place] at other
  unfold withMode at done
  cases way : s.locate p with
  | error o =>
    rw [way] at done
    cases done
  | ok l =>
    rw [← eq_location_of_locate way] at other
    simp only [way] at done
    -- Setting a mode writes the file's own bytes again.
    split at done
    next bytes old there =>
      cases done
      have inner : l ≠ [] := by
        rintro rfl
        cases there
      refine ⟨rfl, (Touches.of_mode there mode).sound, fun m here _ _ file => ?_⟩
      rwa [at?_insert inner, if_neg fun same : m = l => other (same ▸ here)]
    next =>
      cases done
      exact .refl kept s

end Keeps

end Action

/-! ### Snapshots -/

namespace InMemory

variable {before : Site} {target : Path} {files : List Path}

theorem keeps_restore (forward : upName ∉ before.workingDirectory) (target : Path) :
    Action.Keeps before (fun _ => False) (restore target) := by
  refine .get_bind fun s => ?_
  split
  · exact .pure _
  next state _ =>
    refine .orFault ?_
    cases state with
    | contents bytes => exact (Action.Keeps.writeBytes not_false bytes).bind fun _ => .pure _
    | absent ancestor =>
      exact (Action.Keeps.deleteFile not_false).bind fun _ =>
        (Action.Keeps.pruneUpTo forward _ _).bind fun _ => .pure _

end InMemory

namespace Staged

variable {before : Site} {kept : Location → Prop} {directory project target : Path}
variable {files : List Path}

/-- Neither the place of a file is kept nor that of its copy or its marker. -/
structure Free (before : Site) (kept : Location → Prop) (project target : Path) : Prop where
  place : ¬kept (before.location target)
  copy : ∀ q, copyPath standardDirectory before target project = .ok q → ¬kept (before.location q)
  marker : ∀ q, markerPath standardDirectory before target project = .ok q →
    ¬kept (before.location q)

/-- The copy and the marker of a free file are not kept wherever they are asked for. -/
theorem Free.ask_bind {α : Type} {f : Path → Path → Action α} (free : Free before kept project target)
    (later : ∀ copy marker, ¬kept (before.location copy) → ¬kept (before.location marker) →
      Action.Keeps before kept (f copy marker)) :
    Action.Keeps before kept (do
      let copy ← Action.ask fun s => copyPath standardDirectory s target project
      let marker ← Action.ask fun s => markerPath standardDirectory s target project
      f copy marker) := by
  refine .ask_bind fun s copy place copyAsked => .ask_bind fun s' marker place' markerAsked => ?_
  rw [copyPath, stagedPath_of_workingDirectory place] at copyAsked
  rw [markerPath, stagedPath_of_workingDirectory place'] at markerAsked
  exact later copy marker (free.copy copy copyAsked) (free.marker marker markerAsked)

theorem keeps_stage (free : Free before kept project target) :
    Action.Keeps before kept (stage standardDirectory target project) := by
  refine free.ask_bind fun copy marker copyFree markerFree => ?_
  refine (Action.Keeps.deleteFile copyFree).bind fun _ =>
    (Action.Keeps.deleteFile markerFree).bind fun _ => (Action.Keeps.askFault _).bind fun there => ?_
  cases there with
  | true =>
    exact (Action.Keeps.makeDirectories _).bind fun _ =>
      (Action.Keeps.copyFile copyFree target).bind fun _ => .pure _
  | false =>
    exact (Action.Keeps.askFault _).bind fun _ =>
      (Action.Keeps.writeBytes markerFree _).bind fun _ => .pure _

theorem keeps_stageAll (free : ∀ target ∈ files, Free before kept project target) :
    Action.Keeps before kept (stageAll standardDirectory project files) := by
  induction files with
  | nil => exact .pure _
  | cons target rest ih =>
    obtain ⟨first, others⟩ := List.forall_mem_cons.mp free
    exact (keeps_stage first).bind fun _ => (ih others).bind fun _ => .pure _

theorem keeps_backup (free : ∀ target ∈ files, Free before kept project target) :
    Action.Keeps before kept (backup standardDirectory files project) := by
  refine (Action.Keeps.attempt (keeps_stageAll free)).bind fun result => ?_
  cases result with
  | ok absent => exact .pure _
  | error e =>
    simp only
    cases e.fault? with
    | some f => exact .throw _
    | none => exact .throw _

/-- Of a file that is brought back, what is staged stays. -/
theorem keeps_restore (forward : upName ∉ before.workingDirectory)
    (other : ¬kept (before.location target)) :
    Action.Keeps before kept (restore standardDirectory target project) := by
  unfold restore
  refine (Action.Keeps.ask _).bind fun copy => (Action.Keeps.ask _).bind fun marker =>
    .orFault ((Action.Keeps.askFault _).bind fun copied => ?_)
  cases copied with
  | true =>
    exact (Action.Keeps.ask _).bind fun bytes => (Action.Keeps.writeBytes other bytes).bind fun _ =>
      (Action.Keeps.copyMode other copy).bind fun _ => .pure _
  | false =>
    refine (Action.Keeps.askFault _).bind fun marked => ?_
    cases marked with
    | true =>
      exact (Action.Keeps.ask _).bind fun _ => (Action.Keeps.deleteFile other).bind fun _ =>
        (Action.Keeps.pruneUpTo forward _ _).bind fun _ => .pure _
    | false => exact .pure _

theorem keeps_forgetTarget (forward : upName ∉ before.workingDirectory)
    (free : Free before kept project target) :
    Action.Keeps before kept (forgetTarget standardDirectory target project) := by
  refine free.ask_bind fun copy marker copyFree markerFree => ?_
  have forget {staged : Path} (other : ¬kept (before.location staged)) :
      Action.Keeps before kept (forget project staged) :=
    (Action.Keeps.deleteFile other).bind fun _ => .pruneUpTo forward _ _
  exact (forget copyFree).bind fun _ => forget markerFree

end Staged

end Layering
