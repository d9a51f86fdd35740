import Layering.Inspection.Rules
import Layering.Inspection.Scan
import Layering.Proofs.Listings
import Layering.Proofs.Reports

/-!
# Scans

A scan asks one question of each directory that may be a module. What it reports is the list of the
answers, in the order of the directories, and it changes nothing but the messages.
-/

namespace Layering

/-! ### Questions about the members of a list -/

theorem filterAuxM_eq_ok {ε α : Type} {f : α → Except ε Bool} {g : α → Bool} {xs : List α}
    (each : ∀ x ∈ xs, f x = .ok (g x)) (kept : List α) :
    xs.filterAuxM f kept = .ok ((xs.filter g).reverse ++ kept) := by
  induction xs generalizing kept with
  | nil => rfl
  | cons x xs ih =>
    obtain ⟨first, later⟩ := List.forall_mem_cons.mp each
    rw [List.filterAuxM, first]
    cases answer : g x with
    | true =>
      rw [List.filter_cons_of_pos answer, List.reverse_cons, List.append_assoc]
      exact ih later (x :: kept)
    | false =>
      rw [List.filter_cons_of_neg (by simp [answer])]
      exact ih later kept

theorem filterM_eq_ok {ε α : Type} {f : α → Except ε Bool} {g : α → Bool} {xs : List α}
    (each : ∀ x ∈ xs, f x = .ok (g x)) : xs.filterM f = .ok (xs.filter g) := by
  rw [List.filterM, filterAuxM_eq_ok each]
  simp [bind, Except.bind, pure, Except.pure]

theorem mapM_eq_ok {ε α β : Type} {f : α → Except ε β} {g : α → β} {xs : List α}
    (each : ∀ x ∈ xs, f x = .ok (g x)) : xs.mapM f = .ok (xs.map g) := by
  induction xs with
  | nil => rfl
  | cons x xs ih =>
    obtain ⟨first, later⟩ := List.forall_mem_cons.mp each
    rw [List.mapM_cons, first, ih later]
    rfl

theorem anyM_congr {ε α : Type} {f g : α → Except ε Bool} {xs : List α}
    (same : ∀ x ∈ xs, f x = g x) : xs.anyM f = xs.anyM g := by
  induction xs with
  | nil => rfl
  | cons x xs ih =>
    obtain ⟨first, later⟩ := List.forall_mem_cons.mp same
    rw [List.anyM, List.anyM, first, ih later]

theorem anyM_eq_false {ε α : Type} {f : α → Except ε Bool} {xs : List α}
    (each : ∀ x ∈ xs, f x = .ok false) : xs.anyM f = .ok false := by
  induction xs with
  | nil => rfl
  | cons x xs ih =>
    obtain ⟨first, later⟩ := List.forall_mem_cons.mp each
    rw [List.anyM, first]
    exact ih later

theorem filterM_congr {ε α : Type} {f g : α → Except ε Bool} {xs : List α}
    (same : ∀ x ∈ xs, f x = g x) : xs.filterM f = xs.filterM g := by
  suffices aux : ∀ kept, xs.filterAuxM f kept = xs.filterAuxM g kept by
    rw [List.filterM, List.filterM, aux]
  induction xs with
  | nil => exact fun kept => rfl
  | cons x xs ih =>
    intro kept
    obtain ⟨first, later⟩ := List.forall_mem_cons.mp same
    rw [List.filterAuxM, List.filterAuxM, first]
    exact congrArg _ (funext fun b => ih later _)

/-! ### Discovery -/

namespace Module

variable {s : Site} {root d : Path} {modules : List Module}

/-- The directories that may be modules, the root first. -/
def directories (s : Site) (root : Path) : List Path :=
  root :: ((s.directoriesBelow root).filter (·.all isSearched)).map fun names =>
    ⟨root.anchor, root.names ++ names⟩

/-- The module in a directory, if there is one and it can be read. -/
def at? (s : Site) (d : Path) : Option Module :=
  match read? s d with
  | .ok found => found
  | .error _ => none

theorem read?_eq_at? {found : Option Module} (read : read? s d = .ok found) :
    read? s d = .ok (at? s d) := by
  rw [at?, read]

/-- The modules of a project are those of its directories, all of which can be read. -/
theorem discover_eq_ok (found : discover s root = .ok modules) :
    (∀ d ∈ directories s root, read? s d = .ok (at? s d)) ∧
      modules = (directories s root).filterMap (at? s) := by
  obtain ⟨answers, asked, found⟩ := Except.bind_eq_ok found
  have each : ∀ d ∈ directories s root, read? s d = .ok (at? s d) := by
    rcases Job.mapM_cases (read? s) (directories s root) with ⟨_, _, each⟩ | ⟨_, _, _, _, _, fails, _⟩
    · intro d listed
      obtain ⟨found, read⟩ := each d listed
      exact read?_eq_at? read
    · cases asked.symm.trans fails
  have same := asked.symm.trans (mapM_eq_ok each)
  cases same
  refine ⟨each, (Except.ok.inj found).symm.trans ?_⟩
  rw [List.filterMap_map]
  rfl

theorem discover_of_read (each : ∀ d ∈ directories s root, read? s d = .ok (at? s d)) :
    discover s root = .ok ((directories s root).filterMap (at? s)) := by
  have asked := mapM_eq_ok each
  unfold directories at asked
  unfold discover
  simp only [asked, bind, Except.bind]
  rw [List.filterMap_map]
  rfl

end Module

/-! ### Reports -/

namespace Scan

variable {scan : Scan} {s s' : Site} {root : Path} {m : Module} {found : List Violation}

/-- What a detector finds in a module and the scan is to report. -/
def reports (scan : Scan) (s : Site) (m : Module) (d : Detector) : List Violation :=
  match d.detect s m with
  | .ok found => found.filter fun v => scan.wants v.rule && scan.settings.allowsRule v.rule
  | .error _ => []

/-- What the scan reports of a module. -/
def ofModule (scan : Scan) (s : Site) (m : Module) : List Violation :=
  scan.wanted.flatMap (scan.reports s m)

/-- What the scan reports of a directory. -/
def ofDirectory (scan : Scan) (s : Site) (d : Path) : List Violation :=
  ((Module.at? s d).map (scan.ofModule s)).getD []

/-- The detectors do not heed the messages. -/
def Deaf (scan : Scan) : Prop :=
  ∀ d ∈ scan.detectors, ∀ s s' m, Site.Untouched s s' → d.detect s' m = d.detect s m

theorem deaf_standard {coreTypes : List Text} (all : scan.detectors = Detector.standard coreTypes) :
    scan.Deaf := by
  rintro d listed s _ m ⟨said, rfl⟩
  rw [all] at listed
  simp only [Detector.standard, List.mem_cons, List.not_mem_nil, or_false] at listed
  rcases listed with rfl | rfl | rfl | rfl <;> rfl

theorem Deaf.ofModule (deaf : scan.Deaf) (untouched : s.Untouched s') (m : Module) :
    scan.ofModule s' m = scan.ofModule s m := by
  refine List.flatMap_congr fun d listed => ?_
  rw [reports, reports, deaf d (List.mem_of_mem_filter listed) s s' m untouched]

theorem consult_apply (m : Module) (d : Detector) (s : Site) :
    ∃ s', s.Untouched s' ∧ scan.consult m d s = (.ok (scan.reports s m d), s') := by
  unfold consult reports
  rw [Action.bind_apply, Action.get_apply]
  simp only
  cases d.detect s m with
  | ok found => exact ⟨s, .refl s, rfl⟩
  | error e => exact ⟨_, ⟨_, rfl⟩, rfl⟩

/-- Asking one after another changes nothing but messages, and the answers do not depend on those. -/
theorem mapM_apply {α : Type} {ask : α → Action (List Violation)} {answer : Site → α → List Violation}
    (xs : List α)
    (each : ∀ x ∈ xs, ∀ s, ∃ s', s.Untouched s' ∧ ask x s = (.ok (answer s x), s'))
    (same : ∀ x ∈ xs, ∀ s s', s.Untouched s' → answer s' x = answer s x) (s : Site) :
    ∃ s', s.Untouched s' ∧ xs.mapM ask s = (.ok (xs.map (answer s)), s') := by
  induction xs generalizing s with
  | nil => exact ⟨s, .refl s, rfl⟩
  | cons x xs ih =>
    obtain ⟨first, later⟩ := List.forall_mem_cons.mp each
    obtain ⟨_, same⟩ := List.forall_mem_cons.mp same
    obtain ⟨s₁, untouched, asked⟩ := first s
    obtain ⟨s₂, untouched', rest⟩ := ih later same s₁
    refine ⟨s₂, untouched.trans untouched', ?_⟩
    rw [Action.mapM_cons_apply asked rest, List.map_cons]
    congr 3
    exact List.map_congr_left fun y listed => same y listed s s₁ untouched

theorem check_apply (deaf : scan.Deaf) (m : Module) (s : Site) :
    ∃ s', s.Untouched s' ∧ scan.check m s = (.ok (scan.ofModule s m), s') := by
  obtain ⟨s₁, untouched, asked⟩ := mapM_apply scan.wanted
    (fun d _ s => consult_apply m d s)
    (fun d listed s s' untouched => by
      rw [reports, reports, deaf d (List.mem_of_mem_filter listed) s s' m untouched]) s
  unfold check
  rw [Action.bind_apply, asked]
  simp only
  have flat : (scan.wanted.map (scan.reports s m)).flatten = scan.ofModule s m := by
    rw [ofModule, List.flatMap_def]
  rw [flat]
  split
  · exact ⟨_, untouched.trans ⟨_, rfl⟩, rfl⟩
  · exact ⟨_, untouched, rfl⟩

/-- What a scan of a project reports. -/
def findings (scan : Scan) (s : Site) (root : Path) : List Violation :=
  (Module.directories s root).flatMap (scan.ofDirectory s)

theorem flatMap_ofModule (scan : Scan) (s : Site) (root : Path) :
    ((Module.directories s root).filterMap (Module.at? s)).flatMap (scan.ofModule s) =
      scan.findings s root := by
  rw [findings]
  induction Module.directories s root with
  | nil => rfl
  | cons d ds ih =>
    rw [List.flatMap_cons, List.filterMap_cons, ← ih, ofDirectory]
    cases Module.at? s d with
    | none => rfl
    | some m => rw [List.flatMap_cons]; rfl

/-- A scan of a project that can be read reports its findings. -/
theorem run_of_discover (deaf : scan.Deaf) {modules : List Module}
    (found : Module.discover s root = .ok modules) :
    ∃ s', s.Untouched s' ∧ scan.run root s = (.ok (scan.findings s root), s') := by
  obtain ⟨_, listed⟩ := Module.discover_eq_ok found
  have say (kind : Message.Kind) (text : Text) (s : Site) :
      ∃ s', s.Untouched s' ∧ Action.say kind text s = (.ok (), s') := ⟨_, ⟨_, rfl⟩, rfl⟩
  unfold run
  rw [Action.bind_apply]
  simp only [Action.askFault, Action.ask, found, Except.mapError]
  obtain ⟨s₁, first, said⟩ := say .step
    ("Scanning " ++ Text.ofNat modules.length ++ " module(s) under " ++ root.text) s
  obtain ⟨s₂, second, asked⟩ := mapM_apply modules (fun m _ s => check_apply deaf m s)
    (fun m _ s s' untouched => deaf.ofModule untouched m) s₁
  have flat : (modules.map (scan.ofModule s₁)).flatten = scan.findings s root := by
    rw [← List.flatMap_def, listed, ← flatMap_ofModule]
    exact List.flatMap_congr fun m _ => deaf.ofModule first m
  obtain ⟨s₃, third, said'⟩ := say .step
    ("Found " ++ Text.ofNat (scan.findings s root).length ++ " violation(s)") s₂
  refine ⟨s₃, (first.trans second).trans third, ?_⟩
  rw [Action.bind_apply, said]
  simp only
  rw [Action.bind_apply, asked]
  simp only [flat]
  rw [Action.bind_apply, said']
  rfl

/-- A scan that comes to an end reports its findings. -/
theorem run_eq_ok (deaf : scan.Deaf) (run : scan.run root s = (.ok found, s')) :
    s.Untouched s' ∧ found = scan.findings s root ∧
      ∀ d ∈ Module.directories s root, Module.read? s d = .ok (Module.at? s d) := by
  cases discovered : Module.discover s root with
  | error f =>
    unfold Scan.run at run
    rw [Action.bind_apply] at run
    simp only [Action.askFault, Action.ask, discovered, Except.mapError] at run
    cases run
  | ok modules =>
    obtain ⟨s₁, untouched, again⟩ := run_of_discover deaf discovered
    cases run.symm.trans again
    exact ⟨untouched, rfl, (Module.discover_eq_ok discovered).1⟩

/-- What a scan of a project reports does not depend on the messages. -/
theorem Deaf.findings (deaf : scan.Deaf) (untouched : s.Untouched s') :
    scan.findings s' root = scan.findings s root := by
  have at_ (d : Path) : Module.at? s' d = Module.at? s d := by
    obtain ⟨said, rfl⟩ := untouched
    rfl
  have directories : Module.directories s' root = Module.directories s root := by
    obtain ⟨said, rfl⟩ := untouched
    rfl
  unfold Scan.findings
  rw [directories]
  refine List.flatMap_congr fun d _ => ?_
  rw [ofDirectory, ofDirectory, at_]
  cases Module.at? s d with
  | none => rfl
  | some m => exact deaf.ofModule untouched m

end Scan

end Layering
