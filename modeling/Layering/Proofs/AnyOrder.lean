import Layering.Proofs.ConfinedActions
import Layering.Proofs.LastingTargets
import Layering.Proofs.Leftovers

/-!
# Runs in any order

Where repairs are confined to the files that their fixers declare, the order in which the workers take
their steps does not show: a run reports what the run reports that takes one lane after another, and
leaves the same files. Nothing is left of its snapshots but what transactions keep that could not
restore one of their files.
-/

namespace Layering

open Site

/-- The declared files of a job are known when it was planned. -/
theorem Job.knownTo_planAll {table : FixerTable} {settings : Settings} {c : RepairContext} {s : Site}
    {violations : List Violation} {job : Job} (straight : upName ∉ s.workingDirectory)
    (member : job ∈ planAll table settings c s violations) : job.KnownTo c s job.Owns := by
  intro planned f candidate
  have each := (planned_of_mem_planAll table settings c s violations member).known planned
  obtain ⟨files, declared⟩ := each f candidate
  refine ⟨files, ⟨planned, candidate, declared⟩, fun file listed => ?_⟩
  have owned := mem_targets_of_mem_planAll member each candidate declared listed
  rwa [resolve_eq straight] at owned

namespace Remediation

variable {r : Remediation} {c : RepairContext} {s : Site} {violations : List Violation} {p : Pool}

/-- The run that takes one lane after another ends with a message. -/
theorem run_eq_serial (r : Remediation) (c : RepairContext) (violations : List Violation) (s : Site) :
    (r.run c violations s).1 = (Pool.serial r c s (r.jobs c s violations)).board.report ∧
      (Pool.serial r c s (r.jobs c s violations)).site.Untouched (r.run c violations s).2 :=
  ⟨rfl, r.untouched_say .step _ _⟩

/-- A step for a job changes nothing of another lane, neither its files nor what is remembered of them.
At the end of a run the report and the files are those of the run that takes one lane after another; what
is remembered then was left by a transaction that could not restore one of its files, and that run
remembers the same. -/
theorem same_in_any_order (memory : r.strategy = InMemory.strategy) (unlimited : r.maxFailures = none)
    (separate : Job.Separate c s (r.jobs c s violations)) (empty : s.held = [])
    (way : Pool.Steps r c (.start s (r.jobs c s violations)) p) :
    (∀ before w after job stage, p.active = before ++ w :: after → w.current = some (job, stage) →
      ∀ lane ∈ Lane.ofJobs (r.jobs c s violations), job ∉ lane → ∀ l, lane.Owns l →
        let t := (p.turn r c before w after).site
        t.tree.at? l = p.site.tree.at? l ∧
          Entries.get? ⟨.root, l⟩ t.held = Entries.get? ⟨.root, l⟩ p.site.held) ∧
    (p.IsOver →
      p.board.report = (r.run c violations s).1 ∧
      (∀ l bytes mode, p.site.tree.at? l = some (.file bytes mode) ↔
        (r.run c violations s).2.tree.at? l = some (.file bytes mode)) ∧
      (∀ key ∈ p.site.held.map (·.1),
        Pool.Unrestored r c (.start s (r.jobs c s violations)) p key) ∧
      ∀ l, Job.Due (r.jobs c s violations) l →
        (Entries.get? ⟨.root, l⟩ p.site.held).map Held.bytes? =
          (Entries.get? ⟨.root, l⟩ (r.run c violations s).2.held).map Held.bytes?) := by
  have numbered : Lane.Numbered (r.jobs c s violations) :=
    Job.numbered_planAll r.table r.settings c s violations
  have known : ∀ job ∈ r.jobs c s violations, job.KnownTo c s job.Owns :=
    fun job member => Job.knownTo_planAll separate.straight member
  have parallel {q : Pool} (way : Pool.Steps r c (.start s (r.jobs c s violations)) q) :=
    Pool.parallel_of_steps memory unlimited numbered separate known empty way
  obtain ⟨taken, here⟩ := parallel way
  -- What a single step does, and then what the run and the serial one have come to.
  refine ⟨fun before w after job stage chosen turn lane one outside l owned => ?_, fun finished => ?_⟩
  · have member : w ∈ p.active := chosen ▸ List.mem_append_right _ List.mem_cons_self
    obtain ⟨fares, beside⟩ := here.beside_next memory numbered separate known member turn
    have inJobs := (here.known numbered member).1 job (Work.mem_pending turn)
    have others : ∀ m, lane.Owns m → Job.Due (r.jobs c s violations) m ∧ ¬job.Owns m := by
      intro m there
      obtain ⟨other, another, inside⟩ := numbered.exists_lane inJobs
      have differ : lane ≠ other := fun same => outside (same ▸ inside)
      exact ⟨numbered.due one there,
        fun own => numbered.not_owns one another differ there ⟨job, inside, own⟩⟩
    have same := beside.sameAt separate.level here.fares.toWithin fares.toWithin others
    exact ⟨same.entries l owned, beside.held l (others l owned).2⟩
  · obtain ⟨taken', there⟩ := parallel (Pool.steps_serial s (r.jobs c s violations))
    obtain ⟨report, files, held⟩ :=
      here.agree numbered finished there (Pool.isOver_serial s (r.jobs c s violations))
    obtain ⟨reported, said, ended⟩ := run_eq_serial r c violations s
    rw [reported, ended]
    refine ⟨report, files, fun key listed => ?_, held⟩
    have left := Pool.remembered_of_steps memory numbered separate known unlimited empty way
      (Entries.get?_ne_none listed)
    -- At the end no worker is left that could guard it.
    refine left.resolve_left ?_
    rintro ⟨w, member, _⟩
    rw [finished.2] at member
    cases member

/-- What the run leaves that takes these lanes one after another. -/
theorem site_run {lanes : List Lane} (known : Lane.ofJobs (r.jobs c s violations) = lanes) :
    let after := (lanes.foldlM (r.runLane c) (.blank (r.jobs c s violations).length) s).2
    (r.run c violations s).2.tree = after.tree ∧ (r.run c violations s).2.held = after.held := by
  obtain ⟨_, said, ended⟩ := run_eq_serial r c violations s
  rw [ended, ← known]
  exact ⟨rfl, rfl⟩

end Remediation

/-! ### Two lanes at a time -/

namespace Pool

variable {r : Remediation} {c : RepairContext} {s : Site} {jobs : List Job}

/-- Two workers have taken a lane each. -/
def abreast (s : Site) (jobs : Nat) (lane other : Lane) : Pool :=
  { site := s, board := .blank jobs, waiting := [], active := [{ rest := lane }, { rest := other }] }

theorem steps_abreast {lane other : Lane} (crew : 2 ≤ workers r)
    (lanes : Lane.ofJobs jobs = [lane, other]) :
    Steps r c (start s jobs) (abreast s jobs.length lane other) := by
  have free : (start s jobs).active.length < workers r := Nat.lt_of_lt_of_le Nat.zero_lt_two crew
  have first : Step r c (start s jobs) { start s jobs with
      waiting := [other], active := [{ rest := lane }] } := .take free lanes
  exact .head first (.single (.take crew rfl))

/-- Lets some workers take a step each, by their places. -/
def schedule (r : Remediation) (c : RepairContext) : List Nat → Pool → Pool
  | [], p => p
  | i :: rest, p => match p.active.drop i with
    | [] => schedule r c rest p
    | w :: after =>
      if w.isOver then schedule r c rest p
      else schedule r c rest (p.turn r c (p.active.take i) w after)

theorem steps_schedule (places : List Nat) (p : Pool) : Steps r c p (schedule r c places p) := by
  -- A place where no unfinished lane stands takes no step, and the schedule goes on from there.
  induction places generalizing p with
  | nil => exact .refl
  | cons i rest ih =>
    rw [schedule]
    split
    next => exact ih p
    next w after split =>
      have chosen : p.active = p.active.take i ++ w :: after := by
        rw [← split, List.take_append_drop]
      split
      next => exact ih p
      next unfinished => exact .head (.work chosen (eq_false_of_ne_true unfinished)) (ih _)

theorem waiting_schedule (places : List Nat) (p : Pool) :
    (schedule r c places p).waiting = p.waiting := by
  induction places generalizing p with
  | nil => rfl
  | cons i rest ih =>
    rw [schedule]
    split
    next => exact ih p
    next w after _ =>
      split
      next => exact ih p
      next => exact ih _

/-- Workers that have done their lanes leave. -/
theorem steps_leave {p : Pool} (finished : p.active.all Work.isOver = true) :
    Steps r c p { p with active := [] } := by
  obtain ⟨s, b, waiting, active⟩ := p
  induction active with
  | nil => exact .refl
  | cons w rest ih =>
    rw [List.all_cons, Bool.and_eq_true] at finished
    have chosen : (⟨s, b, waiting, w :: rest⟩ : Pool).active = [] ++ w :: rest := rfl
    exact .head (.leave chosen finished.1) (ih finished.2)

/-- Two workers come to the end of their lanes in some order. -/
theorem exists_scheduled {lane other : Lane} (crew : 2 ≤ workers r)
    (lanes : Lane.ofJobs jobs = [lane, other]) (places : List Nat)
    (finished : (schedule r c places (abreast s jobs.length lane other)).active.all Work.isOver = true) :
    ∃ p, Steps r c (start s jobs) p ∧ p.IsOver ∧
      p.site = (schedule r c places (abreast s jobs.length lane other)).site := by
  have waiting := waiting_schedule (r := r) (c := c) places (abreast s jobs.length lane other)
  exact ⟨_, ((steps_abreast crew lanes).trans (steps_schedule places _)).trans (steps_leave finished),
    ⟨waiting, rfl⟩, rfl⟩

end Pool

namespace Appending

def site : Site :=
  { tree := ((∅ : Tree).insert ["a".toList] (.file [1] 0o644)).insert ["b".toList] (.file [2] 0o600) }

/-- The file that a violation is about. -/
def file (v : Violation) : Path := ⟨.here, [v.location]⟩

/-- Adds a byte to a file. -/
def fixer : Fixer where
  name := "appending"
  rules := ["MS-001"]
  accepts _ := true
  targets _ v _ := .ok [file v]
  repair _ v := do
    let bytes ← Action.ask (·.readBytes (file v))
    Action.writeBytes (file v) (bytes ++ [10])
    pure (.fixed v "done" [file v] [])

def remediation : Remediation where
  table := { fixers := [fixer] }
  strategy := InMemory.strategy
  maxWorkers := 2

def context : RepairContext := { projectRoot := {}, moduleRoot := {} }

def violations : List Violation :=
  [{ rule := "MS-001", location := "a" }, { rule := "MS-001", location := "b" }]

/-- The job for one of the violations. -/
def job (i : Nat) (location : Text) : Job where
  index := i
  violation := { rule := "MS-001", location }
  fixers := [fixer]
  targets := [⟨.root, [location]⟩]

theorem jobs_eq : remediation.jobs context site violations = [job 0 "a", job 1 "b"] := by cbv

theorem lanes_eq : Lane.ofJobs (remediation.jobs context site violations) =
    [[job 0 "a"], [job 1 "b"]] := by cbv

theorem due_iff {l : Location} : Job.Due (remediation.jobs context site violations) l ↔
    l = ["a".toList] ∨ l = ["b".toList] := by
  rw [jobs_eq]
  simp [Job.Due, Job.Owns, job]

theorem sound : site.tree.Sound := by
  refine Tree.Sound.insert ?_ (by decide) (by simp) (by decide)
  exact Tree.Sound.insert Tree.sound_empty (by decide) (by simp) (by decide)

theorem level : Level (Job.Due (remediation.jobs context site violations)) site := by
  intro l m here there part _
  rw [due_iff] at here there
  refine part.eq_of_length ?_
  rcases here with rfl | rfl <;> rcases there with rfl | rfl <;> rfl

/-- The files are there, at paths of one name. -/
theorem direct {v : Violation} (known : v.location = "a".toList ∨ v.location = "b".toList) :
    site.Direct (file v) := by
  refine direct_of_forward rfl ?_ ?_
  · rcases known with known | known <;> rw [file, known] <;> decide
  · rcases known with known | known <;> rw [file, known] <;> decide

/-- The fixer reads and writes the file that it declares. -/
theorem confined {v : Violation} (known : v.location = "a".toList ∨ v.location = "b".toList) :
    (fixer.repair context v).Confined (Job.Due (remediation.jobs context site violations))
      (site.LiesAmong [file v]) site := by
  have facts : site.location (file v) = [v.location] ∧ (∃ bytes mode, site.entryAt (file v) =
      some (.file bytes mode)) ∧ nameSize (Fault.temporaryName (file v).name) ≤ maxNameSize := by
    rcases known with known | known
    · rw [file, known]
      exact ⟨by decide, ⟨[1], 0o644, by decide⟩, by decide⟩
    · rw [file, known]
      exact ⟨by decide, ⟨[2], 0o600, by decide⟩, by decide⟩
  obtain ⟨at_, ⟨bytes, mode, entry⟩, short⟩ := facts
  have here : Job.Due (remediation.jobs context site violations) (site.location (file v)) := by
    rw [due_iff, at_]
    exact known.imp (congrArg ([·])) (congrArg ([·]))
  have own : ∀ l, l = site.location (file v) →
      Job.Due (remediation.jobs context site violations) l := by
    rintro _ rfl
    exact here
  have among : ∀ l, l = site.location (file v) → site.LiesAmong [file v] l := by
    rintro _ rfl
    exact ⟨_, List.mem_singleton.mpr rfl, rfl⟩
  -- The body reads and writes one file, which is more than the repair is allowed to touch.
  have appends : (fixer.repair context v).Confined (Job.Due (remediation.jobs context site violations))
      (· = site.location (file v)) site := by
    refine (Action.Confined.readBytes level (direct known) here).bind own fun read => ?_
    refine Action.Confined.bind ?_ own fun _ => .pure _
    refine .writeBytes level (direct known) here ?_ ?_ short _
    · simp [entry]
    · refine sound.not_blocked ?_
      rw [← entryAt, entry]
      simp
  refine appends.mono level among ?_
  rintro l ⟨_, listed, rfl⟩
  rw [List.mem_singleton.mp listed]
  exact here

theorem separate : Job.Separate context site (remediation.jobs context site violations) := by
  refine ⟨sound, List.not_mem_nil, level, fun job' member => ?_⟩
  have known : job'.fixers = [fixer] ∧
      (job'.violation.location = "a".toList ∨ job'.violation.location = "b".toList) := by
    rw [jobs_eq] at member
    rcases List.mem_pair.mp member with rfl | rfl
    · exact ⟨rfl, .inl rfl⟩
    · exact ⟨rfl, .inr rfl⟩
  have declares {f : Fixer} {files : List Path} (declares : job'.Declares context site f files) :
      f = fixer ∧ files = [file job'.violation] := by
    have candidate := declares.candidate
    rw [known.1] at candidate
    obtain rfl := List.mem_singleton.mp candidate
    exact ⟨rfl, (Except.ok.inj declares.declared).symm⟩
  -- The plan reads nothing of the site, its one file lies straight in the project, and its body
  -- stays at that file.
  refine ⟨fun f files told s _ => ?_, fun f files told file listed => ?_, fun f files told => ?_⟩
  · obtain ⟨rfl, rfl⟩ := declares told
    rfl
  · obtain ⟨rfl, rfl⟩ := declares told
    rw [List.mem_singleton.mp listed]
    exact direct known.2
  · obtain ⟨rfl, rfl⟩ := declares told
    exact confined known.2

end Appending

/-- Two workers are busy with two files at a time, and the files are as if one had done the work. -/
theorem appended_in_any_order :
    let jobs := Appending.remediation.jobs Appending.context Appending.site Appending.violations
    let abreast := Pool.abreast Appending.site 2 [Appending.job 0 "a"] [Appending.job 1 "b"]
    ∃ p, Pool.Steps Appending.remediation Appending.context (.start Appending.site jobs) abreast ∧
      Pool.Steps Appending.remediation Appending.context abreast p ∧ p.IsOver ∧
      p.board.report = (Appending.remediation.run Appending.context Appending.violations
        Appending.site).1 ∧
      p.site.tree.at? ["a".toList] = some (.file [1, 10] 0o644) ∧
      p.site.tree.at? ["b".toList] = some (.file [2, 10] 0o600) := by
  intro jobs abreast
  have first : Pool.Steps Appending.remediation Appending.context (.start Appending.site jobs) abreast :=
    Pool.steps_abreast (by decide) Appending.lanes_eq
  obtain ⟨p, steps, finished⟩ :=
    Pool.exists_isOver Appending.remediation Appending.context abreast
  obtain ⟨report, files, _⟩ := (Remediation.same_in_any_order rfl rfl Appending.separate rfl
    (first.trans steps)).2 finished
  have serial := (Remediation.site_run Appending.lanes_eq).1
  refine ⟨p, first, steps, finished, report, ?_, ?_⟩
  · rw [files, serial]
    decide +kernel
  · rw [files, serial]
    decide +kernel

/-! ### Orders that show -/

namespace Rivals

/-- Writes the file that a violation is about, or refuses to where there is a message. -/
def writing : Fixer where
  name := "writing"
  rules := ["MS-001"]
  accepts _ := true
  targets _ v _ := .ok [Path.ofText v.location]
  repair _ v :=
    if v.message = [] then do
      Action.writeBytes (Path.ofText v.location) [2]
      pure (.fixed v "done" [] [])
    else throw (.reported v.message)

/-- Changes the first of two files and fails. The second is one that cannot be restored. -/
def overreaching : Fixer where
  name := "overreaching"
  rules := ["MS-002"]
  accepts _ := true
  targets _ _ _ := .ok [⟨.here, ["a".toList]⟩, LongNamed.file]
  repair _ _ s := (.error (.reported "no"), s.insert ["a".toList] (.file [2] 0o644))

def remediation : Remediation where
  table := { fixers := [writing, overreaching] }
  strategy := InMemory.strategy
  maxWorkers := 2

def context : RepairContext := { projectRoot := {}, moduleRoot := {} }

/-- The job of writing a file. -/
def job (i : Nat) (v : Violation) (target : Location) : Job where
  index := i
  violation := v
  fixers := [writing]
  targets := [⟨.root, target⟩]

/-- One file is to lie where the other needs a directory. -/
def nested : List Violation :=
  [{ rule := "MS-001", location := "x" }, { rule := "MS-001", location := "x/y" }]

def nestedLanes : Lane × Lane :=
  ([job 0 { rule := "MS-001", location := "x" } ["x".toList]],
   [job 1 { rule := "MS-001", location := "x/y" } ["x".toList, "y".toList]])

theorem lanes_nested : Lane.ofJobs (remediation.jobs context {} nested) =
    [nestedLanes.1, nestedLanes.2] := by cbv

/-- A path leads through a directory that is not there before the other file is. -/
def detour : List Violation :=
  [{ rule := "MS-001", location := "d/../f", message := "no" },
   { rule := "MS-001", location := "d/x" }]

def detourSite : Site := { tree := (∅ : Tree).insert ["f".toList] (.file [1] 0o644) }

def detourLanes : Lane × Lane :=
  ([job 0 { rule := "MS-001", location := "d/../f", message := "no" } ["f".toList]],
   [job 1 { rule := "MS-001", location := "d/x" } ["d".toList, "x".toList]])

theorem lanes_detour : Lane.ofJobs (remediation.jobs context detourSite detour) =
    [detourLanes.1, detourLanes.2] := by cbv

def overreached : List Violation := [{ rule := "MS-002" }]

def overreachedSite : Site :=
  { tree := ((∅ : Tree).insert ["a".toList] (.file [1] 0o644)).insert [LongNamed.name]
      (.file [1] 0o644) }

def overreachedLane : Lane :=
  [{ index := 0, violation := { rule := "MS-002" }, fixers := [overreaching],
     targets := [⟨.root, ["a".toList]⟩, ⟨.root, [LongNamed.name]⟩] }]

theorem lanes_overreached : Lane.ofJobs (remediation.jobs context overreachedSite overreached) =
    [overreachedLane] := by cbv

end Rivals

open Rivals in
/-- Where a file lies on the way to another, the files depend on the order. Where a path leads through
what another repair makes, a repair that does nothing is taken back by the removal of a file. And where
one file of a transaction cannot be restored, those that were restored are still remembered. -/
theorem order_shows :
    (∃ p, Pool.Steps remediation context (.start {} (remediation.jobs context {} nested)) p ∧
      p.IsOver ∧ p.site.tree.at? ["x".toList] = some .directory ∧
      (remediation.run context nested {}).2.tree.at? ["x".toList] = some (.file [2] 0o600)) ∧
    (∃ p, Pool.Steps remediation context
        (.start detourSite (remediation.jobs context detourSite detour)) p ∧
      p.IsOver ∧ p.site.tree.at? ["f".toList] = none ∧
      (remediation.run context detour detourSite).2.tree.at? ["f".toList] =
        some (.file [1] 0o644)) ∧
    (remediation.run context overreached overreachedSite).2.tree.at? ["a".toList] =
      overreachedSite.tree.at? ["a".toList] ∧
    Entries.get? ⟨.root, ["a".toList]⟩ (remediation.run context overreached overreachedSite).2.held =
      some (.contents [1]) := by
  refine ⟨?_, ?_, ?_, ?_⟩
  · -- The second worker goes first.
    obtain ⟨p, steps, finished, same⟩ := Pool.exists_scheduled (r := remediation) (c := context)
      (s := {}) (by decide) lanes_nested [1, 1, 1, 1, 1, 0, 0, 0] (by decide +kernel)
    refine ⟨p, steps, finished, ?_, ?_⟩
    · rw [same]
      decide +kernel
    · rw [(Remediation.site_run lanes_nested).1]
      decide +kernel
  · -- The second worker does its lane while the first has its file guarded.
    obtain ⟨p, steps, finished, same⟩ := Pool.exists_scheduled (r := remediation) (c := context)
      (s := detourSite) (by decide) lanes_detour [0, 0, 1, 1, 1, 1, 1, 0, 0, 0] (by decide +kernel)
    refine ⟨p, steps, finished, ?_, ?_⟩
    · rw [same]
      decide +kernel
    · rw [(Remediation.site_run lanes_detour).1]
      decide +kernel
  · rw [(Remediation.site_run lanes_overreached).1]
    decide +kernel
  · rw [(Remediation.site_run lanes_overreached).2]
    decide +kernel

end Layering
