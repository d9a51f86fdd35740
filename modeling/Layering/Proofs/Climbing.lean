import Layering.Proofs.Effects
import Layering.Repair.Context
import Layering.Rule

/-!
# Climbing to the module

The search for the module of a violation goes up, one directory at a time. After as many looks as
the directory has names it has come to an end, or to the working directory, where it stays.
-/

namespace Layering.RepairContext

variable {c : RepairContext} {s : Site} {v : Violation} {directory root : Path} {k n : Nat}
variable {r : Except Fault Path}

/-- A look at a directory in the project finds no descriptor there. -/
def Silent (c : RepairContext) (s : Site) (directory : Path) : Prop :=
  s.exists? (directory.child descriptorName) = .ok false ∧
    s.resolve c.projectRoot ∈ (s.resolve directory).ancestors

/-- What the last look at a directory answers. -/
inductive Answers (c : RepairContext) (s : Site) (directory : Path) : Except Fault Path → Prop
  /-- The directory is a module. -/
  | module (there : s.exists? (directory.child descriptorName) = .ok true) :
    Answers c s directory (.ok directory)
  /-- The directory is none, and it is the root of the project or lies elsewhere. -/
  | outside (absent : s.exists? (directory.child descriptorName) = .ok false)
    (out : s.resolve c.projectRoot ∉ (s.resolve directory).ancestors) :
    Answers c s directory (.ok c.moduleRoot)
  /-- It cannot be told whether there is a descriptor. -/
  | fault {f : Fault} (stuck : s.exists? (directory.child descriptorName) = .error f) :
    Answers c s directory (.error f)

/-! ### One look -/

theorem silent_or_answers (c : RepairContext) (s : Site) (directory : Path) :
    c.Silent s directory ∨ ∃ r, c.Answers s directory r := by
  cases asked : s.exists? (directory.child descriptorName) with
  | error f => exact .inr ⟨_, .fault asked⟩
  | ok there =>
    cases there with
    | true => exact .inr ⟨_, .module asked⟩
    | false =>
      by_cases inside : s.resolve c.projectRoot ∈ (s.resolve directory).ancestors
      · exact .inl ⟨asked, inside⟩
      · exact .inr ⟨_, .outside asked inside⟩

/-- The search goes no further up from the root of the project or from elsewhere. -/
theorem stops_iff {here project : Path} :
    (here = project || !here.ancestors.contains project) = true ↔ project ∉ here.ancestors := by
  rw [Bool.or_eq_true, decide_eq_true_eq, Bool.not_eq_true', ← Bool.not_eq_true,
    List.contains_iff_mem]
  refine ⟨fun stops inside => stops.elim (fun same => ?_) (· inside), .inr⟩
  exact (Action.mem_ancestors_iff.mp inside).2.2 (by rw [same])

theorem moduleAt?_of_silent (silent : c.Silent s directory) :
    c.moduleAt? s directory = .ok none := by
  obtain ⟨absent, inside⟩ := silent
  unfold moduleAt?
  rw [absent]
  exact if_neg fun stops => stops_iff.mp stops inside

theorem climb_of_silent (silent : c.Silent s directory) :
    c.climb s directory = c.climb s directory.parent := by
  rw [climb, moduleAt?_of_silent silent]
  simp only
  split
  next top =>
    have same : directory.parent = directory := by
      rw [Path.parent, top]
      exact congrArg (Path.mk directory.anchor) top.symm
    rw [same, climb, moduleAt?_of_silent silent]
    exact (if_pos top).symm
  next => rfl

/-- Without names a look that says nothing is made again and again. -/
theorem climb_of_top (silent : c.Silent s directory) (top : directory.names = []) :
    c.climb s directory = none := by
  rw [climb, moduleAt?_of_silent silent]
  exact if_pos top

theorem Silent.not_answers (silent : c.Silent s directory) : ¬c.Answers s directory r := by
  rintro (there | ⟨_, out⟩ | stuck)
  · cases silent.1.symm.trans there
  · exact out silent.2
  · cases silent.1.symm.trans stuck

theorem climb_of_answers (answers : c.Answers s directory r) : c.climb s directory = some r := by
  rw [climb]
  unfold moduleAt?
  cases answers with
  | module there =>
    rw [there]
    rfl
  | outside absent out =>
    rw [absent]
    simp only [bind, Except.bind, Bool.false_eq_true, if_false, if_pos (stops_iff.mpr out)]
    rfl
  | fault stuck =>
    rw [stuck]
    rfl

/-! ### All looks -/

/-- The directory after so many steps up. -/
def upwards (directory : Path) (k : Nat) : Path := Path.parent^[k] directory

theorem upwards_succ (directory : Path) (k : Nat) :
    upwards directory (k + 1) = upwards directory.parent k := rfl

theorem upwards_eq (directory : Path) (k : Nat) : upwards directory k =
    ⟨directory.anchor, directory.names.take (directory.names.length - k)⟩ := by
  induction k generalizing directory with
  | zero => simp [upwards]
  | succ k ih =>
    rw [upwards_succ, ih, Path.parent, List.length_dropLast, List.dropLast_eq_take, List.take_take,
      Nat.sub_sub, Nat.add_comm 1 k, Nat.min_eq_left (Nat.sub_le_sub_left (Nat.le_add_left 1 k) _)]

/-- Without names there is no further way up. -/
theorem upwards_of_le (far : directory.names.length ≤ k) :
    upwards directory k = upwards directory directory.names.length := by
  rw [upwards_eq, upwards_eq, Nat.sub_eq_zero_of_le far, Nat.sub_self]

/-- The search goes up until a look answers. -/
theorem climb_of_upwards (silent : ∀ j < k, c.Silent s (upwards directory j))
    (answers : c.Answers s (upwards directory k) r) : c.climb s directory = some r := by
  induction k generalizing directory with
  | zero => exact climb_of_answers answers
  | succ k ih =>
    have first : c.Silent s directory := silent 0 (Nat.succ_pos k)
    rw [climb_of_silent first]
    exact ih (fun j less => silent (j + 1) (Nat.succ_lt_succ less)) answers

/-- The search ends after as many looks as the directory has names, or never. -/
theorem climb_eq_some : c.climb s directory = some r ↔
    ∃ k ≤ directory.names.length, (∀ j < k, c.Silent s (upwards directory j)) ∧
      c.Answers s (upwards directory k) r := by
  constructor
  · intro found
    obtain ⟨k, silent, answers⟩ : ∃ k, (∀ j < k, c.Silent s (upwards directory j)) ∧
        c.Answers s (upwards directory k) r := by
      -- On the number of names: a silent directory that is not the top passes the question to
      -- its parent.
      induction size : directory.names.length using Nat.strong_induction_on generalizing directory with
      | _ n ih =>
      rcases c.silent_or_answers s directory with silent | ⟨r', answers⟩
      · by_cases top : directory.names = []
        · cases found.symm.trans (climb_of_top silent top)
        · have shorter : directory.parent.names.length < n := by
            have := List.length_pos_iff.mpr top
            simp only [Path.parent, List.length_dropLast]
            omega
          rw [climb_of_silent silent] at found
          obtain ⟨k, later, answers⟩ := ih _ shorter found rfl
          refine ⟨k + 1, fun j less => ?_, answers⟩
          cases j with
          | zero => exact silent
          | succ j => exact later j (Nat.lt_of_succ_lt_succ less)
      · cases found.symm.trans (climb_of_answers answers)
        exact ⟨0, fun j less => absurd less (Nat.not_lt_zero j), answers⟩
    refine ⟨k, ?_, silent, answers⟩
    -- The top answers whenever it is reached, so no answer comes from beyond it.
    by_contra far
    have less := Nat.lt_of_not_le far
    rw [upwards_of_le less.le] at answers
    exact (silent _ less).not_answers answers
  · rintro ⟨k, _, silent, answers⟩
    exact climb_of_upwards silent answers

/-- The search never ends just if it starts from a path that is not absolute and no look on the way
answers. -/
theorem climb_eq_none : c.climb s directory = none ↔
    directory.isAbsolute = false ∧
      ∀ k ≤ directory.names.length, c.Silent s (upwards directory k) := by
  constructor
  · intro endless
    have silent (k : Nat) : c.Silent s (upwards directory k) := by
      induction k using Nat.strongRecOn with
      | ind k ih =>
        refine (c.silent_or_answers s (upwards directory k)).resolve_right ?_
        rintro ⟨r, answers⟩
        cases endless.symm.trans (climb_of_upwards ih answers)
    refine ⟨?_, fun k _ => silent k⟩
    -- Above the root there is nothing.
    by_contra absolute
    obtain ⟨_, part, other⟩ := Action.mem_ancestors_iff.mp (silent directory.names.length).2
    have top : (s.resolve (upwards directory directory.names.length)).names = [] := by
      have start : Path.isAbsolute ⟨directory.anchor, []⟩ = true :=
        Bool.eq_true_of_not_eq_false absolute
      rw [upwards_eq, Nat.sub_self, List.take_zero, Site.resolve, Path.resolve, Path.join,
        if_pos start]
      rfl
    rw [top] at part other
    exact other (List.prefix_nil.mp part)
  · rintro ⟨_, silent⟩
    rw [Option.eq_none_iff_forall_ne_some]
    intro r found
    obtain ⟨k, near, _, answers⟩ := climb_eq_some.mp found
    exact (silent k near).not_answers answers

/-! ### So many looks -/

/-- The nearest module at or above a directory, in the project; the module of the context if there
is none. At most so many directories are tried. -/
def moduleAbove (c : RepairContext) (s : Site) (directory : Path) : Nat → Except Fault Path
  | 0 => .ok c.moduleRoot
  | n + 1 => do
    if ← s.exists? (directory.child descriptorName) then return directory
    let here := s.resolve directory
    let project := s.resolve c.projectRoot
    if here = project || !here.ancestors.contains project then return c.moduleRoot
    c.moduleAbove s directory.parent n

theorem moduleAbove_of_silent (silent : c.Silent s directory) (n : Nat) :
    c.moduleAbove s directory (n + 1) = c.moduleAbove s directory.parent n := by
  obtain ⟨absent, inside⟩ := silent
  rw [moduleAbove, absent]
  exact if_neg fun stops => stops_iff.mp stops inside

theorem moduleAbove_of_answers (answers : c.Answers s directory r) (n : Nat) :
    c.moduleAbove s directory (n + 1) = r := by
  rw [moduleAbove]
  cases answers with
  | module there => rw [there]; rfl
  | outside absent out =>
    rw [absent]
    simp only [bind, Except.bind, Bool.false_eq_true, if_false, if_pos (stops_iff.mpr out)]
    rfl
  | fault stuck => rw [stuck]; rfl

theorem moduleAbove_of_upwards (silent : ∀ j < k, c.Silent s (upwards directory j))
    (answers : c.Answers s (upwards directory k) r) (enough : k < n) :
    c.moduleAbove s directory n = r := by
  induction k generalizing directory n with
  | zero =>
    obtain ⟨n, rfl⟩ := Nat.exists_eq_succ_of_ne_zero (Nat.ne_zero_of_lt enough)
    exact moduleAbove_of_answers answers n
  | succ k ih =>
    obtain ⟨n, rfl⟩ := Nat.exists_eq_succ_of_ne_zero (Nat.ne_zero_of_lt enough)
    have first : c.Silent s directory := silent 0 (Nat.succ_pos k)
    rw [moduleAbove_of_silent first]
    exact ih (fun j less => silent (j + 1) (Nat.succ_lt_succ less)) answers
      (Nat.lt_of_succ_lt_succ enough)

theorem moduleAbove_of_endless (silent : ∀ k, c.Silent s (upwards directory k)) (n : Nat) :
    c.moduleAbove s directory n = .ok c.moduleRoot := by
  induction n generalizing directory with
  | zero => rfl
  | succ n ih =>
    have first : c.Silent s directory := silent 0
    rw [moduleAbove_of_silent first]
    exact ih fun k => silent (k + 1)

/-- A search that ends has made no more looks than the directory has names, and one. -/
theorem climb_getD (c : RepairContext) (s : Site) (directory : Path) :
    (c.climb s directory).getD (.ok c.moduleRoot) =
      c.moduleAbove s directory (directory.names.length + 1) := by
  cases search : c.climb s directory with
  | some r =>
    obtain ⟨k, near, silent, answers⟩ := climb_eq_some.mp search
    exact (moduleAbove_of_upwards silent answers (Nat.lt_succ_of_le near)).symm
  | none =>
    have silent := (climb_eq_none.mp search).2
    refine (moduleAbove_of_endless (fun k => ?_) _).symm
    rcases Nat.le_total k directory.names.length with near | far
    · exact silent k near
    · exact upwards_of_le far ▸ silent _ le_rfl

/-- The module that a violation is about is found in so many looks. -/
theorem moduleOf_eq_above (c : RepairContext) (s : Site) (v : Violation) :
    c.moduleOf s v = s.isDirectory? (Path.ofText v.location) >>= fun is =>
      let directory := if is then Path.ofText v.location else (Path.ofText v.location).parent
      c.moduleAbove s directory (directory.names.length + 1) := by
  unfold moduleOf
  exact bind_congr fun is => climb_getD ..

/-! ### The search -/

/-- Without names of two points the way up leads to directories above. -/
theorem location_upwards (forward : upName ∉ directory.names) (k : Nat) :
    s.location (upwards directory k) <+: s.location directory := by
  have part := List.take_prefix (directory.names.length - k) directory.names
  rw [upwards_eq, Site.location_of_forward forward,
    Site.location_of_forward fun up => forward (part.subset up)]
  exact (List.prefix_append_right_inj _).mpr part

/-- The search for the module of a violation starts from its place, or from the directory of that,
and goes up to the first directory that holds a descriptor, that is not in the project, or over
which the file system fails. It makes as many looks as the start has names, and one; but it never
ends if the start is not absolute and all of these looks are in the project and find nothing. -/
theorem module_search (c : RepairContext) (s : Site) (v : Violation) :
    match s.isDirectory? (Path.ofText v.location) with
    | .error f => c.moduleOf s v = .error f
    | .ok is =>
      let start := if is then Path.ofText v.location else (Path.ofText v.location).parent
      (∀ r, c.climb s start = some r ↔
        ∃ k ≤ start.names.length, (∀ j < k, c.Silent s (upwards start j)) ∧
          c.Answers s (upwards start k) r) ∧
      (∀ r, c.climb s start = some r → c.moduleOf s v = r) ∧
      (c.climb s start = none ↔ start.isAbsolute = false ∧
        ∀ k ≤ start.names.length, c.Silent s (upwards start k)) ∧
      (upName ∉ start.names → ∀ k, s.location (upwards start k) <+: s.location start) := by
  split
  next f asked =>
    unfold moduleOf
    simp only [asked]
    rfl
  next is asked =>
    refine ⟨fun r => climb_eq_some, fun r found => ?_, climb_eq_none, location_upwards⟩
    unfold moduleOf
    simp only [asked, bind, Except.bind, found, Option.getD_some]

/-- A place below the working directory, which is in the project and holds no descriptor. -/
theorem endless_search :
    let c : RepairContext := { projectRoot := "/", moduleRoot := "/" }
    let s : Site := { tree := (∅ : Tree).insert ["ws".toList] .directory
                      workingDirectory := ["ws".toList] }
    let v : Violation := { rule := Rule.missingWrapper, location := "x" }
    s.tree.Sound ∧ s.isDirectory? (Path.ofText v.location) = .ok false ∧
      c.climb s (Path.ofText v.location).parent = none := by
  intro c s v
  refine ⟨Tree.sound_empty.insert rfl (by decide) fun _ => rfl, by decide, ?_⟩
  refine climb_eq_none.mpr ⟨rfl, fun k near => ?_⟩
  obtain rfl : k = 0 := Nat.le_zero.mp near
  exact ⟨by decide, by decide⟩

end Layering.RepairContext
