/-!
# Forests

Numbers in trees. Every number knows its parent, and a root is its own parent. Looking for a root
shortens the way to it, and two trees are joined by giving the root of one a new parent.
-/

namespace Layering

/-- The parent of a number. Numbers that are not listed are roots. -/
def Forest.parentIn (parents : List Nat) (i : Nat) : Nat := parents.getD i i

/-- It is `n` steps up from a number to the root of its tree. -/
inductive Forest.Climbs (parents : List Nat) : Nat → Nat → Nat → Prop
  | atRoot {r : Nat} (isRoot : parentIn parents r = r) : Climbs parents r 0 r
  | up {i n r : Nat} (inner : parentIn parents i ≠ i)
      (above : Climbs parents (parentIn parents i) n r) : Climbs parents i (n + 1) r

/-- Numbers with their parents, where every number is below some root. -/
@[ext] structure Forest where
  parents : List Nat
  climbs : ∀ i, ∃ n r, Forest.Climbs parents i n r

namespace Forest

theorem parentIn_set (parents : List Nat) (i v j : Nat) :
    parentIn (parents.set i v) j =
      if j = i ∧ i < parents.length then v else parentIn parents j := by
  simp only [parentIn, List.getD_eq_getElem?_getD, List.getElem?_set]
  grind

theorem lt_of_inner {parents : List Nat} {i : Nat} (inner : parentIn parents i ≠ i) :
    i < parents.length := by
  refine Nat.lt_of_not_le fun outside => inner ?_
  simp [parentIn, List.getElem?_eq_none outside]

theorem Climbs.isRoot {parents : List Nat} {i n r : Nat} (h : Climbs parents i n r) :
    parentIn parents r = r := by
  induction h with
  | atRoot isRoot => exact isRoot
  | up _ _ ih => exact ih

/-- There is only one way up. -/
theorem Climbs.unique {parents : List Nat} {i n m r q : Nat} (first : Climbs parents i n r)
    (second : Climbs parents i m q) : n = m ∧ r = q := by
  induction first generalizing m with
  | atRoot isRoot =>
    cases second with
    | atRoot => exact ⟨rfl, rfl⟩
    | up inner => exact absurd isRoot inner
  | up inner _ ih =>
    cases second with
    | atRoot isRoot => exact absurd isRoot inner
    | up _ above =>
      obtain ⟨rfl, rfl⟩ := ih above
      exact ⟨rfl, rfl⟩

/-- The numbers below `n`, each a root. -/
def single (n : Nat) : Forest where
  parents := List.range n
  climbs i := ⟨0, i, .atRoot (by simp [parentIn]; grind)⟩

/-- The parent of a number. -/
def parent (f : Forest) (i : Nat) : Nat := parentIn f.parents i

/-- The number of steps from a number up to its root. -/
noncomputable def depth (f : Forest) (i : Nat) : Nat := (f.climbs i).choose

theorem Climbs.depth_eq {f : Forest} {i n r : Nat} (h : Climbs f.parents i n r) :
    f.depth i = n :=
  ((f.climbs i).choose_spec.choose_spec.unique h).1

/-- A step over the parent does not change the roots and makes no way longer. -/
theorem Climbs.halve {parents : List Nat} (k : Nat) {i n r : Nat} (h : Climbs parents i n r) :
    ∃ m ≤ n, Climbs (parents.set k (parentIn parents (parentIn parents k))) i m r := by
  have unchanged {j : Nat} (other : j ≠ k) :
      parentIn (parents.set k (parentIn parents (parentIn parents k))) j = parentIn parents j := by
    rw [parentIn_set, if_neg (fun h => other h.1)]
  induction n using Nat.strongRecOn generalizing i with
  | ind n ih =>
    by_cases here : i = k
    · subst here
      cases h with
      | atRoot isRoot =>
        refine ⟨0, Nat.le_refl _, .atRoot ?_⟩
        rw [parentIn_set]
        split <;> simp [isRoot]
      | @up _ n _ inner above =>
        have skipped : parentIn (parents.set i (parentIn parents (parentIn parents i))) i =
            parentIn parents (parentIn parents i) := by
          rw [parentIn_set, if_pos ⟨rfl, lt_of_inner inner⟩]
        cases above with
        | atRoot isRoot =>
          have top := Climbs.atRoot ((unchanged inner).trans isRoot)
          have next := skipped.trans isRoot
          exact ⟨1, by omega, .up (by rwa [next]) (by rwa [next])⟩
        | @up _ n _ inner' above =>
          obtain ⟨m, shorter, way⟩ := ih n (by omega) above
          -- Two steps up from `i` lead elsewhere, or the way from `i` would be shorter than it is.
          have apart : parentIn parents (parentIn parents i) ≠ i := by
            intro back
            rw [back] at above
            have := (Climbs.up inner (.up inner' (by rwa [back]))).unique above
            omega
          exact ⟨m + 1, by omega, .up (by rwa [skipped]) (by rwa [skipped])⟩
    · cases h with
      | atRoot isRoot => exact ⟨0, Nat.le_refl _, .atRoot (by rw [unchanged here, isRoot])⟩
      | @up _ n _ inner above =>
        obtain ⟨m, shorter, way⟩ := ih n (by omega) above
        exact ⟨m + 1, by omega, .up (by rwa [unchanged here]) (by rwa [unchanged here])⟩

/-- The forest where a number is a child of its parent's parent. -/
def halve (f : Forest) (i : Nat) : Forest where
  parents := f.parents.set i (f.parent (f.parent i))
  climbs j :=
    have ⟨_, r, way⟩ := f.climbs j
    have ⟨m, _, shorter⟩ := way.halve i
    ⟨m, r, shorter⟩

theorem parent_halve {f : Forest} {i : Nat} (inner : f.parent i ≠ i) :
    (f.halve i).parent i = f.parent (f.parent i) := by
  simp only [parent, halve, parentIn_set, true_and]
  rw [if_pos (lt_of_inner inner)]

theorem depth_halve_lt {f : Forest} {i : Nat} (inner : f.parent i ≠ i) :
    (f.halve i).depth ((f.halve i).parent i) < f.depth i := by
  rw [parent_halve inner]
  obtain ⟨n, r, way⟩ := f.climbs i
  rw [way.depth_eq]
  cases way with
  | atRoot isRoot => exact absurd isRoot inner
  | @up _ n _ _ above =>
    cases above with
    | atRoot isRoot =>
      have top : f.parent (f.parent i) = f.parent i := isRoot
      obtain ⟨m, shorter, way⟩ := (Climbs.atRoot isRoot).halve i
      have : (f.halve i).depth (f.parent i) = m := way.depth_eq (f := f.halve i)
      rw [top]
      omega
    | up _ above =>
      obtain ⟨m, shorter, way⟩ := above.halve i
      have : (f.halve i).depth (f.parent (f.parent i)) = m := way.depth_eq (f := f.halve i)
      omega

/-- The root of a number, and the forest with shorter ways up to it. -/
def find (f : Forest) (i : Nat) : Forest × Nat :=
  if f.parent i = i then (f, i) else (f.halve i).find ((f.halve i).parent i)
termination_by f.depth i
decreasing_by exact depth_halve_lt ‹_›

/-- A number is in the tree with the root `r`. -/
def IsBelow (f : Forest) (i r : Nat) : Prop := ∃ n, Climbs f.parents i n r

theorem IsBelow.unique {f : Forest} {i r q : Nat} (first : f.IsBelow i r) (second : f.IsBelow i q) :
    r = q := by
  obtain ⟨_, first⟩ := first
  obtain ⟨_, second⟩ := second
  exact (first.unique second).2

theorem isBelow_self {f : Forest} {r : Nat} : f.IsBelow r r ↔ f.parent r = r := by
  constructor
  · rintro ⟨_, way⟩
    exact way.isRoot
  · exact fun isRoot => ⟨0, .atRoot isRoot⟩

theorem isBelow_halve {f : Forest} {i j r : Nat} : (f.halve i).IsBelow j r ↔ f.IsBelow j r := by
  have kept {r : Nat} (below : f.IsBelow j r) : (f.halve i).IsBelow j r := by
    obtain ⟨_, way⟩ := below
    obtain ⟨m, _, shorter⟩ := way.halve i
    exact ⟨m, shorter⟩
  constructor
  · intro below
    obtain ⟨n, q, way⟩ := f.climbs j
    have same := below.unique (kept ⟨n, way⟩)
    exact ⟨n, same ▸ way⟩
  · exact kept

/-- Looking for a root changes no tree. -/
theorem isBelow_find {f : Forest} {i j r : Nat} : (f.find i).1.IsBelow j r ↔ f.IsBelow j r := by
  fun_induction find f i with
  | case1 => rfl
  | case2 f i inner ih => rw [ih, isBelow_halve]

/-- What is found is the root. -/
theorem isBelow_found (f : Forest) (i : Nat) : f.IsBelow i (f.find i).2 := by
  fun_induction find f i with
  | case1 f i isRoot => exact ⟨0, .atRoot isRoot⟩
  | case2 f i inner ih =>
    have below := isBelow_halve.mp ih
    generalize ((f.halve i).find ((f.halve i).parent i)).2 = r at below ⊢
    rw [parent_halve inner] at below
    obtain ⟨n, way⟩ := below
    by_cases top : f.parent (f.parent i) = f.parent i
    · rw [top] at way
      exact ⟨n + 1, .up inner way⟩
    · exact ⟨n + 2, .up inner (.up top way)⟩

/-- What is found stays a root while others are looked for. -/
theorem isRoot_found (f : Forest) (i j : Nat) :
    ((f.find j).1.find i).1.parent (f.find j).2 = (f.find j).2 := by
  obtain ⟨_, way⟩ := isBelow_found f j
  exact isBelow_self.mp (isBelow_find.mpr (isBelow_find.mpr ⟨0, .atRoot way.isRoot⟩))

/-- Giving a number a root for its parent leaves every number below a root. -/
theorem Climbs.attach {parents : List Nat} (q : Nat) {r : Nat} (isRoot : parentIn parents r = r)
    {i n s : Nat} (h : Climbs parents i n s) :
    ∃ m t, Climbs (parents.set q r) i m t := by
  have root : Climbs (parents.set q r) r 0 r :=
    .atRoot (by rw [parentIn_set]; split <;> simp [isRoot])
  have atNumber : ∃ m t, Climbs (parents.set q r) q m t ∨ parents.length ≤ q := by
    by_cases inside : q < parents.length
    · by_cases same : q = r
      · exact ⟨0, r, .inl (same ▸ root)⟩
      · have moved : parentIn (parents.set q r) q = r := by simp [parentIn_set, inside]
        exact ⟨1, r, .inl (.up (by rw [moved]; exact Ne.symm same) (by rwa [moved]))⟩
    · exact ⟨0, 0, .inr (by omega)⟩
  obtain ⟨m, t, atNumber⟩ := atNumber
  induction h with
  | @atRoot i top =>
    by_cases here : i = q ∧ q < parents.length
    · obtain ⟨rfl, inside⟩ := here
      exact ⟨m, t, atNumber.resolve_right (by omega)⟩
    · exact ⟨0, i, .atRoot (by rw [parentIn_set, if_neg here, top])⟩
  | @up i n s inner above ih =>
    by_cases here : i = q ∧ q < parents.length
    · obtain ⟨rfl, inside⟩ := here
      exact ⟨m, t, atNumber.resolve_right (by omega)⟩
    · obtain ⟨m, t, way⟩ := ih
      have same : parentIn (parents.set q r) i = parentIn parents i := by
        rw [parentIn_set, if_neg here]
      exact ⟨m + 1, t, .up (by rwa [same]) (by rwa [same])⟩

/-- The forest where the parent of a number is a certain root. -/
def attach (f : Forest) (q r : Nat) (isRoot : f.parent r = r) : Forest where
  parents := f.parents.set q r
  climbs i :=
    have ⟨_, _, way⟩ := f.climbs i
    way.attach q isRoot

/-- The forest where the trees of two numbers are one. -/
def join (f : Forest) (i j : Nat) : Forest :=
  ((f.find j).1.find i).1.attach ((f.find j).1.find i).2 (f.find j).2 (isRoot_found f i j)

end Forest

end Layering
