import Layering.Proofs.Grouping
import Layering.Remediation.Lane

/-!
# Lanes are components

The lanes of some jobs are the components of the relation "may change the same file". The proof
goes through the forest: two indices have the same root exactly when they are linked by what was
visited so far, and looking for roots changes none.
-/

namespace Layering

namespace Forest

/-- The root of a number. -/
def root (f : Forest) (i : Nat) : Nat := (f.find i).2

theorem root_eq_iff {f : Forest} {i r : Nat} : f.root i = r ↔ f.IsBelow i r := by
  constructor
  · rintro rfl
    exact isBelow_found f i
  · exact (isBelow_found f i).unique

theorem isRoot_root (f : Forest) (i : Nat) : f.parent (f.root i) = f.root i := by
  obtain ⟨_, way⟩ := isBelow_found f i
  exact way.isRoot

theorem root_find (f : Forest) (i j : Nat) : (f.find i).1.root j = f.root j := by
  rw [root_eq_iff, isBelow_find]
  exact isBelow_found f j

theorem length_find (f : Forest) (i : Nat) :
    (f.find i).1.parents.length = f.parents.length := by
  fun_induction find f i with
  | case1 => rfl
  | case2 f i inner ih => rw [ih, halve, List.length_set]

theorem root_single (n i : Nat) : (single n).root i = i := by
  rw [root_eq_iff, isBelow_self]
  simp [parent, parentIn, single]
  grind

/-- Below a root that gets a parent, the new parent is the root; no other root changes. -/
theorem root_attach {f : Forest} {q r : Nat} (isRoot : f.parent r = r) (top : f.parent q = q)
    (inside : q < f.parents.length) (i : Nat) :
    (f.attach q r isRoot).root i = if f.root i = q then r else f.root i := by
  have moved : (f.attach q r isRoot).parent q = r := by
    simp [parent, attach, parentIn_set, inside]
  have kept {j : Nat} (other : j ≠ q) : (f.attach q r isRoot).parent j = f.parent j := by
    simp [parent, attach, parentIn_set, other]
  have atRoot : (f.attach q r isRoot).IsBelow r r := by
    rw [isBelow_self]
    by_cases same : r = q
    · subst same
      exact moved
    · rw [kept same, isRoot]
  -- What hangs below the number now climbs one step further, to the root it was hung on.
  have atNumber : (f.attach q r isRoot).IsBelow q r := by
    by_cases same : r = q
    · exact same ▸ atRoot
    · obtain ⟨n, way⟩ := atRoot
      have next : parentIn (f.attach q r isRoot).parents q = r := moved
      exact ⟨n + 1, .up (by rwa [next]) (by rwa [next])⟩
  rw [root_eq_iff]
  obtain ⟨n, way⟩ := isBelow_found f i
  change Climbs f.parents i n (f.root i) at way
  generalize f.root i = s at way ⊢
  -- Along the way up in the old forest: it is unchanged up to the number.
  induction way with
  | @atRoot s isTop =>
    split
    next equal => exact equal ▸ atNumber
    next other => exact isBelow_self.mpr ((kept other).trans isTop)
  | @up j n s inner _ ih =>
    have other : j ≠ q := by
      rintro rfl
      exact inner top
    obtain ⟨m, way⟩ := ih
    have same : parentIn (f.attach q r isRoot).parents j = parentIn f.parents j := kept other
    exact ⟨m + 1, .up (by rwa [same]) (by rwa [same])⟩

/-- Joining two trees gives all their numbers the root of the second. -/
theorem root_join {f : Forest} {i : Nat} (inside : f.root i < f.parents.length) (j k : Nat) :
    (f.join i j).root k = if f.root k = f.root i then f.root j else f.root k := by
  have found : ((f.find j).1.find i).2 = f.root i := root_find f j i
  have still : ((f.find j).1.find i).1.parent ((f.find j).1.find i).2 =
      ((f.find j).1.find i).2 := by
    rw [← isBelow_self, isBelow_find, isBelow_self]
    exact isRoot_root _ _
  rw [join, root_attach _ still (by rwa [found, length_find, length_find]), found, root_find,
    root_find]
  rfl

theorem length_join (f : Forest) (i j : Nat) :
    (f.join i j).parents.length = f.parents.length := by
  rw [join, attach, List.length_set, length_find, length_find]

end Forest

namespace Lane

/-- Two indices have a visited file in common. -/
def Meets (seen : List (Nat × Path)) (i j : Nat) : Prop := ∃ p, (i, p) ∈ seen ∧ (j, p) ∈ seen

instance (seen : List (Nat × Path)) : Std.Symm (Meets seen) where
  symm _ _ := fun ⟨p, first, second⟩ => ⟨p, second, first⟩

/-- Two indices are linked by a chain in which neighbours have a visited file in common. -/
def Chained (seen : List (Nat × Path)) : Nat → Nat → Prop := Relation.ReflTransGen (Meets seen)

theorem Chained.symm {seen : List (Nat × Path)} {i j : Nat} (h : Chained seen i j) :
    Chained seen j i :=
  Std.Symm.symm (r := Relation.ReflTransGen (Meets seen)) i j h

theorem Chained.mono {seen more : List (Nat × Path)} (part : seen ⊆ more) {i j : Nat}
    (h : Chained seen i j) : Chained more i j :=
  Relation.ReflTransGen.mono (fun _ _ ⟨p, first, second⟩ => ⟨p, part first, part second⟩) i j h

namespace Overlap

/-- The trees are the components of what was visited, and every visited file has an owner in the
tree of those that may change it. -/
structure Describes (o : Overlap) (n : Nat) (seen : List (Nat × Path)) : Prop where
  size : o.forest.parents.length = n
  inside : ∀ i < n, o.forest.root i < n
  bounded : ∀ {i p}, (i, p) ∈ seen → i < n
  owned : ∀ {i p}, Entries.get? p o.owners = some i → (i, p) ∈ seen
  owns : ∀ {i p}, (i, p) ∈ seen →
    ∃ j, Entries.get? p o.owners = some j ∧ o.forest.root i = o.forest.root j
  chained : ∀ {i j}, o.forest.root i = o.forest.root j → Chained seen i j

theorem Describes.root_eq_iff {o : Overlap} {n : Nat} {seen : List (Nat × Path)}
    (h : o.Describes n seen) {i j : Nat} :
    o.forest.root i = o.forest.root j ↔ Chained seen i j := by
  constructor
  · exact h.chained
  · intro chain
    -- Along the chain: two visits at one path have the same owner's root.
    induction chain with
    | refl => rfl
    | tail _ next ih =>
      obtain ⟨p, first, second⟩ := next
      obtain ⟨k, owner, left⟩ := h.owns first
      obtain ⟨l, same, right⟩ := h.owns second
      cases owner.symm.trans same
      exact ih.trans (left.trans right.symm)

section

variable {o : Overlap} {n index : Nat} {seen : List (Nat × Path)} {p : Path}
variable (h : o.Describes n seen) (small : index < n)
include h small

theorem Describes.bounded_visit {i : Nat} {q : Path} (member : (i, q) ∈ seen ++ [(index, p)]) :
    i < n := by
  rcases List.mem_append.mp member with old | new
  · exact h.bounded old
  · cases List.mem_singleton.mp new
    exact small

/-- A file that has an owner joins the trees of the two. -/
theorem Describes.visit_owned {owner : Nat} (found : Entries.get? p o.owners = some owner) :
    Describes { o with forest := o.forest.join index owner } n (seen ++ [(index, p)]) := by
  have grown : seen ⊆ seen ++ [(index, p)] := List.subset_append_left _ _
  have last : (index, p) ∈ seen ++ [(index, p)] := by simp
  have ownerSeen := h.owned found
  have root (k : Nat) := Forest.root_join (f := o.forest) (i := index)
    (by rw [h.size]; exact h.inside index small) owner k
  refine ⟨?_, ?_, h.bounded_visit small, fun found => grown (h.owned found), ?_, ?_⟩
  · rw [Forest.length_join, h.size]
  · intro i small
    rw [root]
    split
    · exact h.inside owner (h.bounded ownerSeen)
    · exact h.inside i small
  · intro i q member
    rcases List.mem_append.mp member with old | new
    · obtain ⟨j, owns, same⟩ := h.owns old
      exact ⟨j, owns, by rw [root, root, same]⟩
    · cases List.mem_singleton.mp new
      refine ⟨owner, found, ?_⟩
      rw [root, root, if_pos rfl]
      split <;> rfl
  · -- The only new link is the one between `index` and the owner.
    have link : Chained (seen ++ [(index, p)]) index owner :=
      .single ⟨p, last, grown ownerSeen⟩
    intro i j same
    rw [root, root] at same
    split at same <;> split at same
    next left right => exact (h.chained (left.trans right.symm)).mono grown
    next left _ =>
      exact ((h.chained left).mono grown).trans (link.trans ((h.chained same).mono grown))
    next _ right =>
      exact ((h.chained same).mono grown).trans
        (link.symm.trans ((h.chained right).mono grown).symm)
    next => exact (h.chained same).mono grown

/-- A file that has no owner gets one. -/
theorem Describes.visit_new (unknown : Entries.get? p o.owners = none) :
    Describes { o with owners := Entries.put p index o.owners } n (seen ++ [(index, p)]) := by
  have grown : seen ⊆ seen ++ [(index, p)] := List.subset_append_left _ _
  have new {i : Nat} {q : Path} (member : (i, q) ∈ seen) : (p == q) = false := by
    rw [beq_eq_false_iff_ne]
    rintro rfl
    obtain ⟨j, found, _⟩ := h.owns member
    rw [unknown] at found
    contradiction
  -- The path was unknown, so its owner is the visitor, and every other path keeps its own.
  refine ⟨h.size, h.inside, h.bounded_visit small, ?_, ?_, fun same => (h.chained same).mono grown⟩
  · intro i q found
    rw [Entries.get?_put] at found
    split at found
    next same =>
      cases found
      exact eq_of_beq same ▸ by simp
    next => exact grown (h.owned found)
  · intro i q member
    rcases List.mem_append.mp member with old | fresh
    · obtain ⟨j, found, same⟩ := h.owns old
      exact ⟨j, by rw [Entries.get?_put, new old]; exact found, same⟩
    · cases List.mem_singleton.mp fresh
      exact ⟨index, by rw [Entries.get?_put, beq_self_eq_true]; rfl, rfl⟩

/-- Visiting one more file keeps the trees the components of what was visited. -/
theorem Describes.visit (p : Path) : (o.visit index p).Describes n (seen ++ [(index, p)]) := by
  unfold Overlap.visit
  split
  next found => exact h.visit_owned small found
  next unknown => exact h.visit_new small unknown

end

/-- What is visited for some jobs. -/
def visits (jobs : List Job) : List (Nat × Path) :=
  jobs.flatMap fun job => job.targets.map fun p => (job.index, p)

theorem mem_visits {jobs : List Job} {i : Nat} {p : Path} :
    (i, p) ∈ visits jobs ↔ ∃ job ∈ jobs, job.index = i ∧ p ∈ job.targets := by
  simp only [visits, List.mem_flatMap, List.mem_map, Prod.mk.injEq]
  constructor
  · rintro ⟨job, member, _, target, rfl, rfl⟩
    exact ⟨job, member, rfl, target⟩
  · rintro ⟨job, member, rfl, target⟩
    exact ⟨job, member, p, target, rfl, rfl⟩

theorem Describes.visitAll {n index : Nat} (small : index < n) (files : List Path) :
    ∀ {o : Overlap} {seen : List (Nat × Path)}, o.Describes n seen →
      (files.foldl (Overlap.visit index) o).Describes n (seen ++ files.map fun p => (index, p)) := by
  induction files with
  | nil => simp
  | cons p rest ih =>
    intro o seen h
    simpa using ih (h.visit small p)

theorem describes_ofJobs (jobs : List Job) (small : ∀ job ∈ jobs, job.index < jobs.length) :
    (ofJobs jobs).Describes jobs.length (visits jobs) := by
  -- Along the jobs, with those that were visited kept beside the forest.
  suffices h : ∀ (rest : List Job) {o : Overlap} {seen : List (Nat × Path)}, rest ⊆ jobs →
      o.Describes jobs.length seen →
      (rest.foldl (fun o job => job.targets.foldl (visit job.index) o) o).Describes jobs.length
        (seen ++ visits rest) by
    have start : Describes { forest := .single jobs.length } jobs.length [] := by
      refine ⟨by simp [Forest.single], ?_, by simp, by simp [Entries.get?], by simp, ?_⟩
      · intro i small
        rwa [Forest.root_single]
      · intro i j same
        rw [Forest.root_single, Forest.root_single] at same
        exact same ▸ .refl
    simpa [ofJobs] using h jobs (List.Subset.refl _) start
  intro rest
  induction rest with
  | nil => simp [visits]
  | cons job rest ih =>
    intro o seen part describes
    obtain ⟨first, part⟩ := List.cons_subset.mp part
    have next := describes.visitAll (small job first) job.targets
    simpa [visits] using ih part next

end Overlap

/-- Collecting is grouping by root: looking for a root changes none. -/
theorem collect_eq (f : Forest) (jobs : List Job) (lanes : List (Nat × Lane)) :
    collect f lanes jobs =
      jobs.foldl (fun lanes job => Entries.add (f.root job.index) job lanes) lanes := by
  induction jobs generalizing f lanes with
  | nil => rfl
  | cons job rest ih =>
    change collect (f.find job.index).1 (Entries.add (f.root job.index) job lanes) rest = _
    rw [ih, List.foldl_cons]
    simp only [Forest.root_find]

theorem ofJobs_eq (jobs : List Job) :
    ofJobs jobs = Entries.groups (fun job => (Overlap.ofJobs jobs).forest.root job.index) jobs := by
  rw [ofJobs, collect_eq, ← Entries.map_snd_group]
  rfl

end Lane

namespace Job

/-- Two jobs may change the same file. -/
def Shares (a b : Job) : Prop := ∃ p, p ∈ a.targets ∧ p ∈ b.targets

/-- Two jobs are linked by a chain of jobs in which neighbours may change the same file. -/
def Linked (jobs : List Job) : Job → Job → Prop :=
  Relation.ReflTransGen fun a b => a ∈ jobs ∧ b ∈ jobs ∧ a.Shares b

/-- Two jobs stand at the same place and may change the same files. -/
def SameFiles (a b : Job) : Prop := a.index = b.index ∧ ∀ p, p ∈ a.targets ↔ p ∈ b.targets

end Job

namespace Lane

/-- The index of a job is its place in the list. -/
def Numbered (jobs : List Job) : Prop := jobs.map (·.index) = List.range jobs.length

theorem Numbered.index_lt {jobs : List Job} (h : Numbered jobs) {job : Job} (member : job ∈ jobs) :
    job.index < jobs.length :=
  List.mem_range.mp (h ▸ List.mem_map_of_mem member)

theorem Numbered.index_getElem {jobs : List Job} (h : Numbered jobs) {i : Nat}
    (inside : i < jobs.length) : jobs[i].index = i := by
  have at_ := congrArg (·[i]?) h
  simpa [inside] using at_

theorem Numbered.pairwise {jobs : List Job} (h : Numbered jobs) :
    jobs.Pairwise fun a b => a.index < b.index := by
  rw [← List.pairwise_map, show jobs.map (·.index) = _ from h]
  exact List.pairwise_lt_range

theorem Numbered.index_inj {jobs : List Job} (h : Numbered jobs) {a b : Job} (ha : a ∈ jobs)
    (hb : b ∈ jobs) (same : a.index = b.index) : a = b :=
  List.inj_on_of_nodup_map ((show jobs.map (·.index) = _ from h) ▸ List.nodup_range) ha hb same

/-- Chains of indices are chains of jobs. -/
theorem Numbered.chained_iff {jobs : List Job} (h : Numbered jobs) {a b : Job} (ha : a ∈ jobs)
    (hb : b ∈ jobs) :
    Chained (Overlap.visits jobs) a.index b.index ↔ Job.Linked jobs a b := by
  constructor
  · suffices chain : ∀ {i}, Chained (Overlap.visits jobs) a.index i →
        ∀ b ∈ jobs, b.index = i → Job.Linked jobs a b from fun h => chain h b hb rfl
    intro i chain
    -- Along the chain: a number stands for one job only.
    induction chain with
    | refl =>
      intro b hb same
      exact h.index_inj ha hb same.symm ▸ .refl
    | tail _ next ih =>
      intro b hb same
      obtain ⟨p, first, second⟩ := next
      obtain ⟨c, hc, equal, left⟩ := Overlap.mem_visits.mp first
      obtain ⟨d, hd, equal', right⟩ := Overlap.mem_visits.mp second
      cases h.index_inj hb hd (same.trans equal'.symm)
      exact (ih c hc equal).tail ⟨hc, hb, p, left, right⟩
  · intro chain
    clear hb
    induction chain with
    | refl => exact .refl
    | tail _ next ih =>
      obtain ⟨hc, hb, p, left, right⟩ := next
      exact ih.tail ⟨p, Overlap.mem_visits.mpr ⟨_, hc, rfl, left⟩,
        Overlap.mem_visits.mpr ⟨_, hb, rfl, right⟩⟩

theorem Numbered.root_eq_iff {jobs : List Job} (h : Numbered jobs) {i j : Nat} :
    (Overlap.ofJobs jobs).forest.root i = (Overlap.ofJobs jobs).forest.root j ↔
      Chained (Overlap.visits jobs) i j :=
  (Overlap.describes_ofJobs jobs fun _ member => h.index_lt member).root_eq_iff

/-- The indices of the lanes are the groups of the indices by root. -/
theorem Numbered.indices_ofJobs {jobs : List Job} (h : Numbered jobs) :
    (ofJobs jobs).map (·.map (·.index)) =
      Entries.groups (Overlap.ofJobs jobs).forest.root (List.range jobs.length) := by
  rw [ofJobs_eq, ← show jobs.map (·.index) = _ from h, Entries.groups_map]
  rfl

theorem visits_subset {jobs jobs' : List Job} (same : List.Forall₂ Job.SameFiles jobs jobs') :
    Overlap.visits jobs ⊆ Overlap.visits jobs' := by
  induction same with
  | nil => simp [Overlap.visits]
  | cons pair _ ih =>
    intro visit member
    simp only [Overlap.visits, List.flatMap_cons, List.mem_append, List.mem_map] at member ⊢
    rcases member with ⟨p, target, rfl⟩ | later
    · exact .inl ⟨p, (pair.2 p).mp target, by rw [pair.1]⟩
    · exact .inr (ih later)

theorem numbered_congr {jobs jobs' : List Job} (same : List.Forall₂ Job.SameFiles jobs jobs') :
    jobs.map (·.index) = jobs'.map (·.index) := by
  induction same with
  | nil => rfl
  | cons pair _ ih => rw [List.map_cons, List.map_cons, pair.1, ih]

/-- Lanes are the components of some jobs: every job stands in one lane, with those that it is
linked to; the jobs of a lane come in their order, and lanes in that of their first jobs. -/
structure Components (jobs : List Job) (lanes : List Lane) : Prop where
  partition : lanes.flatten.Perm jobs
  inhabited : ∀ lane ∈ lanes, lane ≠ []
  together : ∀ a ∈ jobs, ∀ b ∈ jobs,
    (∃ lane ∈ lanes, a ∈ lane ∧ b ∈ lane) ↔ Job.Linked jobs a b
  inner : ∀ lane ∈ lanes, lane.Pairwise fun a b => a.index < b.index
  outer : lanes.Pairwise fun lane later => ∃ a ∈ lane, ∀ b ∈ later, a.index < b.index

theorem Numbered.components {jobs : List Job} (h : Numbered jobs) :
    Components jobs (ofJobs jobs) := by
  rw [ofJobs_eq]
  refine ⟨Entries.groups_perm _ _, fun _ => Entries.ne_nil_of_mem_groups, ?_, ?_,
    Entries.pairwise_groups _ h.pairwise⟩
  · intro a ha b hb
    rw [Entries.mem_group_iff ha hb, h.root_eq_iff, h.chained_iff ha hb]
  · intro lane member
    obtain ⟨_, _, rfl⟩ := List.mem_map.mp member
    exact h.pairwise.filter _

/-- Jobs with the same files have the same lanes, in whatever order the files are visited. -/
theorem Numbered.indices_congr {jobs jobs' : List Job} (h : Numbered jobs)
    (same : List.Forall₂ Job.SameFiles jobs jobs') :
    (ofJobs jobs).map (·.map (·.index)) = (ofJobs jobs').map (·.map (·.index)) := by
  have h' : Numbered jobs' := by
    rw [Numbered, ← numbered_congr same, ← same.length_eq]
    exact h
  have back : List.Forall₂ Job.SameFiles jobs' jobs :=
    same.flip.imp fun _ _ pair => ⟨pair.1.symm, fun p => (pair.2 p).symm⟩
  rw [h.indices_ofJobs, h'.indices_ofJobs, ← same.length_eq]
  refine Entries.groups_congr fun i _ j _ => ?_
  rw [h.root_eq_iff, h'.root_eq_iff]
  exact ⟨Chained.mono (visits_subset same), Chained.mono (visits_subset back)⟩

/-- Three jobs, where the last may change the file of each of the others. -/
private def threeJobs (last : List Path) : List Job :=
  let job (index : Nat) (targets : List Path) : Job :=
    { index, violation := { rule := "MS-001" }, fixers := [], targets }
  [job 0 ["a"], job 1 ["b"], job 2 last]

/-- The parents do depend on the order in which files are visited. -/
private theorem parents_differ : (Overlap.ofJobs (threeJobs ["a", "b"])).forest.parents ≠
    (Overlap.ofJobs (threeJobs ["b", "a"])).forest.parents := by
  have forward : (Overlap.ofJobs (threeJobs ["a", "b"])).forest =
      ((Forest.single 3).join 2 0).join 2 1 := rfl
  have backward : (Overlap.ofJobs (threeJobs ["b", "a"])).forest =
      ((Forest.single 3).join 2 1).join 2 0 := rfl
  have inner (i j : Nat) (small : i < 3) :
      ((Forest.single 3).join 2 i).root j = if j = 2 then i else j := by
    rw [Forest.root_join (by rw [Forest.root_single]; simp [Forest.single])]
    simp only [Forest.root_single]
  have outer (i j : Nat) (small : i < 3) :
      (((Forest.single 3).join 2 i).join 2 j).root 2 = if j = 2 then i else j := by
    rw [Forest.root_join (by rw [inner i 2 small, Forest.length_join]; simpa [Forest.single]),
      if_pos rfl, inner i j small]
  intro same
  have roots := congrArg (Forest.root · 2) (Forest.ext same)
  change (Overlap.ofJobs (threeJobs ["a", "b"])).forest.root 2 =
    (Overlap.ofJobs (threeJobs ["b", "a"])).forest.root 2 at roots
  rw [forward, backward, outer 0 1 (by omega), outer 1 0 (by omega)] at roots
  contradiction

/-- The lanes of some jobs are their components. They do not depend on the order in which the files
of a job are visited, although the trees behind them do. -/
theorem ofJobs_components {jobs : List Job} (numbered : Numbered jobs) :
    Components jobs (ofJobs jobs) ∧
    (∀ jobs', List.Forall₂ Job.SameFiles jobs jobs' →
      (ofJobs jobs).map (·.map (·.index)) = (ofJobs jobs').map (·.map (·.index))) ∧
    ∃ first second : List Job, List.Forall₂ Job.SameFiles first second ∧
      (Overlap.ofJobs first).forest.parents ≠ (Overlap.ofJobs second).forest.parents := by
  refine ⟨numbered.components, fun _ => numbered.indices_congr, threeJobs ["a", "b"],
    threeJobs ["b", "a"], ?_, parents_differ⟩
  have swapped (p : Path) : p ∈ (["a", "b"] : List Path) ↔ p ∈ (["b", "a"] : List Path) := by
    simp [or_comm]
  exact .cons ⟨rfl, fun _ => .rfl⟩ (.cons ⟨rfl, fun _ => .rfl⟩ (.cons ⟨rfl, swapped⟩ .nil))

/-- The first two of these jobs have no file in common, and yet all three stand in one lane. -/
theorem ofJobs_threeJobs : Numbered (threeJobs ["a", "b"]) ∧
    Components (threeJobs ["a", "b"]) (ofJobs (threeJobs ["a", "b"])) :=
  have numbered : Numbered (threeJobs ["a", "b"]) := rfl
  ⟨numbered, (ofJobs_components numbered).1⟩

end Lane

end Layering
