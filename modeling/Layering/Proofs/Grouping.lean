import Layering.Entries
import Mathlib

/-!
# Groups

What grouping by a key gives: one group for each key, in the order in which the keys first appear,
with the elements of that key in their order. The groups depend on nothing but which elements have
the same key.
-/

namespace Layering.Entries

variable {κ α : Type} [BEq κ] [LawfulBEq κ]

theorem nodup_eraseDups (ks : List κ) : ks.eraseDups.Nodup := by
  induction h : ks.length using Nat.strongRecOn generalizing ks with
  | ind n ih =>
    cases ks with
    | nil => simp
    | cons k rest =>
      subst h
      rw [List.eraseDups_cons, List.nodup_cons]
      refine ⟨by simp [List.mem_eraseDups], ih _ ?_ _ rfl⟩
      exact Nat.lt_succ_of_le (List.length_filter_le _ rest)

theorem get?_map_prod (f : κ → α) (k : κ) (ks : List κ) :
    get? k (ks.map fun k => (k, f k)) = if k ∈ ks then some (f k) else none := by
  induction ks with
  | nil => simp [get?]
  | cons first rest ih =>
    by_cases same : first == k
    · have equal := eq_of_beq same
      subst equal
      simp [get?]
    · have other : k ≠ first := fun equal => same (by simp [equal])
      simp [get?, same, ih, other]

/-- Putting a value under a key of a table changes the table there, or adds a row to it. -/
theorem put_map_prod (f : κ → α) (k : κ) (x : α) (ks : List κ) (distinct : ks.Nodup) :
    put k x (ks.map fun k => (k, f k)) =
      (ks ++ if k ∈ ks then [] else [k]).map fun j => (j, if j == k then x else f j) := by
  unfold put
  induction ks with
  | nil => simp [putWhere]
  | cons first rest ih =>
    obtain ⟨new, distinct⟩ := List.nodup_cons.mp distinct
    simp only [List.map_cons, putWhere]
    by_cases same : first == k
    · have equal := eq_of_beq same
      subst equal
      have unchanged : ∀ j ∈ rest, (j == first) = false := by
        intro j member
        simpa using ne_of_mem_of_not_mem member new
      simp only [beq_self_eq_true, if_true, List.mem_cons, true_or, List.append_nil,
        List.map_cons, List.cons.injEq, true_and]
      exact List.map_congr_left fun j member => by simp [unchanged j member]
    · have other : k ≠ first := fun equal => same (by simp [equal])
      rw [if_neg same, ih distinct]
      simp [same, other]

/-- The groups of some elements: the keys as they first appear, each with its elements. -/
theorem group_eq (key : α → κ) (xs : List α) :
    group key xs = (xs.map key).eraseDups.map fun k => (k, xs.filter (key · == k)) := by
  suffices h : ∀ seen, xs.foldl (fun entries x => add (key x) x entries)
      ((seen.map key).eraseDups.map fun k => (k, seen.filter (key · == k))) =
        ((seen ++ xs).map key).eraseDups.map fun k => (k, (seen ++ xs).filter (key · == k)) by
    simpa [group] using h []
  induction xs with
  | nil => simp
  | cons x rest ih =>
    intro seen
    have more : add (key x) x ((seen.map key).eraseDups.map fun k => (k, seen.filter (key · == k)))
        = ((seen ++ [x]).map key).eraseDups.map fun k => (k, (seen ++ [x]).filter (key · == k)) := by
      rw [add, get?_map_prod, put_map_prod _ _ _ _ (nodup_eraseDups _)]
      have keys : ((seen ++ [x]).map key).eraseDups =
          (seen.map key).eraseDups ++ if key x ∈ (seen.map key).eraseDups then [] else [key x] := by
        rw [List.map_append, List.eraseDups_append]
        by_cases old : key x ∈ (seen.map key).eraseDups
        · simp [List.removeAll, old, List.mem_eraseDups.mp old]
        · have absent := mt List.mem_eraseDups.mpr old
          simp [List.removeAll, old, absent, List.eraseDups_cons]
      rw [keys]
      refine List.map_congr_left fun k _ => ?_
      by_cases same : k = key x
      · subst same
        by_cases old : key x ∈ (seen.map key).eraseDups
        · simp [old]
        · have none_before : seen.filter (key · == key x) = [] := by
            rw [List.filter_eq_nil_iff]
            intro y member equal
            exact old (List.mem_eraseDups.mpr (List.mem_map.mpr ⟨y, member, eq_of_beq equal⟩))
          simp [old, none_before]
      · have other : key x ≠ k := Ne.symm same
        simp [same, other]
    rw [List.foldl_cons, more, ih]
    simp

/-- The elements of each key, in the order in which the keys first appear. -/
def groups (key : α → κ) (xs : List α) : List (List α) :=
  (xs.map key).eraseDups.map fun k => xs.filter (key · == k)

theorem map_snd_group (key : α → κ) (xs : List α) : (group key xs).map (·.2) = groups key xs := by
  simp [group_eq, groups]

omit [LawfulBEq κ] in
/-- The keys that come after the first one are those of the elements with other keys. -/
private theorem eraseDups_map_cons (key : α → κ) (x : α) (rest : List α) :
    ((x :: rest).map key).eraseDups =
      key x :: ((rest.filter fun y => !key y == key x).map key).eraseDups := by
  rw [List.map_cons, List.eraseDups_cons, List.filter_map]
  rfl

theorem groups_perm (key : α → κ) (xs : List α) : (groups key xs).flatten.Perm xs := by
  induction h : xs.length using Nat.strongRecOn generalizing xs with
  | ind n ih =>
    cases xs with
    | nil => simp [groups]
    | cons x rest =>
      subst h
      have ih := ih _ (Nat.lt_succ_of_le (List.length_filter_le (fun y => !key y == key x) rest))
        (rest.filter fun y => !key y == key x) rfl
      have others : (groups key (x :: rest)).flatten = (x :: rest).filter (key · == key x) ++
          (groups key (rest.filter fun y => !key y == key x)).flatten := by
        rw [groups, eraseDups_map_cons, List.map_cons, List.flatten_cons, groups]
        congr 2
        refine List.map_congr_left fun k member => ?_
        have apart : (key x == k) = false := by
          obtain ⟨y, here, rfl⟩ := List.mem_map.mp (List.mem_eraseDups.mp member)
          rw [BEq.comm]
          simpa only [Bool.not_eq_true'] using (List.mem_filter.mp here).2
        rw [List.filter_cons, apart, List.filter_filter]
        refine List.filter_congr fun y _ => ?_
        by_cases same : key y == k
        · have equal := eq_of_beq same
          subst equal
          rw [BEq.comm] at apart
          simp [apart]
        · simp [same]
      rw [others, List.filter_cons, beq_self_eq_true]
      have split := List.filter_append_perm (fun y => key y == key x) rest
      exact List.Perm.cons x ((List.Perm.append_left _ ih).trans split)

theorem ne_nil_of_mem_groups {key : α → κ} {xs g : List α} (member : g ∈ groups key xs) :
    g ≠ [] := by
  obtain ⟨k, appears, rfl⟩ := List.mem_map.mp member
  obtain ⟨x, here, rfl⟩ := List.mem_map.mp (List.mem_eraseDups.mp appears)
  exact List.ne_nil_of_mem (List.mem_filter.mpr ⟨here, beq_self_eq_true _⟩)

/-- Two elements stand in one group when they have the same key. -/
theorem mem_group_iff {key : α → κ} {xs : List α} {x y : α} (hx : x ∈ xs) (hy : y ∈ xs) :
    (∃ g ∈ groups key xs, x ∈ g ∧ y ∈ g) ↔ key x = key y := by
  constructor
  · rintro ⟨g, member, first, second⟩
    obtain ⟨k, _, rfl⟩ := List.mem_map.mp member
    have first := eq_of_beq (List.mem_filter.mp first).2
    have second := eq_of_beq (List.mem_filter.mp second).2
    exact first.trans second.symm
  · intro same
    refine ⟨xs.filter (key · == key x), ?_, ?_, ?_⟩
    · exact List.mem_map.mpr ⟨key x, List.mem_eraseDups.mpr (List.mem_map_of_mem hx), rfl⟩
    · exact List.mem_filter.mpr ⟨hx, beq_self_eq_true _⟩
    · exact List.mem_filter.mpr ⟨hy, by simp [same]⟩

/-- Groups come in the order of their first elements. -/
theorem pairwise_groups {r : α → α → Prop} (key : α → κ) {xs : List α} (ordered : xs.Pairwise r) :
    (groups key xs).Pairwise fun g later => ∃ x ∈ g, ∀ y ∈ later, r x y := by
  rw [groups, List.pairwise_map]
  suffices h : ∀ ys : List α, ys.Sublist xs → (∀ x ∈ xs, key x ∈ ys.map key → x ∈ ys) →
      (ys.map key).eraseDups.Pairwise fun k k' =>
        ∃ x ∈ xs.filter (key · == k), ∀ y ∈ xs.filter (key · == k'), r x y from
    h xs (List.Sublist.refl _) fun x hx _ => hx
  intro ys
  induction h : ys.length using Nat.strongRecOn generalizing ys with
  | ind n ih =>
    intro part whole
    cases ys with
    | nil => simp
    | cons y rest =>
      subst h
      rw [eraseDups_map_cons, List.pairwise_cons]
      have first : y ∈ xs := part.subset List.mem_cons_self
      constructor
      · intro k later
        refine ⟨y, List.mem_filter.mpr ⟨first, beq_self_eq_true _⟩, fun z hz => ?_⟩
        obtain ⟨member, same⟩ := List.mem_filter.mp hz
        have same := eq_of_beq same
        subst same
        obtain ⟨w, hw, equal⟩ := List.mem_map.mp (List.mem_eraseDups.mp later)
        obtain ⟨hw, other⟩ := List.mem_filter.mp hw
        -- `z` is one of `y :: rest`, and its key tells it apart from `y`.
        have here : z ∈ y :: rest := whole z member
          (List.mem_map.mpr ⟨w, List.mem_cons_of_mem _ hw, equal⟩)
        have apart : z ≠ y := by
          rintro rfl
          simp [equal] at other
        exact (List.pairwise_cons.mp (ordered.sublist part)).1 z
          ((List.mem_cons.mp here).resolve_left apart)
      · refine ih _ (Nat.lt_succ_of_le (List.length_filter_le _ rest)) _ rfl ?_ ?_
        · exact List.filter_sublist.trans ((List.sublist_cons_self y rest).trans part)
        · intro x hx key_mem
          obtain ⟨w, hw, equal⟩ := List.mem_map.mp key_mem
          obtain ⟨hw, other⟩ := List.mem_filter.mp hw
          have here := whole x hx (List.mem_map.mpr ⟨w, List.mem_cons_of_mem _ hw, equal⟩)
          have apart : x ≠ y := by
            rintro rfl
            simp [equal] at other
          exact List.mem_filter.mpr ⟨(List.mem_cons.mp here).resolve_left apart, by rwa [← equal]⟩

/-- Two keys that tell the same elements apart give the same groups. -/
theorem groups_congr {κ' : Type} [BEq κ'] [LawfulBEq κ'] {key : α → κ} {key' : α → κ'}
    {xs : List α} (same : ∀ x ∈ xs, ∀ y ∈ xs, key x = key y ↔ key' x = key' y) :
    groups key xs = groups key' xs := by
  have test {x y : α} (hx : x ∈ xs) (hy : y ∈ xs) : (key x == key y) = (key' x == key' y) := by
    rw [Bool.eq_iff_iff, beq_iff_eq, beq_iff_eq]
    exact same x hx y hy
  suffices h : ∀ ys : List α, ys ⊆ xs →
      (ys.map key).eraseDups.map (fun k => xs.filter (key · == k)) =
        (ys.map key').eraseDups.map fun k => xs.filter (key' · == k) from
    h xs (List.Subset.refl _)
  intro ys
  induction h : ys.length using Nat.strongRecOn generalizing ys with
  | ind n ih =>
    intro part
    cases ys with
    | nil => simp
    | cons y rest =>
      subst h
      obtain ⟨first, part⟩ := List.cons_subset.mp part
      have others : (rest.filter fun z => !key z == key y) =
          rest.filter fun z => !key' z == key' y :=
        List.filter_congr fun z hz => by rw [test (part hz) first]
      rw [eraseDups_map_cons, eraseDups_map_cons, List.map_cons, List.map_cons, ← others]
      congr 1
      · exact List.filter_congr fun z hz => test hz first
      · exact ih _ (Nat.lt_succ_of_le (List.length_filter_le _ rest)) _ rfl
          fun _ member => part (List.mem_filter.mp member).1

omit [LawfulBEq κ] in
theorem groups_map {β : Type} (key : β → κ) (f : α → β) (xs : List α) :
    groups key (xs.map f) = (groups (key ∘ f) xs).map (·.map f) := by
  simp only [groups, List.map_map]
  refine List.map_congr_left fun k _ => ?_
  simp only [Function.comp_apply, List.filter_map]
  rfl

end Layering.Entries
