import Layering.Remediation.Job
import Mathlib

/-!
# Ranking of fixers

Whatever is registered and removed, a table lists the fixers that are left by descending priority,
and those of one priority as they were registered. So do the candidates for a violation.
-/

namespace Layering

namespace FixerTable

/-- Fixers by descending priority. Those of one priority stand in the order of the second list. -/
structure Ranked (ranked fixers : List Fixer) : Prop where
  descending : ranked.Pairwise fun f g => g.priority ≤ f.priority
  ties : ∀ p, ranked.filter (·.priority = p) = fixers.filter (·.priority = p)

/-- How a table comes about, with the fixers that are left in the order in which they were
registered. -/
inductive Holds : FixerTable → List Fixer → Prop
  | empty (settings : Settings) : Holds { settings } []
  | register {t : FixerTable} {kept : List Fixer} (f : Fixer) (before : Holds t kept) :
    Holds (t.register f) (others f.name kept ++ [f])
  | unregister {t : FixerTable} {kept : List Fixer} (name : Text) (before : Holds t kept) :
    Holds (t.unregister name) (others name kept)
  | clear {t : FixerTable} {kept : List Fixer} (before : Holds t kept) : Holds t.clear []

theorem Ranked.filter {ranked fixers : List Fixer} (h : Ranked ranked fixers)
    (test : Fixer → Bool) : Ranked (ranked.filter test) (fixers.filter test) where
  descending := h.descending.filter test
  ties p := by
    simp only [List.filter_filter, Bool.and_comm _ (test _)]
    simp only [← List.filter_filter, h.ties]

theorem Ranked.mem_iff {ranked fixers : List Fixer} (h : Ranked ranked fixers) {f : Fixer} :
    f ∈ ranked ↔ f ∈ fixers := by
  have class_iff := congrArg (f ∈ ·) (h.ties f.priority)
  simpa [List.mem_filter] using class_iff

/-- Sorting leaves the fixers of one priority in their order. -/
theorem filter_sorted (fixers : List Fixer) (p : Int) :
    (sorted fixers).filter (·.priority = p) = fixers.filter (·.priority = p) := by
  have level : (fixers.filter (·.priority = p)).Pairwise fun f g => decide (g.priority ≤ f.priority) := by
    refine List.pairwise_of_forall_mem_list fun f hf g hg => ?_
    have atF := of_decide_eq_true (List.mem_filter.mp hf).2
    have atG := of_decide_eq_true (List.mem_filter.mp hg).2
    exact decide_eq_true (by omega)
  have part : (fixers.filter (·.priority = p)).Sublist (sorted fixers) :=
    List.sublist_mergeSort (by grind) (by grind) level List.filter_sublist
  have inside := part.filter (·.priority = p)
  simp only [List.filter_filter, Bool.and_self] at inside
  refine (inside.eq_of_length ?_).symm
  exact ((List.mergeSort_perm fixers _).symm.filter _).length_eq

theorem ranked_sorted {ranked fixers : List Fixer}
    (ties : ∀ p, ranked.filter (·.priority = p) = fixers.filter (·.priority = p)) :
    Ranked (sorted ranked) fixers where
  descending := by
    have descending : (sorted ranked).Pairwise fun f g => decide (g.priority ≤ f.priority) = true :=
      List.pairwise_mergeSort (by grind) (by grind) ranked
    exact descending.imp of_decide_eq_true
  ties p := (filter_sorted ranked p).trans (ties p)

theorem Holds.ranked {t : FixerTable} {kept : List Fixer} (h : t.Holds kept) :
    Ranked t.fixers kept := by
  induction h with
  | empty settings => exact ⟨List.Pairwise.nil, fun _ => rfl⟩
  | register f before ih =>
    refine ranked_sorted fun p => ?_
    have rest := (ih.filter (·.name ≠ f.name)).ties p
    rw [List.filter_append, List.filter_append, others, others, rest]
  | unregister name before ih => exact ih.filter _
  | clear before ih => exact ⟨List.Pairwise.nil, fun _ => rfl⟩

end FixerTable

namespace Job

/-- A fixer may be tried for a violation: it is for the rule, accepts the violation, and is allowed
by the settings of the table and by those of the run. -/
def eligible (table : FixerTable) (settings : Settings) (v : Violation) (f : Fixer) : Bool :=
  table.settings.allowsFixer f.name && settings.allowsFixer f.name && f.rules.contains v.rule &&
    f.accepts v

theorem candidates_eq (table : FixerTable) (settings : Settings) (v : Violation) :
    candidates table settings v = table.fixers.filter (eligible table settings v) := by
  simp only [candidates, FixerTable.forRule, FixerTable.enabled, List.filter_filter]
  refine List.filter_congr fun f _ => ?_
  unfold eligible
  ac_rfl

theorem ranked_candidates {table : FixerTable} {kept : List Fixer} (h : table.Holds kept)
    (settings : Settings) (v : Violation) :
    FixerTable.Ranked (candidates table settings v) (kept.filter (eligible table settings v)) := by
  rw [candidates_eq]
  exact h.ranked.filter _

end Job

end Layering
