import Layering.Proofs.Ranking

/-!
# Registrations

A table has a history of registrations and removals. Although every registration filters and sorts
anew, the table is what one sort makes of the fixers that are left at the end: for each name the one
registered last, unless its name was removed after that.
-/

namespace Layering.FixerTable

/-- A step in the history of a table. -/
inductive Operation where
  | register (f : Fixer)
  | unregister (name : Text)
  | clear

namespace Operation

/-- The table after an operation. -/
def apply (t : FixerTable) : Operation → FixerTable
  | .register f => t.register f
  | .unregister name => t.unregister name
  | .clear => t.clear

/-- The operation takes out the fixer of a name. A registration does so too: the new fixer stands in
the place of the old one. -/
def ousts (name : Text) : Operation → Bool
  | .register f => f.name = name
  | .unregister other => other = name
  | .clear => true

/-- The fixer that an operation brings in. -/
def brought : Operation → List Fixer
  | .register f => [f]
  | _ => []

end Operation

/-- The table after a history. -/
def ofHistory (settings : Settings) (history : List Operation) : FixerTable :=
  history.foldl Operation.apply { settings }

/-- The fixers that are left after a history, in the order in which they were registered: those
whose names no later operation takes out. -/
def survivors : List Operation → List Fixer
  | [] => []
  | o :: later => o.brought.filter (fun f => !later.any (·.ousts f.name)) ++ survivors later

variable {settings : Settings} {history : List Operation}

theorem mem_survivors_iff {f : Fixer} :
    f ∈ survivors history ↔ ∃ earlier later, history = earlier ++ .register f :: later ∧
      ∀ o ∈ later, o.ousts f.name = false := by
  induction history with
  | nil => simp [survivors]
  | cons o history ih =>
    simp only [survivors, List.mem_append, List.mem_filter, ih]
    constructor
    · rintro (⟨new, kept⟩ | ⟨earlier, later, rfl, kept⟩)
      · cases o with
        | register g =>
          obtain rfl : f = g := List.mem_singleton.mp new
          exact ⟨[], history, rfl, by simpa using kept⟩
        | unregister name => cases new
        | clear => cases new
      · exact ⟨o :: earlier, later, rfl, kept⟩
    · rintro ⟨earlier, later, split, kept⟩
      cases earlier with
      | nil =>
        obtain ⟨rfl, rfl⟩ := List.cons.inj split
        left
        exact ⟨List.mem_singleton_self f, by simpa using kept⟩
      | cons first earlier =>
        obtain ⟨rfl, rfl⟩ := List.cons.inj split
        right
        exact ⟨earlier, later, rfl, kept⟩

/-- One more operation takes out some fixers and brings in its own behind the others. -/
theorem survivors_concat (history : List Operation) (o : Operation) :
    survivors (history ++ [o]) =
      (survivors history).filter (fun f => !o.ousts f.name) ++ o.brought := by
  induction history with
  | nil => simp [survivors]
  | cons first history ih =>
    rw [List.cons_append, survivors, ih, survivors, List.filter_append, List.filter_filter,
      List.append_assoc]
    congr 2
    funext f
    simp [Bool.and_comm]

/-- The fixers that are left are those of which the ranking speaks. -/
theorem holds_ofHistory (settings : Settings) (history : List Operation) :
    (ofHistory settings history).Holds (survivors history) := by
  induction history using List.reverseRecOn with
  | nil => exact .empty settings
  | append_singleton history o ih =>
    have step : ofHistory settings (history ++ [o]) = o.apply (ofHistory settings history) :=
      List.foldl_concat ..
    rw [step, survivors_concat]
    cases o with
    | register f =>
      have left := Holds.register f ih
      simpa [others, Operation.apply, Operation.ousts, Operation.brought, eq_comm] using left
    | unregister name =>
      have left := Holds.unregister name ih
      simpa [others, Operation.apply, Operation.ousts, Operation.brought, eq_comm] using left
    | clear =>
      have left := Holds.clear ih
      simpa [Operation.apply, Operation.ousts, Operation.brought] using left

theorem settings_ofHistory (settings : Settings) (history : List Operation) :
    (ofHistory settings history).settings = settings := by
  induction history using List.reverseRecOn with
  | nil => rfl
  | append_singleton history o ih =>
    rw [ofHistory, List.foldl_concat]
    cases o <;> exact ih

/-- A list by descending priority is determined by the order within each priority. -/
theorem Ranked.eq_of_descending {ranked fixers : List Fixer} (h : Ranked ranked fixers)
    (descending : fixers.Pairwise fun f g => g.priority ≤ f.priority) : ranked = fixers := by
  induction ranked generalizing fixers with
  | nil =>
    symm
    apply List.eq_nil_iff_forall_not_mem.mpr
    exact fun f member => List.not_mem_nil (h.mem_iff.mpr member)
  | cons f ranked ih =>
    obtain ⟨before, after⟩ := List.pairwise_cons.mp h.descending
    cases fixers with
    | nil => cases h.mem_iff.mp List.mem_cons_self
    | cons g fixers =>
      obtain ⟨before', after'⟩ := List.pairwise_cons.mp descending
      -- Each of the first two stands in the other list as well, so that they are of one priority.
      have level : g.priority = f.priority := by
        have inside : f ∈ g :: fixers := h.mem_iff.mp List.mem_cons_self
        have inside' : g ∈ f :: ranked := h.mem_iff.mpr List.mem_cons_self
        rcases List.mem_cons.mp inside with rfl | inside
        · rfl
        rcases List.mem_cons.mp inside' with rfl | inside'
        · rfl
        have le := before' f inside
        have ge := before g inside'
        omega
      have first := h.ties f.priority
      rw [List.filter_cons_of_pos (by simp), List.filter_cons_of_pos (by simp [level])] at first
      obtain ⟨rfl, rest⟩ := List.cons.inj first
      refine congrArg _ (ih ⟨after, fun p => ?_⟩ after')
      by_cases here : f.priority = p
      · rw [← here]
        exact rest
      · have other := h.ties p
        rwa [List.filter_cons_of_neg (by simpa using here),
          List.filter_cons_of_neg (by simpa using here)] at other

/-- Sorting at every registration comes to the same as sorting once. -/
theorem Holds.fixers_eq {t : FixerTable} {kept : List Fixer} (h : t.Holds kept) :
    t.fixers = sorted kept := by
  have once : Ranked (sorted kept) kept := ranked_sorted fun p => rfl
  have same : Ranked t.fixers (sorted kept) :=
    ⟨h.ranked.descending, fun p => (h.ranked.ties p).trans (once.ties p).symm⟩
  exact same.eq_of_descending once.descending

/-- No two fixers have the same name. -/
theorem Holds.nodup {t : FixerTable} {kept : List Fixer} (h : t.Holds kept) :
    (kept.map (·.name)).Nodup := by
  induction h with
  | empty settings => exact .nil
  | register f before ih =>
    rw [List.map_append, List.nodup_append]
    refine ⟨ih.sublist (List.filter_sublist.map _), List.nodup_singleton _, ?_⟩
    simp only [others, List.mem_map, List.mem_filter, decide_eq_true_eq, List.map_cons,
      List.map_nil, List.mem_singleton]
    rintro _ ⟨g, ⟨_, other⟩, rfl⟩ _ rfl
    exact other
  | unregister name before ih => exact ih.sublist (List.filter_sublist.map _)
  | clear before ih => exact .nil

theorem has_iff {t : FixerTable} {name : Text} : t.has name = true ↔ ∃ f ∈ t.fixers, f.name = name := by
  simp [has, names]

/-- Removing a name makes the table shorter just if there is a fixer of that name. -/
theorem length_unregister_iff {t : FixerTable} {name : Text} :
    (t.unregister name).fixers.length ≠ t.fixers.length ↔ t.has name = true := by
  have kept : (t.unregister name).fixers.length = t.fixers.length ↔
      ∀ f ∈ t.fixers, f.name ≠ name := by
    rw [unregister, others, List.length_filter_eq_length_iff]
    simp
  rw [has_iff, ne_eq, kept]
  push Not
  rfl

/-- After any history a table lists the fixers that are left, as one stable sort by descending
priority puts them; no name occurs twice, a removal finds just the names that are left, and the
fixers for a rule are those of the list that may run and are for the rule. -/
theorem fixers_ofHistory (settings : Settings) (history : List Operation) :
    let t := ofHistory settings history
    (∀ f, f ∈ t.fixers ↔ ∃ earlier later, history = earlier ++ .register f :: later ∧
      ∀ o ∈ later, o.ousts f.name = false) ∧
    t.fixers = sorted (survivors history) ∧ Ranked t.fixers (survivors history) ∧
    t.names.Nodup ∧
    (∀ name, (t.has name = true ↔ ∃ f ∈ survivors history, f.name = name) ∧
      ((t.unregister name).fixers.length ≠ t.fixers.length ↔ t.has name = true)) ∧
    (t.enabled = t.fixers.filter fun f => settings.allowsFixer f.name) ∧
    ∀ rule, t.forRule rule =
      t.fixers.filter fun f => settings.allowsFixer f.name && f.rules.contains rule := by
  intro t
  have holds : t.Holds (survivors history) := holds_ofHistory settings history
  have kept : t.settings = settings := settings_ofHistory settings history
  have left (f : Fixer) : f ∈ t.fixers ↔ f ∈ survivors history := holds.ranked.mem_iff
  refine ⟨?_, holds.fixers_eq, holds.ranked, ?_, ?_, ?_, ?_⟩
  · intro f
    rw [left, mem_survivors_iff]
  · rw [names, holds.fixers_eq]
    exact ((List.mergeSort_perm _ _).map _).nodup_iff.mpr holds.nodup
  · intro name
    constructor
    · rw [has_iff]
      simp only [left]
    · exact length_unregister_iff
  · rw [enabled, kept]
  · intro rule
    rw [forRule, enabled, kept, List.filter_filter]
    exact List.filter_congr fun f _ => Bool.and_comm ..

end Layering.FixerTable
