import Layering.Snapshot.Transaction
import Mathlib

/-!
# What actions do

Actions applied to a site, one construct at a time, and the ways in which a transaction fails.
-/

namespace Layering

theorem Except.bind_eq_ok {ε α β : Type} {x : Except ε α} {f : α → Except ε β} {b : β}
    (run : (x >>= f) = .ok b) : ∃ a, x = .ok a ∧ f a = .ok b := by
  cases x with
  | error e => exact nomatch run
  | ok a => exact ⟨a, rfl, run⟩

theorem Except.mapError_eq_ok {ε ε' α : Type} {x : Except ε α} {f : ε → ε'} {a : α}
    (run : x.mapError f = .ok a) : x = .ok a := by
  cases x with
  | error e => exact nomatch run
  | ok a' => exact congrArg _ (Except.ok.inj run)

/-- An operation that cannot fail hands its value and its site on to the next. -/
theorem StateM.bind_apply {σ α β : Type} (x : StateM σ α) (f : α → StateM σ β) (s : σ) :
    (x >>= f) s = f (x s).1 (x s).2 := rfl

theorem StateM.pure_apply {σ α : Type} (a : α) (s : σ) : (pure a : StateM σ α) s = (a, s) := rfl

theorem StateM.get_apply {σ : Type} (s : σ) : (get : StateM σ σ) s = (s, s) := rfl

namespace Action

variable {α β : Type}

theorem bind_apply (x : Action α) (f : α → Action β) (s : Site) :
    (x >>= f) s = match x s with
      | (.ok a, s') => f a s'
      | (.error e, s') => (.error e, s') := by
  simp only [bind, ExceptT.bind, ExceptT.mk, StateT.bind, ExceptT.bindCont]
  rcases x s with ⟨_ | _, _⟩ <;> rfl

theorem bind_of_ok {x : Action α} {f : α → Action β} {s s' : Site} {a : α}
    (run : x s = (.ok a, s')) : (x >>= f) s = f a s' := by
  rw [bind_apply, run]

theorem bind_of_error {x : Action α} {f : α → Action β} {s s' : Site} {e : Failure}
    (run : x s = (.error e, s')) : (x >>= f) s = (.error e, s') := by
  rw [bind_apply, run]

theorem pure_apply (a : α) (s : Site) : (pure a : Action α) s = (.ok a, s) := rfl

theorem get_apply (s : Site) : (get : Action Site) s = (.ok s, s) := rfl

theorem set_apply (s s' : Site) : (set s' : Action Unit) s = (.ok (), s') := rfl

theorem modify_apply (f : Site → Site) (s : Site) :
    (modify f : Action Unit) s = (.ok (), f s) := rfl

theorem throw_apply (e : Failure) (s : Site) : (throw e : Action α) s = (.error e, s) := rfl

theorem attempt_apply (x : Action α) (s : Site) :
    (Action.attempt x) s = (.ok (x s).1, (x s).2) := rfl

theorem ask_apply (question : Site → Except Failure α) (s : Site) :
    ask question s = (question s, s) := rfl

variable {s s' : Site} {a : α} {b : β}

/-- What ends well got through all of its parts. -/
theorem bind_eq_ok {x : Action α} {f : α → Action β} (run : (x >>= f) s = (.ok b, s')) :
    ∃ a s₁, x s = (.ok a, s₁) ∧ f a s₁ = (.ok b, s') := by
  rw [bind_apply] at run
  rcases first : x s with ⟨_ | a, s₁⟩
  · rw [first] at run
    exact nomatch run
  · rw [first] at run
    exact ⟨a, s₁, rfl, run⟩

/-- What holds after the first part of an action, and is kept by the rest, holds at its end. -/
theorem bind_rule {motive : Site → Prop} {x : Action α} {f : α → Action β}
    (first : motive (x s).2) (later : ∀ a s', x s = (.ok a, s') → motive s' → motive (f a s').2) :
    motive ((x >>= f) s).2 := by
  rw [bind_apply]
  rcases run : x s with ⟨e | a, s'⟩
  · rwa [run] at first
  · rw [run] at first
    exact later a s' run first

theorem mapM_cons_apply {f : α → Action β} {x : α} {xs : List α} {y : β} {ys : List β}
    {s₁ : Site} (first : f x s = (.ok y, s₁)) (rest : xs.mapM f s₁ = (.ok ys, s')) :
    (x :: xs).mapM f s = (.ok (y :: ys), s') := by
  rw [List.mapM_cons, bind_apply, first]
  simp only
  rw [bind_apply, rest]
  rfl

theorem forM_cons_apply {f : α → Action Unit} (x : α) (xs : List α) (s : Site) :
    (x :: xs).forM f s = match f x s with
      | (.ok _, s') => xs.forM f s'
      | (.error e, s') => (.error e, s') := by
  change (f x >>= fun _ => xs.forM f) s = _
  rw [bind_apply]
  rcases f x s with ⟨_ | _, _⟩ <;> rfl

theorem ask_of_ok {question : Site → Except Failure α} {a : α}
    (answer : question s = .ok a) : ask question s = (.ok a, s) := congrArg (·, s) answer

theorem askFault_of_ok {question : Site → Except Fault α} {a : α}
    (answer : question s = .ok a) : askFault question s = (.ok a, s) :=
  ask_of_ok (congrArg (Except.mapError Failure.fault) answer)

theorem askFault_of_error {question : Site → Except Fault α} {f : Fault}
    (answer : question s = .error f) : askFault question s = (.error (.fault f), s) :=
  congrArg (fun x : Except Fault α => (x.mapError Failure.fault, s)) answer

theorem ask_eq_ok {question : Site → Except Failure α} (run : ask question s = (.ok a, s')) :
    question s = .ok a ∧ s = s' := ⟨congrArg (·.1) run, congrArg (·.2) run⟩

theorem askFault_eq_ok {question : Site → Except Fault α}
    (run : askFault question s = (.ok a, s')) : question s = .ok a ∧ s = s' := by
  obtain ⟨answer, same⟩ := ask_eq_ok run
  refine ⟨?_, same⟩
  cases asked : question s with
  | error f => simp [asked, Except.mapError] at answer
  | ok a' => simpa [asked, Except.mapError] using answer

end Action

namespace Transaction

/-- The start of a transaction fails: the snapshot cannot be taken. -/
def RefusesStart (t : Transaction) (s : Site) (e : Failure) : Prop :=
  t.enabled = true ∧ (t.strategy.backup t.files t.project s).1 = .error e

/-- The end of a transaction fails. After a good end the snapshot cannot be discarded; otherwise the
files cannot be brought back, or all of them are and the snapshot cannot be discarded. -/
inductive RefusesEnd (t : Transaction) (s : Site) : Bool → Failure → Prop
  | discarding {e : Failure} (enabled : t.enabled = true)
    (refused : (t.strategy.cleanup t.files t.project s).1 = .error e) : RefusesEnd t s true e
  | restoring {e : Failure} (enabled : t.enabled = true)
    (refused : (t.strategy.rollback t.files t.project s).1 = .error e) : RefusesEnd t s false e
  | discardingRestored {e : Failure} {s' : Site} {restored : List Restoration}
    (enabled : t.enabled = true)
    (back : t.strategy.rollback t.files t.project s = (.ok restored, s'))
    (whole : restored.all (·.success) = true)
    (refused : (t.strategy.cleanup t.files t.project s').1 = .error e) : RefusesEnd t s false e

/-- How a transaction ends depends only on its strategy and its files. -/
theorem refusesEnd_congr {t t' : Transaction} (strategy : t.strategy = t'.strategy)
    (files : t.files = t'.files) (project : t.project = t'.project)
    (enabled : t.enabled = t'.enabled) {s : Site} {good : Bool} {e : Failure} :
    t.RefusesEnd s good e ↔ t'.RefusesEnd s good e := by
  obtain ⟨⟩ := t
  obtain ⟨⟩ := t'
  subst strategy files project enabled
  constructor
  all_goals
    intro refused
    cases refused with
    | discarding enabled refused => exact .discarding enabled refused
    | restoring enabled refused => exact .restoring enabled refused
    | discardingRestored enabled back whole refused =>
      exact .discardingRestored enabled back whole refused

/-- What a transaction is after its start: the same, and active. -/
theorem begin_cases (t : Transaction) (s : Site) :
    (∃ e, (t.begin s).1 = .error e ∧ t.RefusesStart s e) ∨
      ∃ handle, (t.begin s).1 = .ok { t with handle, isActive := true } := by
  unfold begin
  split
  next enabled =>
    rw [Action.bind_apply]
    rcases backup : t.strategy.backup t.files t.project s with ⟨e | handle, s'⟩
    · exact .inl ⟨e, rfl, enabled, by rw [backup]⟩
    · exact .inr ⟨some handle, rfl⟩
  next => exact .inr ⟨t.handle, rfl⟩

theorem commit_cases {t : Transaction} (active : t.isActive = true) (s : Site) :
    ((t.commit s).1 = .ok () ∧ ∀ e, ¬t.RefusesEnd s true e) ∨
      ∃ e, (t.commit s).1 = .error e ∧ t.RefusesEnd s true e := by
  unfold commit
  rw [active, Bool.true_and]
  split
  next enabled =>
    cases cleanup : (t.strategy.cleanup t.files t.project s).1 with
    | error e => exact .inr ⟨e, rfl, .discarding enabled cleanup⟩
    | ok _ =>
      refine .inl ⟨rfl, ?_⟩
      rintro e ⟨_, refused⟩
      exact nomatch cleanup.symm.trans refused
  next disabled =>
    refine .inl ⟨rfl, ?_⟩
    rintro e ⟨enabled⟩
    exact disabled enabled

theorem rollback_cases {t : Transaction} (active : t.isActive = true) (s : Site) :
    ((∃ restored, (t.rollback s).1.result = .ok restored) ∧ ∀ e, ¬t.RefusesEnd s false e) ∨
      ∃ e, (t.rollback s).1.result = .error e ∧ t.RefusesEnd s false e := by
  unfold rollback
  rw [active, Bool.true_and]
  split
  next enabled =>
    simp only [StateM.bind_apply, ExceptT.run]
    rcases back : t.strategy.rollback t.files t.project s with ⟨e | restored, s'⟩
    · exact .inr ⟨e, rfl, .restoring enabled (by rw [back])⟩
    · simp only
      split
      next whole =>
        simp only [StateM.bind_apply]
        rcases cleanup : t.strategy.cleanup t.files t.project s' with ⟨e | ⟨⟨⟩⟩, s''⟩
        · exact .inr ⟨e, rfl, .discardingRestored enabled back whole (by rw [cleanup])⟩
        · -- Each way to refuse the end contradicts one of the two steps that went through.
          refine .inl ⟨⟨restored, rfl⟩, ?_⟩
          rintro e (_ | ⟨_, refused⟩ | ⟨_, same, _, refused⟩)
          · rw [back] at refused
            exact nomatch refused
          · cases back.symm.trans same
            rw [cleanup] at refused
            exact nomatch refused
      next partly =>
        refine .inl ⟨⟨restored, rfl⟩, ?_⟩
        rintro e (_ | ⟨_, refused⟩ | ⟨_, same, whole, _⟩)
        · rw [back] at refused
          exact nomatch refused
        · cases back.symm.trans same
          exact partly whole
  next disabled =>
    refine .inl ⟨⟨[], rfl⟩, ?_⟩
    rintro e (_ | ⟨enabled, _⟩ | ⟨enabled, _, _, _⟩)
    · exact disabled enabled
    · exact disabled enabled

/-- A transaction ends with the result of the action unless it fails to end. -/
theorem finish_cases {α : Type} {t : Transaction} (active : t.isActive = true) (accepts : α → Bool)
    (result : Except Failure α) (s : Site) :
    ((t.finish accepts result s).1.result = result ∧
      ∀ e, ¬t.RefusesEnd s (isGood accepts result) e) ∨
    ∃ e, (t.finish accepts result s).1.result = .error e ∧
      t.RefusesEnd s (isGood accepts result) e := by
  -- A good result commits and a bad one rolls back, and nothing else of the result is asked.
  unfold finish
  split
  next good =>
    simp only [good, StateM.bind_apply, ExceptT.run]
    rcases commit_cases active s with ⟨fine, ends⟩ | ⟨e, fails, refused⟩
    · rw [fine]
      exact .inl ⟨rfl, ends⟩
    · rw [fails]
      exact .inr ⟨e, rfl, refused⟩
  next bad =>
    simp only [eq_false_of_ne_true bad, StateM.bind_apply]
    rcases rollback_cases active s with ⟨⟨restored, fine⟩, ends⟩ | ⟨e, fails, refused⟩
    · rw [fine]
      exact .inl ⟨rfl, ends⟩
    · rw [fails]
      exact .inr ⟨e, rfl, refused⟩

end Transaction

end Layering
