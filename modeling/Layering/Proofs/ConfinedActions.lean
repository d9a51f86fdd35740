import Layering.Proofs.ConfinedRepairs
import Layering.Proofs.DirectEffects

/-!
# Confined actions

To read and to write a file at a direct path is confined to that file, also where it fails. So is what is
put together from work that is confined to the same files.
-/

namespace Layering

open Site

namespace Action.Confined

variable {α β : Type} {due own mine : Location → Prop} {before : Site} {p : Path}

theorem pure (a : α) : (pure a : Action α).Confined due own before where
  within _ within := .refl within.sound own
  held _ _ := rfl
  alike _ _ _ _ same := ⟨rfl, same⟩

/-- What is confined to some files is confined to more. -/
theorem mono {action : Action α} (confined : action.Confined due mine before) (level : Level due before)
    (more : ∀ l, mine l → own l) (inside : ∀ l, own l → due l) : action.Confined due own before where
  within s within := (confined.within s within).mono more
  held := confined.held
  alike s s' within within' same := by
    obtain ⟨result, entries⟩ := confined.alike s s' within within' fun l here => same l (more l here)
    refine ⟨result, fun l here => ?_⟩
    by_cases mine_ : mine l
    · exact entries l mine_
    · have kept {t : Site} (within : Within due before t) :
          (action t).2.tree.at? l = t.tree.at? l := by
        have after := confined.within t within
        have onward := within.trans (after.mono fun m there => inside m (more m there))
        exact within.eq_of_files level (inside l here) onward (after.files l mine_)
      rw [kept within, kept within', same l here]

theorem bind {x : Action α} {f : α → Action β} (first : x.Confined due own before)
    (inside : ∀ l, own l → due l) (second : ∀ a, (f a).Confined due own before) :
    (x >>= f).Confined due own before := by
  have onward {s : Site} (within : Within due before s) : Within due before (x s).2 :=
    within.trans ((first.within s within).mono inside)
  -- A refusal of the first action ends both runs. Otherwise the second goes on from where the
  -- first stayed within bounds.
  refine ⟨fun s within => ?_, fun s within => ?_, fun s s' within within' same => ?_⟩
  · have after := onward within
    have start := first.within s within
    rw [Action.bind_apply]
    rcases run : x s with ⟨e | a, t⟩
    · rw [run] at start
      exact start
    · rw [run] at after start
      exact start.trans ((second a).within t after)
  · have after := onward within
    have start := first.held s within
    rw [Action.bind_apply]
    rcases run : x s with ⟨e | a, t⟩
    · rw [run] at start
      exact start
    · rw [run] at after start
      exact ((second a).held t after).trans start
  · obtain ⟨result, entries⟩ := first.alike s s' within within' same
    have after := onward within
    have after' := onward within'
    rw [Action.bind_apply, Action.bind_apply]
    generalize x s = one at result entries after ⊢
    generalize x s' = other at result entries after' ⊢
    obtain ⟨e | a, t⟩ := one
    · obtain ⟨_, t'⟩ := other
      obtain rfl := result
      exact ⟨rfl, entries⟩
    · obtain ⟨_, t'⟩ := other
      obtain rfl := result
      exact (second a).alike t t' after after' entries

section

variable (level : Level due before) (direct : before.Direct p) (here : due (before.location p))
include level direct here

/-- Reading a file. -/
theorem readBytes : (Action.ask (·.readBytes p)).Confined due (· = before.location p) before where
  within _ within := .refl within.sound _
  held _ _ := rfl
  alike s s' within within' same := by
    refine ⟨?_, same⟩
    have entry := same _ rfl
    have told {t : Site} (within : Within due before t) :=
      (direct.of_opens within.opens within.place).locate_cases within.sound
    have cases_ := told within
    have cases' := told within'
    rw [entryAt, within.location, within.blocked_iff level here] at cases_
    rw [entryAt, within'.location, within'.blocked_iff level here, entry] at cases'
    have read : s'.read p = s.read p := by
      unfold Site.read
      rcases cases_ with ⟨there, found⟩ | ⟨absent, free, found⟩ | ⟨absent, stuck, found⟩
      -- What stands at the place and what blocks it are the same at the two sites, so the off-
      -- diagonal pairs cannot be.
      all_goals
        rcases cases' with ⟨there', found'⟩ | ⟨absent', free', found'⟩ | ⟨absent', stuck', found'⟩
      · simp only [found, found', entry]
      · exact absurd absent' there
      · exact absurd absent' there
      · exact absurd absent there'
      · simp only [found, found']
      · exact absurd stuck' free
      · exact absurd absent there'
      · exact absurd stuck free'
      · simp only [found, found']
    rw [Action.ask_apply, Action.ask_apply, Site.readBytes, Site.readBytes, read]

/-- Writing a file, where nothing hinders that. -/
theorem writeBytes (leaf : before.entryAt p ≠ some .directory)
    (free : ¬before.tree.Blocked (before.location p))
    (short : nameSize (Fault.temporaryName p.name) ≤ maxNameSize) (bytes : Bytes) :
    (Action.writeBytes p bytes).Confined due (· = before.location p) before where
  within _ within := InMemory.within_writeBytes direct within bytes
  held s _ := by
    rcases Action.writeBytes_cases p bytes s with ⟨t, run, writes⟩ | ⟨f, t, run, grows, _⟩
    · rw [run, writes.beside]
    · rw [run, grows.beside]
  alike s s' within within' same := by
    -- Nothing refuses the write at any site within bounds, since nothing there refuses it
    -- before.
    have written {t : Site} (within : Within due before t) :
        ∃ t', Action.writeBytes p bytes t = (.ok (), t') ∧
          t'.tree.at? (before.location p) = some (.file bytes (t.modeAt (before.location p))) := by
      have able : (Action.writeBytes p bytes t).1 = .ok () := by
        rw [Action.writeBytes_ok_iff (direct.of_opens within.opens within.place) within.sound,
          entryAt, within.location, within.blocked_iff level here]
        exact ⟨mt (within.open_iff level here).mp leaf, free, short⟩
      rcases Action.writeBytes_cases p bytes t with ⟨t', run, writes⟩ | ⟨f, t', run, _⟩
      · refine ⟨t', run, ?_⟩
        rw [← within.location]
        exact writes.written
      · rw [run] at able
        cases able
    obtain ⟨t, run, new⟩ := written within
    obtain ⟨t', run', new'⟩ := written within'
    have mode : s'.modeAt (before.location p) = s.modeAt (before.location p) := by
      rw [modeAt, modeAt, same _ rfl]
    rw [run, run']
    refine ⟨rfl, ?_⟩
    rintro _ rfl
    rw [new, new', mode]

end

end Action.Confined

end Layering
