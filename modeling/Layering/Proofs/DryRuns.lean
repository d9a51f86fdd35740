import Layering.Proofs.Patches
import Layering.Proofs.Reports

/-!
# Dry runs

A dry run changes nothing but messages, and what it says of a repair is what comes of it, unless the
file system refuses one of the changes.
-/

namespace Layering

/-- What comes of a patch that a dry run has worked out: it is applied, or one of its changes is
refused. -/
inductive Carried (c : RepairContext) (planned : Outcome) : Except Failure Outcome × Site → Prop
  | applied (s' : Site) :
    Carried c planned (.ok { planned with status := .fixed, modified := planned.planned }, s')
  | directory {p : Path} {s₁ s' : Site} {e : Failure}
    (refused : Action.makeDirectories p s₁ = (.error e, s')) : Carried c planned (.error e, s')
  | file {p : Path} {bytes : Bytes} {s₁ s' : Site} {e : Failure} (listed : p ∈ planned.planned)
    (refused : c.writeBytes p bytes s₁ = (.error e, s')) : Carried c planned (.error e, s')

/-- How a dry run of a repair, the first, stands to a full run from the same site, the second. -/
inductive Foretells (c : RepairContext) (v : Violation) (s : Site) :
    Except Failure Outcome × Site → Except Failure Outcome × Site → Prop
  | skipped (reason : Text) :
    Foretells c v s (.ok (.skipped v reason), s) (.ok (.skipped v reason), s)
  | raised (e : Failure) : Foretells c v s (.error e, s) (.error e, s)
  | planned {o : Outcome} {s' : Site} {full : Except Failure Outcome × Site}
    (status : o.status = .planned) (unmodified : o.modified = []) (untouched : s.Untouched s')
    (carried : Carried c o full) : Foretells c v s (.ok o, s') full

/-- A fixer whose proposals do not depend on whether anything may be changed, and whose patches fit
the site that they are worked out at. -/
structure Fixer.Foresees (f : Fixer)
    (offer : RepairContext → Violation → Site → Except Failure Proposal) : Prop where
  offers : f.Offers offer
  dryRun : ∀ c v s b, offer { c with dryRun := b } v s = offer c v s
  fits : ∀ c v s p, offer c v s = .ok (.patch p) → p.Fits s

section

variable {c : RepairContext} {v : Violation} {p : Patch} {s s₁ s' : Site} {e : Failure}

/-- Where the file of an update can be read, an update is refused only when it writes. -/
theorem RepairContext.update_eq_error {file : Path} {text : Text} {bytes : Bytes} {mode : Nat}
    (read : s.read file = .ok (bytes, mode))
    (refused : c.apply (.update file text) s = (.error e, s')) :
    c.writeBytes file (Utf8.encode text) s = (.error e, s') := by
  have there : Action.askFault (·.exists? file) s = (.ok true, s) := by
    rw [Action.askFault, Action.ask_apply, Site.exists_of_read read]
    rfl
  have asked : Action.ask (·.readBytes file) s = (.ok bytes, s) := by
    rw [Action.ask_apply, Site.readBytes, read]
    rfl
  have discarded : c.apply (.update file text) s =
      (c.update file text >>= fun _ => pure ()) s := rfl
  rw [discarded, Action.bind_apply, update, Action.bind_of_ok there] at refused
  simp only [if_true] at refused
  rw [Action.bind_of_ok asked] at refused
  -- A file that has the text already is left alone, so a refusal comes from the writing.
  by_cases same : bytes = Utf8.encode text
  · rw [if_pos same] at refused
    cases refused
  · rw [if_neg same] at refused
    rcases written : c.writeBytes file (Utf8.encode text) s with ⟨e' | ⟨⟩, s''⟩
    · rw [Action.bind_of_error written] at refused
      cases refused
      rfl
    · rw [Action.bind_of_ok written] at refused
      cases refused

theorem Action.makeExecutable_ok (file : Path) (s : Site) :
    ∃ done s', makeExecutable file s = (.ok done, s') := by
  unfold makeExecutable
  rw [bind_apply, get_apply]
  simp only
  rcases Site.withMode file (· ||| executableBits) s with f | s'
  · exact ⟨false, _, rfl⟩
  · exact ⟨true, _, rfl⟩

/-- The changes of a patch that fits are refused only where a directory is made or a listed file is
written. -/
theorem Patch.Fits.carried (fits : p.Fits s) (untouched : s.Untouched s₁) {planned : Outcome}
    (files : planned.planned = p.files)
    (refused : p.changes.forM c.apply s₁ = (.error e, s')) : Carried c planned (.error e, s') := by
  obtain ⟨before, change, after, s₂, split, way, refused⟩ := Action.forM_eq_error refused
  have listed (file : Path) (writes : change.file? = some file) : file ∈ planned.planned := by
    rw [files]
    refine fits.listed change ?_ file writes
    rw [split]
    exact List.mem_append_right _ List.mem_cons_self
  -- By the change that was refused: a note never is, nor is the mark on a script.
  cases change with
  | directory path => exact .directory refused
  | write file text => exact .file (listed file rfl) refused
  | update file text =>
    obtain ⟨rfl, bytes, mode, read⟩ := fits.updates before file text after split
    cases way
    obtain ⟨said, rfl⟩ := untouched
    have read' : Site.read { s with messages := s.messages ++ said } file = .ok (bytes, mode) := read
    exact .file (listed file rfl) (RepairContext.update_eq_error read' refused)
  | executable path =>
    obtain ⟨done, s₃, run⟩ := Action.makeExecutable_ok path s₂
    have discarded : c.apply (.executable path) s₂ =
        (Action.makeExecutable path >>= fun _ => pure ()) s₂ := rfl
    rw [discarded, Action.bind_of_ok run] at refused
    exact nomatch refused
  | note text => exact nomatch refused

/-- A dry run of a fixer tells what a full run does. -/
theorem Fixer.Foresees.foretells {f : Fixer}
    {offer : RepairContext → Violation → Site → Except Failure Proposal} (h : f.Foresees offer)
    (c : RepairContext) (v : Violation) (s : Site) :
    Foretells c v s (f.repair { c with dryRun := true } v s)
      (f.repair { c with dryRun := false } v s) := by
  have dry := h.offers { c with dryRun := true } v s
  have full := h.offers { c with dryRun := false } v s
  rw [h.dryRun] at dry full
  rw [dry, full]
  -- Both runs are offered the same, since the offer does not ask whether the run is dry.
  cases offered : offer c v s with
  | error e => exact .raised e
  | ok proposal =>
    cases proposal with
    | nothing reason => exact .skipped reason
    | patch p =>
      obtain ⟨s₁, untouched, run⟩ := p.apply_apply { c with dryRun := true } v s
      obtain ⟨s₂, untouched', run'⟩ := p.apply_apply { c with dryRun := false } v s
      simp only [Proposal.take, run, run', if_true, Bool.false_eq_true, if_false]
      refine .planned (o := .planOnly v p.description p.files p.diffs) rfl rfl untouched ?_
      rcases changed : p.changes.forM (RepairContext.apply { c with dryRun := false }) s₂
        with ⟨e | ⟨⟩, s'⟩
      · exact ((h.fits c v s p offered).carried untouched' rfl changed)
      · exact .applied s'

end

/-- Nothing was changed for a violation. -/
def Outcome.Unapplied (o : Outcome) : Prop := o.status ≠ .fixed ∧ o.modified = []

theorem Foretells.untouched {c : RepairContext} {v : Violation} {s : Site}
    {dry full : Except Failure Outcome × Site} (h : Foretells c v s dry full) :
    s.Untouched dry.2 := by
  cases h with
  | skipped => exact .refl s
  | raised => exact .refl s
  | planned _ _ untouched => exact untouched

theorem Foretells.unapplied {c : RepairContext} {v : Violation} {s : Site}
    {dry full : Except Failure Outcome × Site} (h : Foretells c v s dry full) {o : Outcome}
    (returned : dry.1 = .ok o) : o.Unapplied := by
  cases h with
  | skipped => exact Except.ok.inj returned ▸ ⟨nofun, rfl⟩
  | raised => exact nomatch returned
  | planned status unmodified =>
    cases returned
    exact ⟨by rw [status]; nofun, unmodified⟩

/-- A fixer that only says things in some context. -/
structure Fixer.Quiet (f : Fixer) (c : RepairContext) : Prop where
  untouched : ∀ v (s : Site), s.Untouched (f.repair c v s).2
  unapplied : ∀ v s o, (f.repair c v s).1 = .ok o → o.Unapplied

theorem Fixer.Foresees.quiet {f : Fixer}
    {offer : RepairContext → Violation → Site → Except Failure Proposal} (h : f.Foresees offer)
    {c : RepairContext} (dry : c.dryRun = true) : f.Quiet c := by
  have same : { c with dryRun := true } = c := by rw [← dry]
  constructor
  · intro v s
    have foretells := h.foretells c v s
    rw [same] at foretells
    exact foretells.untouched
  · intro v s o returned
    have foretells := h.foretells c v s
    rw [same] at foretells
    exact foretells.unapplied returned

namespace Transaction

variable {t : Transaction}

theorem finish_disabled {α : Type} (disabled : t.enabled = false) (accepts : α → Bool)
    (result : Except Failure α) (s : Site) : (t.finish accepts result s).2 = s := by
  unfold finish commit rollback
  rw [disabled, Bool.and_false]
  split <;> rfl

end Transaction

namespace Remediation

variable {r : Remediation} {c : RepairContext} {sites : List Site}

theorem untouched_say (r : Remediation) (kind : Message.Kind) (text : Text) (s : Site) :
    s.Untouched (r.say kind text s).2 := by
  unfold say
  split
  · exact ⟨[⟨kind, text⟩], rfl⟩
  · exact .refl s

theorem untouched_conclude (r : Remediation) (v : Violation) (f : Fixer)
    (result : Except Failure Outcome) (s : Site) : s.Untouched (r.conclude v f result s).2 := by
  cases result with
  | ok o => exact .refl s
  | error e => exact untouched_say r .error _ s

end Remediation

section

open Remediation

variable {r : Remediation} {c : RepairContext} {sites : List Site} {job : Job}

namespace Pool

variable {jobs : List Job} {p : Pool} {s : Site}

end Pool

end

end Layering
