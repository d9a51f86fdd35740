import Layering.Snapshot.Strategy

/-!
# Transactions

A transaction takes a snapshot of the files that a repair may change. The snapshot is discarded
after a good end; after a failure the files are brought back, and the snapshot is kept if that did
not work for every file.
-/

namespace Layering

/-- The files that one repair may change, under the guard of a strategy. -/
structure Transaction where
  strategy : SnapshotStrategy
  files : List Path
  project : Path
  /-- A transaction that is not enabled guards nothing. -/
  enabled : Bool := true
  handle : Option SnapshotHandle := none
  isActive : Bool := false

/-- How a guarded action ended, and what was restored. -/
structure Ending (α : Type) where
  result : Except Failure α
  restored : List Restoration := []

namespace Transaction

/-- Takes the snapshot. -/
def begin (t : Transaction) : Action Transaction := do
  if t.enabled then
    let handle ← t.strategy.backup t.files t.project
    pure { t with handle := some handle, isActive := true }
  else pure { t with isActive := true }

/-- The transaction after its end. -/
def ended (t : Transaction) : Transaction := { t with isActive := false }

/-- Discards the snapshot. -/
def commit (t : Transaction) : Action Unit := do
  if t.isActive && t.enabled then t.strategy.cleanup t.files t.project

/-- Restores the files, and discards the snapshot if every file was restored. -/
def rollback (t : Transaction) : StateM Site (Ending (List Restoration)) := do
  if t.isActive && t.enabled then
    match ← (t.strategy.rollback t.files t.project).run with
    | .error e => pure ⟨.error e, []⟩
    | .ok restored =>
      if restored.all (·.success) then
        match ← (t.strategy.cleanup t.files t.project).run with
        | .error e => pure ⟨.error e, restored⟩
        | .ok () => pure ⟨.ok restored, restored⟩
      else pure ⟨.ok restored, restored⟩
  else pure ⟨.ok [], []⟩

/-- The action came to a good end. -/
def isGood {α : Type} (accepts : α → Bool) : Except Failure α → Bool
  | .ok result => accepts result
  | .error _ => false

/-- Ends a transaction after an action: discards the snapshot, or restores the files if the result is
not accepted. A failure to do so takes the place of the result. -/
def finish {α : Type} (t : Transaction) (accepts : α → Bool) (result : Except Failure α) :
    StateM Site (Ending α) := do
  if isGood accepts result then
    match ← t.commit.run with
    | .ok () => pure ⟨result, []⟩
    | .error e => pure ⟨.error e, []⟩
  else
    let back ← t.rollback
    match back.result with
    | .ok _ => pure ⟨result, back.restored⟩
    | .error e => pure ⟨.error e, back.restored⟩

/-- Runs an action under the guard of a transaction. A result that is not accepted is treated as a
failure. A failure to take, restore or discard the snapshot takes the place of the result. -/
def run {α : Type} (t : Transaction) (accepts : α → Bool) (action : Action α) :
    StateM Site (Ending α) := do
  match ← t.begin.run with
  | .error e => pure ⟨.error e, []⟩
  | .ok t => t.finish accepts (← action.run)

end Transaction

end Layering
