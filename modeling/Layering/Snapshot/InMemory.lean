import Layering.Entries
import Layering.Snapshot.Strategy

/-!
# Snapshots in memory

Snapshots as bytes, by resolved path. Nothing is written but the files themselves.
-/

namespace Layering.InMemory

/-- The name of the strategy. -/
def strategyName : Text := "memory"

/-- What there is to remember of a file. -/
def take (s : Site) (target : Path) : Except Failure Held := do
  if ← (s.exists? target).mapError Failure.fault then
    .ok (.contents (← s.readBytes target))
  else .ok (.absent (← (s.nearestAncestor target).mapError Failure.fault))

/-- What there is to remember of some files. -/
def takeAll (s : Site) (files : List Path) : Except Failure (List (Path × Held)) :=
  files.mapM fun target => (take s target).map fun held => (target, held)

/-- Remembers files. Nothing is remembered if one of them cannot be read. -/
def backup (files : List Path) (_project : Path) : Action SnapshotHandle := do
  let taken ← Action.ask fun s => takeAll s files
  let remember (s : Site) (held : List (Path × Held)) : Path × Held → List (Path × Held) :=
    fun (target, state) => Entries.put (s.resolve target) state held
  modify fun s => { s with held := taken.foldl (remember s) s.held }
  let absent := taken.filterMap fun
    | (target, Held.absent _) => some target
    | (_, Held.contents _) => none
  pure ⟨strategyName, files, absent⟩

/-- Restores one file. -/
def restore (target : Path) : Action Restoration := do
  let s ← get
  match Entries.get? (s.resolve target) s.held with
  | none => pure (.unknown target)
  | some state => Restoration.orFault target none do
    match state with
    | .absent ancestor =>
      Action.deleteFile target
      Action.pruneUpTo ancestor target.parent
      pure (.removed target)
    | .contents bytes =>
      Action.writeBytes target bytes
      pure ⟨target, none, true, []⟩

/-- Forgets a file. -/
def forget (target : Path) : Action Unit :=
  modify fun s => { s with held := s.held.filter fun (p, _) => p ≠ s.resolve target }

/-- Snapshots in memory. -/
def strategy : SnapshotStrategy where
  name := strategyName
  backup := backup
  rollback files _project := files.mapM restore
  cleanup files _project := files.forM forget

end Layering.InMemory
