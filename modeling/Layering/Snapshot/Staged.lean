import Layering.Snapshot.Strategy

/-!
# Staged snapshots

Snapshots as copies in a directory of the project. The copy of a file lies at the same place below
the staging directory; in its stead a marker stands for a file that was absent, and holds the
nearest directory that was there, so that the directories made for the file can go as well.
-/

namespace Layering.Staged

/-- The name of the strategy. -/
def strategyName : Text := "staging"

/-- The staging directory, seen from the project. -/
def standardDirectory : Path := ".remediation/staging"

/-- The place of a file in its project. -/
def placeInProject (s : Site) (target project : Path) : Except Failure Path :=
  match (s.resolve target).relativeTo? (s.resolve project) with
  | some place => .ok place
  | none => .error (.outsideProject target project)

/-- A file in the staging directory that goes with a file of the project. -/
def stagedPath (directory : Path) (ending : Text) (s : Site) (target project : Path) :
    Except Failure Path := do
  let place ← placeInProject s target project
  .ok (project / directory / Path.ofText (place.text ++ ending))

/-- The copy of a file. -/
def copyPath (directory : Path) : Site → Path → Path → Except Failure Path :=
  stagedPath directory ".bak"

/-- The marker of an absent file. -/
def markerPath (directory : Path) : Site → Path → Path → Except Failure Path :=
  stagedPath directory ".absent"

/-- Stages one file, and says whether it is absent. -/
def stage (directory target project : Path) : Action Bool := do
  let copy ← Action.ask fun s => copyPath directory s target project
  let marker ← Action.ask fun s => markerPath directory s target project
  Action.deleteFile copy
  Action.deleteFile marker
  if ← Action.askFault (·.exists? target) then
    Action.makeDirectories copy.parent
    Action.copyFile target copy
    pure false
  else
    let ancestor ← Action.askFault (·.nearestAncestor target)
    Action.writeText marker ancestor.text
    pure true

/-- Stages files, and returns the absent ones. -/
def stageAll (directory project : Path) : List Path → Action (List Path)
  | [] => pure []
  | target :: rest => do
    let absent ← stage directory target project
    let more ← stageAll directory project rest
    pure (if absent then target :: more else more)

/-- Stages files; a fault of the file system is a failure of the snapshot. -/
def backup (directory : Path) (files : List Path) (project : Path) : Action SnapshotHandle := do
  match ← Action.attempt (stageAll directory project files) with
  | .ok absent => pure ⟨strategyName, files, absent⟩
  | .error e => match e.fault? with
    | some f => throw (.noSnapshot f)
    | none => throw e

/-- Restores one file. -/
def restore (directory target project : Path) : Action Restoration := do
  let copy ← Action.ask fun s => copyPath directory s target project
  let marker ← Action.ask fun s => markerPath directory s target project
  Restoration.orFault target (some copy) do
    if ← Action.askFault (·.exists? copy) then
      Action.writeBytes target (← Action.ask (·.readBytes copy))
      Action.copyMode copy target
      pure ⟨target, some copy, true, []⟩
    else if ← Action.askFault (·.exists? marker) then
      let ancestor := Path.ofText (← Action.ask (·.readText marker))
      Action.deleteFile target
      Action.pruneUpTo ancestor target.parent
      pure (.removed target)
    else pure (.unknown target)

/-- Removes a staged file and the directories that this leaves empty. -/
def forget (project staged : Path) : Action Unit := do
  Action.deleteFile staged
  Action.pruneUpTo project staged.parent

/-- Removes what is staged of one file. -/
def forgetTarget (directory target project : Path) : Action Unit := do
  let copy ← Action.ask fun s => copyPath directory s target project
  let marker ← Action.ask fun s => markerPath directory s target project
  forget project copy
  forget project marker

/-- Snapshots in a directory of the project. -/
def strategy (directory : Path) : SnapshotStrategy where
  name := strategyName
  backup := backup directory
  rollback files project := files.mapM fun target => restore directory target project
  cleanup files project := files.forM fun target => forgetTarget directory target project

end Layering.Staged
