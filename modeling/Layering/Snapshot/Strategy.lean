import Layering.Workspace.Action

/-!
# Snapshot strategies

A snapshot remembers files as they are before a change, also that a file is absent, so that the
change can be taken back. Strategies differ in where they keep it.
-/

namespace Layering

/-- What became of one file when a change was taken back. -/
structure Restoration where
  target : Path
  /-- The copy that the file was restored from, or should have been. -/
  copy : Option Path := none
  success : Bool := true
  message : Text := []
deriving DecidableEq, Repr

/-- A record of a snapshot: the files, and those of them that were absent. -/
structure SnapshotHandle where
  strategy : Text
  files : List Path
  absent : List Path := []
deriving DecidableEq, Repr

/-- A way to keep snapshots of files in a project. -/
structure SnapshotStrategy where
  name : Text
  /-- Remembers the files as they are. -/
  backup : List Path → Path → Action SnapshotHandle
  /-- Brings the files back to what is remembered. -/
  rollback : List Path → Path → Action (List Restoration)
  /-- Forgets the files. -/
  cleanup : List Path → Path → Action Unit

namespace Restoration

/-- Nothing is remembered of a file. -/
def unknown (target : Path) : Restoration := ⟨target, none, false, "No backup found"⟩

/-- A file that was absent is gone again. -/
def removed (target : Path) : Restoration :=
  ⟨target, none, true, "Removed file created by the fix"⟩

/-- Restores a file; a fault of the file system is part of the result. -/
def orFault (target : Path) (copy : Option Path) (restore : Action Restoration) :
    Action Restoration := do
  match ← Action.attempt restore with
  | .ok r => pure r
  | .error e => match e.fault? with
    | some f => pure ⟨target, copy, false, f.message⟩
    | none => throw e

end Restoration

end Layering
