import Layering.Inspection.Discovery
import Layering.Settings
import Layering.Violation
import Layering.Workspace.Action

/-!
# Repair contexts

What a repair may know of its project. A change is one step of a repair; in a dry run there are
none.
-/

namespace Layering

/-- The surroundings of a repair. -/
structure RepairContext where
  /-- The root of the project. -/
  projectRoot : Path
  /-- The module to repair where a violation does not tell. -/
  moduleRoot : Path
  /-- Nothing may be changed. -/
  dryRun : Bool := false
  group : Text := ({} : Settings).group
  project : Text := ({} : Settings).project
  mappings : TypeTable := []
  /-- The files for which there is no room. -/
  full : List Path := []

/-- A step of a repair. -/
inductive Change where
  /-- Makes a directory and those above it. -/
  | directory (path : Path)
  /-- Writes a text in full. -/
  | write (path : Path) (text : Text)
  /-- Writes a text in full, unless the file holds it already. -/
  | update (path : Path) (text : Text)
  /-- Lets everyone run a file. -/
  | executable (path : Path)
  /-- Says what was done. -/
  | note (text : Text)
deriving DecidableEq, Repr

namespace RepairContext

/-- Writes a file, if there is room for it. -/
def writeBytes (c : RepairContext) (p : Path) (bytes : Bytes) : Action Unit :=
  if c.full.contains p then Action.refuse .diskFull else Action.writeBytes p bytes

/-- Writes a text in full if the file does not hold it already, and says whether it did not. -/
def update (c : RepairContext) (p : Path) (t : Text) : Action Bool := do
  let bytes := Utf8.encode t
  if ← Action.askFault (·.exists? p) then
    if (← Action.ask (·.readBytes p)) = bytes then return false
  c.writeBytes p bytes
  pure true

/-- Takes one step. -/
def apply (c : RepairContext) : Change → Action Unit
  | .directory p => Action.makeDirectories p
  | .write p t => c.writeBytes p (Utf8.encode t)
  | .update p t => do discard (c.update p t)
  | .executable p => do discard (Action.makeExecutable p)
  | .note t => Action.say .step t

/-- What a look at a directory says about the module: that it is this directory, or that of the
context because the project goes no further up. A look may say nothing. -/
def moduleAt? (c : RepairContext) (s : Site) (directory : Path) : Except Fault (Option Path) := do
  if ← s.exists? (directory.child descriptorName) then return some directory
  let here := s.resolve directory
  let project := s.resolve c.projectRoot
  if here = project || !here.ancestors.contains project then return some c.moduleRoot
  return none

/-- Goes up from a directory to the first that says something about the module. What is above a
directory without names is that directory again, so that from there the search has no end. -/
def climb (c : RepairContext) (s : Site) (directory : Path) : Option (Except Fault Path) :=
  match c.moduleAt? s directory with
  | .error f => some (.error f)
  | .ok (some root) => some (.ok root)
  | .ok none => if directory.names = [] then none else c.climb s directory.parent
termination_by directory.names.length
decreasing_by
  rename_i named
  have := List.length_pos_iff.mpr named
  simp only [Path.parent, List.length_dropLast]
  omega

/-- The module that a violation is about. -/
def moduleOf (c : RepairContext) (s : Site) (v : Violation) : Except Fault Path := do
  let location := Path.ofText v.location
  let directory := if ← s.isDirectory? location then location else location.parent
  (c.climb s directory).getD (.ok c.moduleRoot)

end RepairContext

end Layering
