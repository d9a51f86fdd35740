import Layering.CommandLine.Display
import Layering.CommandLine.Session

/-!
# The program

Reads the part of the file system that a command can see, runs the command on it, and writes back
what has changed.
-/

namespace Layering.Program

/-- The name of a location for the system. -/
def systemName (location : Location) : String := String.ofList (Path.text ⟨.root, location⟩)

/-- Adds a file, if it can be read. -/
def readFile (tree : Tree) (location : Location) : IO Tree := do
  try
    let bytes ← IO.FS.readBinFile (systemName location)
    return tree.insert location (.file bytes.toList 0o644)
  catch _ => return tree

/-- Adds what is at a location and below it. -/
partial def readAll (tree : Tree) (location : Location) : IO Tree := do
  let place := (← IO.currentDir) / systemName location
  if ← place.isDir then
    let mut tree := tree.insert location .directory
    for entry in ← place.readDir do
      tree ← readAll tree (location ++ [entry.fileName.toList])
    return tree
  else if ← place.pathExists then readFile tree location
  else return tree

/-- The files in a directory that matter for the directories below it. -/
def landmarks (directory : Path) : List Path :=
  directory.child Configuration.rootMark :: directory.child descriptorName
    :: directory / ".remediation" :: Configuration.candidates directory

/-- Adds what matters above a directory. -/
def readAbove (tree : Tree) (start : Path) : IO Tree := do
  let mut tree := tree
  for directory in start.ancestors do
    if directory.names ≠ [] then tree := tree.insert directory.names .directory
    for file in landmarks directory do
      tree ← readAll tree file.names
  return tree

/-- Rights as the system takes them. -/
def rights (mode : Nat) : IO.FileRight :=
  let access (n : Nat) : IO.AccessRight :=
    { read := n / 4 % 2 = 1, write := n / 2 % 2 = 1, execution := n % 2 = 1 }
  { user := access (mode / 64), group := access (mode / 8), other := access mode }

/-- Writes one entry. -/
def writeEntry (location : Location) : Entry → IO Unit
  | .directory => IO.FS.createDirAll (systemName location)
  | .file bytes mode => do
    IO.FS.writeBinFile (systemName location) ⟨bytes.toArray⟩
    IO.setAccessRights (systemName location) (rights mode)

/-- Removes one entry. -/
def removeEntry (location : Location) : Entry → IO Unit
  | .directory => IO.FS.removeDir (systemName location)
  | .file .. => IO.FS.removeFile (systemName location)

/-- Brings the system from one tree to another. -/
def writeChanges (old new : Tree) : IO Unit := do
  for (location, entry) in old.toList.reverse do
    if new[location]? = none then removeEntry location entry
  for (location, entry) in new.toList do
    if old[location]? ≠ some entry then writeEntry location entry

/-- The directory that a command works on. -/
def target (here : Path) : CommandLine → Path
  | .command (.scan o) | .command (.fix o) => (o.path.getD here).resolve here
  | _ => here

end Layering.Program

open Layering in
/-- Runs a command line. -/
def main (args : List String) : IO UInt32 := do
  let request := CommandLine.read (args.map (·.toList))
  let here := Path.ofText (← IO.currentDir).toString.toList
  let target := Program.target here request
  let tree ← Program.readAbove {} target
  let tree ← Program.readAll tree target.names
  let site : Site := { tree, workingDirectory := here.names }
  let (session, after) := (Session.run .standard {} request).run site
  Program.writeChanges tree after.tree
  for line in session.lines do
    IO.eprintln (String.ofList (Display.plain line))
  IO.print (String.ofList session.output)
  for line in session.notices.flatMap Display.lines do
    IO.println (String.ofList line)
  match session.exit with
  | .ok code => return code.toUInt32
  | .error e =>
    IO.eprintln (String.ofList e.message)
    return 1
