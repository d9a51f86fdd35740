import Layering.Repair.Fixer
import Layering.Rule
import Layering.Wrapper

/-!
# Installation of the build wrapper

The files of the wrapper that are missing are written. Files that are there are never touched.
-/

namespace Layering.WrapperFiles

/-- A file of the wrapper in a module. -/
def place (root : Path) (file : Text) : Path := root / Path.ofText file

/-- The files that an installation may change. -/
def targets (c : RepairContext) (v : Violation) (s : Site) : Except Failure (List Path) := do
  let root ← (c.moduleOf s v).mapError Failure.fault
  .ok (Wrapper.files.map (place root))

/-- The patch that writes the missing files of a module. -/
def patch (root : Path) (missing : List Text) (hasDirectory : Bool) : Patch where
  description := "Created Maven wrapper files (" ++ Text.ofNat missing.length ++ " files)"
  files := missing.map (place root)
  diffs := (if hasDirectory then [] else ["+ create directory: " ++ Wrapper.directory])
    ++ missing.map fun file => ("+ create: " : Text) ++ file
  changes := .directory (place root Wrapper.directory) :: missing.flatMap fun file =>
    [.write (place root file) (Wrapper.contents file)]
      ++ (if Wrapper.executables.contains file then [.executable (place root file)] else [])
      ++ [.note ("Generated: " ++ (place root file).text)]

/-- Works out an installation. -/
def propose (c : RepairContext) (v : Violation) (s : Site) : Except Failure Proposal :=
  Except.mapError Failure.fault do
    let root ← c.moduleOf s v
    let missing ← Wrapper.files.filterM fun file => do return !(← s.exists? (place root file))
    let hasDirectory ← s.isDirectory? (place root Wrapper.directory)
    if missing = [] && hasDirectory then
      return .nothing "All Maven wrapper files already exist"
    return .patch (patch root missing hasDirectory)

/-- Installs the build wrapper. -/
def fixer : Fixer :=
  .proposing "MavenWrapperFixer"
    "Adds Maven wrapper files (mvnw, mvnw.cmd, .mvn/wrapper) to pure aggregators" 80
    [Rule.missingWrapper] targets propose

end Layering.WrapperFiles
