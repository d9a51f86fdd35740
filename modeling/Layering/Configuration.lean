import Layering.Catalog
import Layering.Descriptor
import Layering.Inspection.Discovery
import Layering.Settings
import Layering.Yaml.Reading

/-!
# Configuration files

A project is configured by one file, the nearest at or above the directory in question. The search
ends at the root of the project.
-/

namespace Layering.Configuration

/-- The names that a configuration file may have, in the order in which they are tried. -/
def fileNames : List Text :=
  ["stratify.yaml", "stratify.yml", "application.yaml", "application.yml",
   "compliance-config.yaml", "compliance-config.yml", ".sea/config.yaml", ".sea/config.yml"]

/-- The directory of resources, in which a configuration file may stand as well. -/
def resourceDirectory : Path := "src/main/resources"

/-- The script that marks the root of a project. -/
def rootMark : Text := "mvnw"

/-- The descriptor of a directory says that it is a root. One that cannot be read does not. -/
def saysRoot (s : Site) (descriptor : Path) : Bool :=
  match s.readText descriptor with
  | .ok content => Descriptor.isRoot content
  | .error _ => false

/-- A directory is the root of a project. -/
def isProjectRoot (s : Site) (directory : Path) : Except Fault Bool := do
  if ← s.exists? (directory.child rootMark) then return true
  let descriptor := directory.child descriptorName
  if ← s.exists? descriptor then return saysRoot s descriptor
  return false

/-- A directory and those above it. -/
def upwards (s : Site) (start : Path) : List Path :=
  let here := s.resolve start
  here :: here.ancestors

/-- The nearest root at or above a directory, or the directory itself. -/
def projectRoot (s : Site) (start : Path) : Except Fault Path := do
  match ← (upwards s start).findM? (isProjectRoot s) with
  | some root => return root
  | none => return s.resolve start

/-- The places in a directory where a configuration file may stand, in order. -/
def candidates (directory : Path) : List Path :=
  fileNames.flatMap fun name =>
    [directory / Path.ofText name, directory / resourceDirectory / Path.ofText name]

/-- The first configuration file in some directories, up to the first root. -/
def firstFile? (s : Site) : List Path → Except Fault (Option Path)
  | [] => .ok none
  | directory :: rest => do
    match ← (candidates directory).findM? s.isFile? with
    | some file => return some file
    | none => if ← isProjectRoot s directory then return none else firstFile? s rest

/-- The configuration file that governs a directory. -/
def file? (s : Site) (start : Path) : Except Fault (Option Path) := firstFile? s (upwards s start)

/-- The document in a file. A file that holds none is a failure of the given kind. -/
def document (malformed : Path → Failure) (s : Site) (file : Path) : Except Failure Document := do
  let bytes ← s.readBytes file
  let t ← ((Utf8.decodeInParts bytes).map Text.unifyBreaks).mapError Failure.notText
  match Yaml.read? t with
  | some d => .ok d
  | none => .error (malformed file)

/-- A configuration is a map; null stands for an empty one. -/
def checked (file : Path) : Document → Except Failure Document
  | .scalar .null => .ok (.map [])
  | .map entries => .ok (.map entries)
  | _ => .error (.settingsNotMap file)

/-- The configuration of a directory, and its file if there is one. -/
def load (s : Site) (start : Path) : Except Failure (Document × Option Path) := do
  match ← (file? s start).mapError Failure.fault with
  | none => return (.map [], none)
  | some file => return (← checked file (← document .malformedSettings s file), some file)

/-- The settings of a directory. -/
def settings (s : Site) (start : Path) : Except Failure Settings :=
  (load s start).map fun (d, _) => .ofDocument d

/-- The rule catalog in a file. There is none in a file that is absent. -/
def catalog (s : Site) (file : Path) : Except Failure Catalog := do
  if ← (s.exists? file).mapError Failure.fault then
    return .ofDocument (← document .malformedCatalog s file)
  else return []

end Layering.Configuration
