import Layering.Repair.Fixer
import Layering.Rule
import Layering.Scaffold

/-!
# Scaffolding of missing layers

A missing layer becomes a new module beside the other layers of its component. Only a module that
may hold others gains one.
-/

namespace Layering.Scaffolding

/-- A module that is to be made. -/
structure NewModule where
  /-- The module that gains the new one. -/
  root : Path
  component : Text
  layer : Layer
  /-- The package of the new module. -/
  package : Text
deriving DecidableEq, Repr

namespace NewModule

/-- The name of the new module. -/
def name (m : NewModule) : Text := moduleName m.component m.layer.name

/-- The directory of the new module. -/
def directory (m : NewModule) : Path := m.root.child m.name

/-- The descriptor of the new module. -/
def descriptor (m : NewModule) : Path := m.directory.child descriptorName

/-- The descriptor of the module that gains the new one. -/
def parent (m : NewModule) : Path := m.root.child descriptorName

/-- The directory of a package. -/
def packagePath (package : Text) : Path :=
  (Text.splitOn '.' package).foldl (fun p part => p / Path.ofText part) {}

/-- The source that describes the package. -/
def packageInfo (m : NewModule) : Path :=
  (m.directory / sourceDirectory / packagePath m.package).child packageInfoName

end NewModule

/-- The module that a violation calls for, if its rule calls for one. -/
def newModule? (c : RepairContext) (v : Violation) (s : Site) : Except Failure (Option NewModule) :=
  match Entries.get? v.rule Rule.requiredLayers with
  | none => .ok none
  | some layer => do
    let root ← (c.moduleOf s v).mapError Failure.fault
    .ok (some ⟨root, componentName root.name, layer, basePackage c.group c.project layer.name⟩)

/-- The files that the scaffolding of a module may change. -/
def targets (c : RepairContext) (v : Violation) (s : Site) : Except Failure (List Path) := do
  match ← newModule? c v s with
  | none => .ok []
  | some m => .ok [m.descriptor, m.packageInfo, m.parent]

/-- The patch that makes a module, where `content` is in the descriptor of the one that gains it. -/
def patch (m : NewModule) (content : Text) : Patch :=
  let updated := Descriptor.addModule m.name content
  let isRegistered : Bool := updated ≠ content
  let files := [m.descriptor, m.packageInfo]
  { description := "Created " ++ Layer.label m.layer.name ++ " module " ++ m.name
    files := if isRegistered then files ++ [m.parent] else files
    diffs := ("+ create directory: " ++ m.name)
      :: files.map (fun file => ("+ create: " : Text) ++ (file.relativeTo m.root).text)
      ++ if isRegistered then ["+ add module " ++ m.name ++ " to " ++ descriptorName] else []
    changes :=
      [.directory m.packageInfo.parent,
       .write m.descriptor
         (Scaffold.descriptor content m.root.name m.name m.component m.layer.name),
       .write m.packageInfo (Scaffold.packageInfo m.package m.name m.layer.name)]
      ++ (if isRegistered then [.write m.parent updated] else [])
      ++ files.map (fun file => .note ("Generated: " ++ file.text))
      ++ if isRegistered then [.note ("Updated: " ++ m.parent.text)] else [] }

/-- Works out a module. -/
def propose (c : RepairContext) (v : Violation) (s : Site) : Except Failure Proposal := do
  match ← newModule? c v s with
  | none => return .nothing "No module"
  | some m =>
    if !(← (s.exists? m.parent).mapError Failure.fault) then
      return .nothing "No pom.xml found in module root"
    let content ← s.readText m.parent
    let packaging := Descriptor.packaging content
    if !Descriptor.isAggregator content then
      return .nothing ("Module is not a parent (packaging=" ++ packaging ++ "). "
        ++ "Only parent modules with packaging=pom can have submodules.")
    if ← (s.exists? m.directory).mapError Failure.fault then
      return .nothing ("Module directory already exists: " ++ m.name)
    return .patch (patch m content)

/-- Makes the modules of missing layers. -/
def fixer : Fixer :=
  .proposing "MissingModuleFixer"
    "Creates missing API and Core submodules for aggregator modules" 90
    (Rule.requiredLayers.map (·.1)) targets propose

end Layering.Scaffolding
