import Layering.Layer
import Layering.Workspace.Site

/-!
# Discovery

A directory with a descriptor is a module. The modules of a project are the directories below its
root that are modules, apart from those in hidden directories and in directories that hold sources
or results.
-/

namespace Layering

/-- The name of a descriptor. -/
def descriptorName : Text := "pom.xml"

/-- The directory of the sources, seen from the module. -/
def sourceDirectory : Path := "src/main/java"

/-- How the name of a source ends. -/
def sourceEnding : Text := ".java"

/-- The name of the source that only describes its package. -/
def packageInfoName : Text := "package-info.java"

namespace Module

/-- The names that the directory of a layer may have. -/
def layerDirectories (component : Text) : Layer → List Text
  | .util => [moduleName component "util", moduleName component "utils"]
  | layer => [moduleName component layer.name]

/-- The module in a directory. -/
def read (s : Site) (directory : Path) : Except Fault Module := do
  let component := componentName directory.name
  let layers ← Layer.all.filterM fun layer =>
    (layerDirectories component layer).anyM fun name =>
      s.isDirectory? (directory / Path.ofText name)
  .ok { component := component, path := directory, layers := layers }

/-- The module in a directory, if it has a descriptor. -/
def read? (s : Site) (directory : Path) : Except Fault (Option Module) := do
  if ← s.exists? (directory.child descriptorName) then
    return some (← read s directory)
  else return none

/-- The names of directories in which there are no modules. -/
def passedOver : List Text := ["src", "target", "build", "node_modules", "out"]

/-- There may be modules in a directory of this name. -/
def isSearched (name : Text) : Bool := name.head? ≠ some '.' && !passedOver.contains name

/-- The modules of a project, a directory before those below it. -/
def discover (s : Site) (root : Path) : Except Fault (List Module) := do
  let directories := (s.directoriesBelow root).filter (·.all isSearched)
  let below : List Path := directories.map fun names => ⟨root.anchor, root.names ++ names⟩
  let found ← (root :: below).mapM (read? s)
  .ok (found.filterMap id)

/-- The directories with the sources of a module and of its layers. -/
def sourceRoots (s : Site) (m : Module) : Except Fault (List Path) :=
  let layers := Layer.withSources.filter m.has
  let roots := m.path :: layers.map fun layer => m.submodule layer.name
  (roots.map (· / sourceDirectory)).filterM s.isDirectory?

/-- The sources of a module and of its layers. -/
def sourceFiles (s : Site) (m : Module) : Except Fault (List Path) := do
  let files ← (← sourceRoots s m).mapM fun root => s.filesBelow root sourceEnding
  .ok (files.flatten.filter (·.name ≠ packageInfoName))

end Module

end Layering
