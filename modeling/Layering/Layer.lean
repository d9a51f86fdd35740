import Layering.Path
import Layering.Text.Case
import Layering.Text.Letters

/-!
# Layers

A component is spread over modules, one per layer. The directory of a module is named for the
component and the layer.
-/

namespace Layering

/-- The layers of a component. -/
inductive Layer where
  | api | core | facade | spi | common | util
deriving DecidableEq, Repr

namespace Layer

/-- The name of a layer, which ends the names of its modules. -/
def name : Layer → Text
  | .api => "api"
  | .core => "core"
  | .facade => "facade"
  | .spi => "spi"
  | .common => "common"
  | .util => "util"

/-- Every layer. -/
def all : List Layer := [.api, .core, .facade, .spi, .common, .util]

/-- The layer of a name. -/
def ofName? (name : Text) : Option Layer := all.find? (·.name = name)

/-- How the name of a layer is written in a title. -/
def label (layer : Text) : Text :=
  match ofName? layer with
  | some .api => "API"
  | some .core => "Core"
  | some .spi => "SPI"
  | some .facade => "Facade"
  | _ => Text.capitalize layer

/-- What a layer is for. -/
def description (layer : Text) : Text :=
  match ofName? layer with
  | some .api => "API layer - public interfaces and contracts"
  | some .core => "Core layer - implementations"
  | some .spi => "SPI layer - service provider interfaces"
  | some .facade => "Facade layer - unified entry points"
  | _ => Text.capitalize layer ++ " layer"

/-- The layers that hold sources, in the order in which these are read. -/
def withSources : List Layer := [.api, .core, .spi, .facade]

end Layer

/-- What the name of a directory may carry after the name of the component. -/
def componentSuffixes : List Text :=
  ["-parent", "-api", "-core", "-spi", "-facade", "-plugin", "-aggregator", "-engine"]

/-- The name of the component that a directory belongs to. The suffix may stand before a line break
at the end. -/
def componentName (directory : Text) : Text :=
  let lineBreak : Text := if directory.getLast? = some '\n' then ['\n'] else []
  let name := directory.take (directory.length - lineBreak.length)
  match componentSuffixes.find? (·.isSuffixOf name) with
  | some suffix => name.take (name.length - suffix.length) ++ lineBreak
  | none => directory

/-- The name of the module of a component for a layer. -/
def moduleName (component layer : Text) : Text := component ++ '-' :: layer

/-- The words of a name, joined, each with a capital letter at its start. -/
def pascalCase (name : Text) : Text :=
  let isSeparator (c : Char) : Bool := c = '-' || c = '_' || c = '.' || Text.isBlank c
  (Text.pieces isSeparator name).flatMap fun
    | [] => []
    | c :: rest => Text.upperChar c ++ rest

/-- The package of a layer of a project. What cannot stand in a package name becomes a point, and an
empty part is left out. -/
def basePackage (group project layer : Text) : Text :=
  let project := (Text.lower project).map fun c => if Text.isWordChar c then c else '.'
  let project := (project.dropWhile (· = '.')).reverse.dropWhile (· = '.') |>.reverse
  List.intercalate ['.'] ([group, project, layer].filter (· ≠ []))

/-- A module: a directory with a descriptor, and the layers of its component next to it. -/
structure Module where
  component : Text
  path : Path
  layers : List Layer := []
deriving DecidableEq, Repr

namespace Module

/-- The module has a submodule for some layer. -/
def hasLayers (m : Module) : Bool := m.layers ≠ []

/-- The module has a submodule for a layer. -/
def has (m : Module) (layer : Layer) : Bool := m.layers.contains layer

/-- Whether a flag of the module is set: there is one for every layer, one for all of them together,
and the flag `role` is always set. -/
def flag (m : Module) (name : Text) : Bool :=
  match Layer.ofName? name with
  | some layer => m.has layer
  | none => name = "role" || (name = "any_submodules" && m.hasLayers)

/-- The directory of the submodule for a layer. -/
def submodule (m : Module) (layer : Text) : Path :=
  m.path.join (Path.ofText (moduleName m.component layer))

end Module

end Layering
