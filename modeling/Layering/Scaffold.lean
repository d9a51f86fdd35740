import Layering.Descriptor
import Layering.Layer

/-!
# Scaffolds

The files of a new module for a layer.
-/

namespace Layering.Scaffold

/-- The group of a project that names none. -/
def defaultGroup : Text := "dev.engineeringlab"

/-- The version of a project that names none. -/
def defaultVersion : Text := "0.2.0-SNAPSHOT"

/-- What the new module is for. -/
def moduleDescription (component layer : Text) : Text :=
  match Layer.ofName? layer with
  | some .api => "API module for " ++ component ++ " - contains public interfaces and contracts"
  | some .core => "Core module for " ++ component ++ " - contains implementations"
  | _ => Layer.label layer ++ " module for " ++ component

/-- A core module depends on the contract. -/
def dependencies (group component layer : Text) : Text :=
  if layer = "core" then
    "\n    <dependencies>\n        <dependency>\n            <groupId>" ++ group
      ++ "</groupId>\n            <artifactId>" ++ moduleName component "api"
      ++ "</artifactId>\n            <version>$\x7bproject.version\x7d</version>\n"
      ++ "        </dependency>\n    </dependencies>\n"
  else []

/-- The descriptor of a new module below the project that `parent` describes. -/
def descriptor (parent parentDirectory name component layer : Text) : Text :=
  let group := (Descriptor.value? "groupId" parent).getD defaultGroup
  let version := (Descriptor.value? "version" parent).getD defaultVersion
  let parentName := (Descriptor.value? "artifactId" parent).getD parentDirectory
  "<?xml version=\"1.0\" encoding=\"UTF-8\"?>\n"
    ++ "<project xmlns=\"http://maven.apache.org/POM/4.0.0\"\n"
    ++ "         xmlns:xsi=\"http://www.w3.org/2001/XMLSchema-instance\"\n"
    ++ "         xsi:schemaLocation=\"http://maven.apache.org/POM/4.0.0 "
    ++ "http://maven.apache.org/xsd/maven-4.0.0.xsd\">\n"
    ++ "    <modelVersion>4.0.0</modelVersion>\n\n    <parent>\n        <groupId>" ++ group
    ++ "</groupId>\n        <artifactId>" ++ parentName ++ "</artifactId>\n        <version>"
    ++ version ++ "</version>\n    </parent>\n\n    <artifactId>" ++ name
    ++ "</artifactId>\n    <packaging>jar</packaging>\n\n    <name>" ++ pascalCase component ++ " "
    ++ Layer.label layer ++ "</name>\n    <description>" ++ moduleDescription component layer
    ++ "</description>\n" ++ dependencies group component layer ++ "</project>\n"

/-- The source that describes the package of a new module. -/
def packageInfo (package name layer : Text) : Text :=
  "/**\n * " ++ Layer.description layer ++ ".\n *\n * <p>Module: " ++ name ++ "\n */\npackage "
    ++ package ++ ";\n"

end Layering.Scaffold
