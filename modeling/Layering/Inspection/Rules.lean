import Layering.Descriptor
import Layering.Inspection.Detector
import Layering.Rule
import Layering.TypeMapping
import Layering.Wrapper

/-!
# The rules of layering

The detectors that every project is checked with. None of them ever fails.
-/

namespace Layering.Detector

/-- A component lacks a layer. -/
def missingLayer (m : Module) (rule : Text) (layer : Layer) : Violation :=
  let directory := moduleName m.component layer.name
  { rule := rule
    message := "Component '" ++ m.component ++ "' is missing its " ++ Layer.label layer.name
      ++ " module. Expected '" ++ directory ++ "' directory with pom.xml."
    location := m.path.text
    found := "No " ++ directory ++ " module"
    expected := directory ++ "/pom.xml"
    suggestion := "Create the " ++ directory
      ++ " module and add it to the parent pom.xml <modules>."
    reference := "module-structure.md § " ++ rule
    severity := .error }

/-- Components in several modules that lack one of the required layers. -/
def missingLayers : Detector where
  name := "MissingModuleDetector"
  rules := Rule.requiredLayers.map (·.1)
  detect _ m := .ok (
    if m.hasLayers then
      Rule.requiredLayers.filterMap fun (rule, layer) =>
        if m.has layer then none else some (missingLayer m rule layer)
    else [])

/-- The method that every fixer has, and the number of its parameters. -/
def fixMethod : Text × Nat := ("fix", 2)

/-- A fixer returns null. -/
def nullResult (file : Path) (fixer : Text) (r : Java.Return) : Violation where
  rule := Rule.nullResult
  ownCategory := "FixerDesign"
  message := "Fixer fix() method must not return null"
  location := file.text
  found := fixer ++ ".fix() returns null at line " ++ Text.ofNat r.line
  expected := fixer ++ ".fix() should return FixResult"
  suggestion := "Return a FixResult instead of null:\n"
    ++ "  FixResult.success(violation, description, modifiedFiles, diffs)\n"
    ++ "  FixResult.failed(violation, errorMessage)\n"
    ++ "  FixResult.skipped(violation, reason)"
  reference := "remediation-design.md § FX-002"
  severity := .error
  line := some r.line

/-- The first null that each fixer of a source returns. -/
def nullResultsIn (file : Path) (o : Java.Outline) : List Violation :=
  o.concrete.filterMap fun t =>
    if t.role.isFixer then
      ((t.method? fixMethod.1 fixMethod.2).bind (·.firstNull?)).map (nullResult file t.name)
    else none

/-- Fixers that return null. -/
def nullResults : Detector where
  name := "NullReturnDetector"
  rules := [Rule.nullResult]
  detect s m := orNothing do
    if m.hasLayers then
      return (← outlines s m).flatMap fun (file, o) => nullResultsIn file o
    else return []

/-- A method of a facade returns a core class. -/
def coreReturnType (file : Path) (type : Text) (method : Java.Method) : Violation :=
  let core := method.returnTypeName
  { rule := Rule.facadeReturnType
    message := "Facade method " ++ type ++ "." ++ method.name ++ "() returns " ++ core
      ++ " instead of its API interface"
    location := file.text
    found := method.name ++ "() returns " ++ core
    expected := method.name ++ "() returns the API interface implemented by " ++ core
    suggestion := "Declare the API interface as the return type and import it from the -api module."
    reference := "facade-design.md § FA-002"
    severity := .warning
    line := some method.line }

/-- The method can be called from elsewhere. -/
def isExposed (method : Java.Method) : Bool :=
  method.modifiers.contains "public".toList || method.modifiers.contains "protected".toList

/-- A facade should not return this, and the repair can change it. -/
def returnsCoreType (listed : List Text) (method : Java.Method) : Bool :=
  method.returnTypeName ≠ [] && isExposed method && isCoreType listed method.returnTypeName
    && method.isRewritable

/-- Methods of facades that return core classes: those listed, and those whose names follow the
convention. -/
def coreReturnTypes (listed : List Text) : Detector where
  name := "FacadeReturnTypeDetector"
  rules := [Rule.facadeReturnType]
  detect s m := orNothing do
    if m.has .facade then
      let sources := m.submodule Layer.facade.name / sourceDirectory
      return (← outlines s m).flatMap fun (file, o) =>
        if file.ancestors.contains sources then
          o.types.flatMap fun t =>
            (t.methods.filter (returnsCoreType listed)).map (coreReturnType file t.name)
        else []
    else return []

/-- What is missing of the wrapper, and what to say about it. -/
def wrapperParts (artifact : Text) (hasDirectory : Bool) : List (Text × Text) :=
  let must : Text := "Pure aggregator '" ++ artifact ++ "' must have Maven wrapper "
  [(Wrapper.script, must ++ "script 'mvnw'."),
   (Wrapper.batchScript, must ++ "batch script 'mvnw.cmd' for Windows support."),
   if hasDirectory then
     (Wrapper.properties, must ++ "properties '" ++ Wrapper.properties ++ "'.")
   else
     (Wrapper.directory, must ++ "directory '" ++ Wrapper.directory
       ++ "' with maven-wrapper.properties.")]

/-- A part of the wrapper is missing. -/
def missingPart (m : Module) (part message : Text) : Violation where
  rule := Rule.missingWrapper
  message := message
  location := (m.path / Path.ofText part).text
  found := "Missing " ++ part
  expected := part
  suggestion := "Run 'mvn wrapper:wrapper' in the aggregator directory, "
    ++ "or let the fixer install the bundled wrapper."
  reference := "aggregator.md § AG-005"
  severity := .warning

/-- Modules that only hold other modules and lack the build wrapper. -/
def missingWrappers : Detector where
  name := "MavenWrapperDetector"
  rules := [Rule.missingWrapper]
  detect s m := orNothing do
    let file := m.path.child descriptorName
    if m.hasLayers then return []
    if !(← (s.exists? file).mapError Failure.fault) then return []
    let descriptor ← s.readText file
    if !Descriptor.isAggregator descriptor then return []
    let artifact := (Descriptor.value? "artifactId" descriptor).getD m.path.name
    let directory := m.path / Path.ofText Wrapper.directory
    let hasDirectory ← (s.isDirectory? directory).mapError Failure.fault
    let missing ← (wrapperParts artifact hasDirectory).filterM fun (part, _) => do
      return !(← (s.exists? (m.path / Path.ofText part)).mapError Failure.fault)
    return missing.map fun (part, message) => missingPart m part message

/-- The detectors that every project is checked with. -/
def standard (coreTypes : List Text) : List Detector :=
  [missingLayers, nullResults, coreReturnTypes coreTypes, missingWrappers]

end Layering.Detector
