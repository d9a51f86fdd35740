import Layering.Document
import Layering.Rule

/-!
# Rule catalogs

Facts about rules, by identifier. A catalog comes with the library, and a project may have others.
-/

namespace Layering

/-- Facts about rules, in order. -/
abbrev Catalog := List (Text × Document)

/-- The facts about a rule. -/
structure RuleFacts where
  title : Text
  category : Text
  severity : Text
  description : Text
  suggestion : Text
  reference : Text
  /-- The fixer of its violations, if there is one. -/
  fixer : Option Text := none
deriving DecidableEq, Repr

/-- The facts about a rule as a document. -/
def RuleFacts.toDocument (rule : Text) (facts : RuleFacts) : Document :=
  let about : List (Text × Document) :=
    [("display_name", .text facts.title), ("category", .text facts.category),
     ("severity", .text facts.severity), ("short_description", .text facts.description),
     ("suggested_fix", .text facts.suggestion), ("reference", .text facts.reference),
     ("fixable", .bool facts.fixer.isSome)]
  let fixer : List (Text × Document) := facts.fixer.toList.map fun name => ("fixer", .text name)
  .record (about ++ (fixer.concat ("rule_id", .text rule)))

namespace Catalog

/-- The facts about the rules that every project is checked with. -/
def standardFacts : List (Text × RuleFacts) :=
  [(Rule.missingApi, {
      title := "Missing API module"
      category := "ModuleStructure"
      severity := "ERROR"
      description := "A component with submodules has no <base>-api module."
      suggestion := "Create the <base>-api module and add it to the parent pom.xml <modules>."
      reference := "module-structure.md § MS-001"
      fixer := some "MissingModuleFixer" }),
   (Rule.missingCore, {
      title := "Missing Core module"
      category := "ModuleStructure"
      severity := "ERROR"
      description := "A component with submodules has no <base>-core module."
      suggestion := "Create the <base>-core module, depending on <base>-api, and add it to "
        ++ "the parent pom.xml <modules>."
      reference := "module-structure.md § MS-002"
      fixer := some "MissingModuleFixer" }),
   (Rule.facadeReturnType, {
      title := "Facade returns core type"
      category := "FacadeDesign"
      severity := "WARNING"
      description := "A public facade method exposes a core implementation type instead of "
        ++ "its API interface."
      suggestion := "Declare the API interface as the return type and import it from the "
        ++ "-api module."
      reference := "facade-design.md § FA-002"
      fixer := some "FacadeReturnTypeFixer" }),
   (Rule.nullResult, {
      title := "Fixer returns null"
      category := "FixerDesign"
      severity := "ERROR"
      description := "A fixer's fix(violation, context) method contains a return null statement."
      suggestion := "Return FixResult.success(...), FixResult.failed(...) or "
        ++ "FixResult.skipped(...) instead of null."
      reference := "remediation-design.md § FX-002" }),
   (Rule.missingWrapper, {
      title := "Aggregator missing Maven wrapper"
      category := "Aggregator"
      severity := "WARNING"
      description := "A pure aggregator module lacks mvnw, mvnw.cmd or "
        ++ ".mvn/wrapper/maven-wrapper.properties."
      suggestion := "Run 'mvn wrapper:wrapper' in the aggregator directory."
      reference := "aggregator.md § AG-005"
      fixer := some "MavenWrapperFixer" })]

/-- The catalog that comes with the library. -/
def standard : Catalog := standardFacts.map fun (rule, facts) => (rule, facts.toDocument rule)

/-- The catalog in a document: its entries that are maps. Every entry carries its own key. -/
def ofDocument (d : Document) : Catalog :=
  d.entries.foldl (fun catalog (key, value) =>
    match value with
    | .map facts =>
      let rule := key.spelling
      Entries.put rule (.map (Document.insert (.text "rule_id") (.text rule) facts)) catalog
    | _ => catalog) []

/-- The facts about a rule. -/
def facts? (rule : Text) (catalog : Catalog) : Option Document := Entries.get? rule catalog

/-- The rules whose violations can be repaired. -/
def fixable (catalog : Catalog) : List Text :=
  (catalog.filter fun (_, facts) => (facts.get? "fixable").any (·.isTruthy)).map (·.1)

end Catalog

end Layering
