import Layering.Document
import Layering.TypeMapping

/-!
# Settings

What a project may configure. Every setting has a default, which also stands in for a value of the
wrong form.
-/

namespace Layering

/-- The settings of a project. -/
structure Settings where
  /-- The names of the settings that were given, whether they mean anything or not. -/
  given : List Scalar := []
  /-- The package that holds all packages of the project. -/
  group : Text := "dev.engineeringlab"
  project : Text := "architecture"
  /-- The name of the snapshot strategy. -/
  strategy : Text := "staging"
  disabledRules : List Text := []
  disabledFixers : List Text := []
  /-- When there are any, only these fixers may run. -/
  enabledFixers : List Text := []
  /-- The number of failures after which a run stops. -/
  maxFailures : Option Nat := none
  maxWorkers : Nat := 1
  /-- A skipped repair is handed to the next fixer. -/
  fallthrough : Bool := false
  mappings : TypeTable := .standard

namespace Settings

/-- A text without the blanks around it, if there is more to it. -/
def textOr (fallback : Text) (value : Option Document) : Text :=
  match value.bind Document.text? with
  | some t => if Text.trim t = [] then fallback else Text.trim t
  | none => fallback

/-- The texts in a list; what is no text does not count. -/
def textsOf : Option Document → List Text
  | some (.list items) => items.filterMap Document.text?
  | _ => []

/-- A positive number. -/
def positive? (value : Option Document) : Option Nat :=
  (value.bind Document.int?).bind fun n => if 0 < n then some n.toNat else none

/-- The mappings that start every project, with the configured ones on top. An entry counts if it
names both types. -/
def mappingsOf (value : Option Document) : TypeTable :=
  ((value.map Document.entries).getD []).foldl (fun table (key, entry) =>
    match (entry.get? "core").bind Document.text?, (entry.get? "api").bind Document.text? with
    | some core, some api => Entries.put key.spelling ⟨core, api, false⟩ table
    | _, _ => table) .standard

/-- Reads the settings from a document. They may stand below a key of their own. -/
def ofDocument (d : Document) : Settings :=
  let body := match d.get? "stratify" with
    | some (.map entries) => Document.map entries
    | _ => d
  let repairs := (body.get? "remediation").getD .null
  { given := body.entries.map (·.1)
    group := textOr "dev.engineeringlab" (body.get? "namespace")
    project := textOr "architecture" (body.get? "project")
    strategy := textOr "staging" (repairs.get? "backup_strategy")
    disabledRules := textsOf (repairs.get? "disabled_rules")
    disabledFixers := textsOf (repairs.get? "disabled_fixers")
    enabledFixers := textsOf (repairs.get? "enabled_fixers")
    maxFailures := positive? (repairs.get? "max_failures")
    maxWorkers := (positive? (repairs.get? "max_workers")).getD 1
    fallthrough := match repairs.get? "fallthrough_on_skip" with
      | some (.scalar (.bool true)) => true
      | _ => false
    mappings := mappingsOf (repairs.get? "type_mappings") }

/-- A rule is enabled unless it is disabled. -/
def allowsRule (s : Settings) (rule : Text) : Bool := !s.disabledRules.contains rule

/-- A fixer is enabled unless it is disabled or left out of the enabled ones. -/
def allowsFixer (s : Settings) (fixer : Text) : Bool :=
  !s.disabledFixers.contains fixer && (s.enabledFixers = [] || s.enabledFixers.contains fixer)

end Settings

end Layering
