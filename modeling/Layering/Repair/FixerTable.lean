import Layering.Repair.Fixer

/-!
# Fixer tables

The known fixers, by descending priority; fixers of one priority stand in the order in which they
were registered. No two have the same name.
-/

namespace Layering

/-- The known fixers. -/
structure FixerTable where
  fixers : List Fixer := []
  /-- The settings that say which fixers may run. -/
  settings : Settings := {}

namespace FixerTable

/-- The names of the fixers, in order. -/
def names (t : FixerTable) : List Text := t.fixers.map (·.name)

/-- Sorts fixers by descending priority. -/
def sorted (fixers : List Fixer) : List Fixer := fixers.mergeSort fun f g => g.priority ≤ f.priority

/-- The fixers of other names. -/
def others (name : Text) (fixers : List Fixer) : List Fixer := fixers.filter (·.name ≠ name)

/-- Registers a fixer, in place of any other of its name. -/
def register (f : Fixer) (t : FixerTable) : FixerTable :=
  { t with fixers := sorted (others f.name t.fixers ++ [f]) }

/-- Removes the fixer of a name. -/
def unregister (name : Text) (t : FixerTable) : FixerTable :=
  { t with fixers := others name t.fixers }

/-- Removes all fixers. -/
def clear (t : FixerTable) : FixerTable := { t with fixers := [] }

/-- There is a fixer of a name. -/
def has (name : Text) (t : FixerTable) : Bool := t.names.contains name

/-- The fixers that may run. -/
def enabled (t : FixerTable) : List Fixer := t.fixers.filter fun f => t.settings.allowsFixer f.name

/-- The fixers that may run for a rule. -/
def forRule (rule : Text) (t : FixerTable) : List Fixer :=
  t.enabled.filter (·.rules.contains rule)

/-- Registers fixers one after another. -/
def ofList (fixers : List Fixer) (settings : Settings := {}) : FixerTable :=
  fixers.foldl (fun t f => t.register f) { settings := settings }

end FixerTable

end Layering
