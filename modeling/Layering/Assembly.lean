import Layering.Failure
import Layering.Repair.FixerTable
import Layering.Repair.ReturnTypes
import Layering.Repair.Scaffolding
import Layering.Repair.WrapperFiles
import Layering.Snapshot.Registry

/-!
# Assemblies

What the parts of a program are, when nothing else is asked for. The assembly in use is made once
and kept until it is dropped.
-/

namespace Layering

/-- The parts of a program. -/
inductive Component where
  | console | files | descriptors | modules | sources | catalog | tables | documents | fixers
  | strategies
deriving DecidableEq, Repr

namespace Component

/-- Every part, with the key under which it is known. -/
def keys : List (Text × Component) :=
  [("TelemetryPort", .console), ("FileSystemGateway", .files), ("PomGateway", .descriptors),
   ("ModuleScanner", .modules), ("JavaSourceGateway", .sources), ("RuleRegistryService", .catalog),
   ("StructureReporter", .tables), ("JsonStructureReporter", .documents),
   ("FixerRegistry", .fixers), ("BackupStrategyRegistry", .strategies)]

/-- The part of a key. -/
def find (key : Text) : Except Failure Component :=
  match Entries.get? key keys with
  | some part => .ok part
  | none => .error (.unknownComponent key)

end Component

/-- The fixers that every program has, in the order in which they are registered. -/
def bundledFixers : List Fixer := [Scaffolding.fixer, ReturnTypes.fixer, WrapperFiles.fixer]

/-- The parts of a program that can be changed. -/
structure Assembly where
  /-- Assemblies are told apart by number. -/
  number : Nat := 0
  fixers : FixerTable := .ofList bundledFixers {}
  strategies : StrategyRegistry SnapshotStrategy := { makers := StrategyRegistry.standardMakers }

/-- The assembly in use, if one has been made. -/
structure AssemblyStore where
  current : Option Assembly := none
  made : Nat := 0

namespace AssemblyStore

/-- The assembly in use, which is made if there is none. -/
def get (store : AssemblyStore) : Assembly × AssemblyStore :=
  match store.current with
  | some a => (a, store)
  | none =>
    let a : Assembly := { number := store.made }
    (a, ⟨some a, store.made + 1⟩)

/-- Drops the assembly in use. -/
def reset (store : AssemblyStore) : AssemblyStore := { store with current := none }

end AssemblyStore

end Layering
