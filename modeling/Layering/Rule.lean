import Layering.Layer

/-!
# Rules

The identifiers of the rules that are checked or repaired.
-/

namespace Layering.Rule

/-- A component in several modules has one for its contract. -/
def missingApi : Text := "MS-001"

/-- A component in several modules has one for its core. -/
def missingCore : Text := "MS-002"

/-- A module that only holds other modules has the build wrapper. -/
def missingWrapper : Text := "AG-005"

/-- A facade returns types of the contract. -/
def facadeReturnType : Text := "FA-002"

/-- A fixer never returns null. -/
def nullResult : Text := "FX-002"

/-- The layers that a component in several modules must have, by rule. -/
def requiredLayers : List (Text × Layer) := [(missingApi, .api), (missingCore, .core)]

end Layering.Rule
