import Layering.Inspection.Discovery
import Layering.Java.Outlining
import Layering.Violation

/-!
# Detectors

A detector looks for violations of its rules in one module.
-/

namespace Layering

/-- A check of one module. -/
structure Detector where
  name : Text
  /-- The rules that the detector may report. -/
  rules : List Text
  detect : Site → Module → Except Failure (List Violation)

namespace Detector

/-- Nothing is found where something cannot be read. -/
def orNothing (found : Except Failure (List Violation)) : Except Failure (List Violation) :=
  .ok (match found with
    | .ok violations => violations
    | .error _ => [])

/-- The outline of a source. -/
def outline (s : Site) (file : Path) : Except Failure Java.Outline := do
  (Java.outline {} (← s.readText file)).mapError (Failure.notJava file)

/-- The outlines of the sources of a module. A source that has none is left out. -/
def outlines (s : Site) (m : Module) : Except Failure (List (Path × Java.Outline)) := do
  let files ← (m.sourceFiles s).mapError Failure.fault
  .ok (files.filterMap fun file =>
    match outline s file with
    | .ok o => some (file, o)
    | .error _ => none)

end Detector

end Layering
