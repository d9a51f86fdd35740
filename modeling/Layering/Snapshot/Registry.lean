import Layering.Snapshot.InMemory
import Layering.Snapshot.Staged

/-!
# Choice of a strategy

Strategies by name. A project may bring its own; a strategy is made when it is first asked for, and
then used again.
-/

namespace Layering

/-- A strategy made by a maker, or what is none. -/
inductive Made (α : Type) where
  | strategy (value : α)
  | somethingElse

/-- Strategies by name, as makers. `α` is what a maker makes. -/
structure StrategyRegistry (α : Type) where
  makers : List (Text × Made α)
  /-- What has been made so far, with a number of its own. -/
  made : List (Text × (Nat × α)) := []
  /-- The number of the next strategy that is made. -/
  next : Nat := 0
  /-- The strategy for a project that names none. -/
  standard : Text := "staging"

namespace StrategyRegistry

variable {α : Type}

/-- The names, in order. -/
def names (r : StrategyRegistry α) : List Text := (r.makers.map (·.1)).mergeSort Text.inOrder

/-- Adds what other packages provide. A name that is taken is left alone, and so is what cannot be
loaded. -/
def discover (provided : List (Text × Option (Made α))) (r : StrategyRegistry α) :
    StrategyRegistry α :=
  provided.foldl (fun r (name, maker) =>
    match maker with
    | some maker =>
      if (Entries.get? name r.makers).isSome then r
      else { r with makers := Entries.put name maker r.makers }
    | none => r) r

/-- Registers a maker; what the old one made is forgotten. -/
def register (name : Text) (maker : Made α) (r : StrategyRegistry α) : StrategyRegistry α :=
  { r with
    makers := Entries.put name maker r.makers
    made := r.made.filter (·.1 ≠ name) }

/-- The strategy of a name, with its number. -/
def get (name : Text) (r : StrategyRegistry α) :
    Except Failure (Nat × α) × StrategyRegistry α :=
  match Entries.get? name r.made with
  | some known => (.ok known, r)
  | none => match Entries.get? name r.makers with
    | none => (.error (.unknownStrategy name r.names), r)
    | some .somethingElse => (.error (.notAStrategy name), r)
    | some (.strategy value) =>
      (.ok (r.next, value), { r with
        made := Entries.put name (r.next, value) r.made
        next := r.next + 1 })

/-- The strategy of a name, or the standard one for no name or an empty one. -/
def select (name : Option Text) (r : StrategyRegistry α) :
    Except Failure (Nat × α) × StrategyRegistry α :=
  match name with
  | none | some [] => r.get r.standard
  | some name => r.get name

end StrategyRegistry

/-- The strategies that every project has. -/
def StrategyRegistry.standardMakers : List (Text × Made SnapshotStrategy) :=
  [(Staged.strategyName, .strategy (Staged.strategy Staged.standardDirectory)),
   (InMemory.strategyName, .strategy InMemory.strategy)]

end Layering
