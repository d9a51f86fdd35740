import Layering.Entries
import Layering.Text.Basic

/-!
# Arguments

A command takes switches, fields with a value, and words. Long names stand after two hyphens and may
have their value after an equals sign; short names stand after one hyphen and may have their value
right after the letter. After two hyphens alone there are only words.
-/

namespace Layering

/-- The fields of a command. -/
inductive Field where
  | rule | workers | maxFailures | format
deriving DecidableEq, Repr

/-- The switches of a command. -/
inductive Switch where
  | help
  | apply
  | dryRun
deriving DecidableEq, Repr

/-- What a name stands for. -/
inductive Parameter where
  | field (f : Field)
  | switch (s : Switch)
deriving DecidableEq, Repr

/-- The names that a command knows. -/
structure Parameters where
  long : List (Text × Parameter)
  short : List (Char × Parameter) := []
deriving DecidableEq, Repr

/-- An argument that was understood. -/
inductive Argument where
  | field (f : Field) (value : Text)
  | switch (s : Switch)
  | word (t : Text)
deriving DecidableEq, Repr

namespace Arguments

/-- The argument is a name: it starts with a hyphen and goes on. -/
def isName (arg : Text) : Bool := arg.length > 1 && arg.head? = some '-'

/-- What a name stands for, and the value that is attached to it. -/
def parameter? (known : Parameters) (arg : Text) : Option (Parameter × Option Text) :=
  let name := arg.takeWhile (· ≠ '=')
  let value := if name.length < arg.length then some (arg.drop (name.length + 1)) else none
  match Entries.get? name known.long, arg with
  | some p, _ => some (p, value)
  | none, '-' :: '-' :: _ => none
  | none, '-' :: letter :: more =>
    (Entries.get? letter known.short).map fun p => (p, if more = [] then none else some more)
  | none, _ => none

/-- Reads arguments; the result is none if one of them is wrong. -/
def read? (known : Parameters) : List Text → Option (List Argument)
  | [] => some []
  | ['-', '-'] :: rest => some (rest.map .word)
  | arg :: rest =>
    if isName arg then
      match parameter? known arg, rest with
      | some (.switch s, none), rest => (read? known rest).map (.switch s :: ·)
      | some (.field f, some value), rest => (read? known rest).map (.field f value :: ·)
      | some (.field f, none), value :: rest => (read? known rest).map (.field f value :: ·)
      | _, _ => none
    else (read? known rest).map (.word arg :: ·)

/-- The values that a field was given. -/
def values (f : Field) (args : List Argument) : List Text :=
  args.filterMap fun
    | .field g value => if g = f then some value else none
    | _ => none

/-- The words. -/
def words (args : List Argument) : List Text :=
  args.filterMap fun
    | .word t => some t
    | _ => none

/-- A switch was given. -/
def hasSwitch (s : Switch) (args : List Argument) : Bool := args.contains (.switch s)

/-- Changes are to be applied. The last of the two switches counts. -/
def isApplied (args : List Argument) : Bool :=
  (args.filter fun a => a = .switch .apply || a = .switch .dryRun).getLast? = some (.switch .apply)

/-- The value of digits that have single underscores between them at most. -/
def digitsValue? (t : Text) : Option Nat :=
  let groups := Text.splitOn '_' t
  if groups.all fun g => g ≠ [] && g.all (·.isDigit) then
    some (groups.flatten.foldl (fun n c => 10 * n + (c.toNat - '0'.toNat)) 0)
  else none

/-- A whole number that is at least one. There may be blanks around it. -/
def positive? (t : Text) : Option Nat :=
  let digits := match Text.trim t with
    | '+' :: rest => rest
    | rest => rest
  match digitsValue? digits with
  | some (n + 1) => some (n + 1)
  | _ => none

end Arguments

end Layering
