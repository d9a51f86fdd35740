import Layering.CommandLine.Arguments
import Layering.Path

/-!
# Commands

A command line asks for one command. A wrong one asks for nothing.
-/

namespace Layering

/-- How a report is written. -/
inductive ReportFormat where
  | table | json
deriving DecidableEq, Repr

/-- The format of a name. -/
def ReportFormat.ofName? (name : Text) : Option ReportFormat :=
  if name = "table" then some .table else if name = "json" then some .json else none

/-- What a command works on, and how. -/
structure CommandOptions where
  path : Option Path := none
  /-- The rules that are asked for; all of them if there are none. -/
  rules : List Text := []
  workers : Option Nat := none
  maxFailures : Option Nat := none
  isApplied : Bool := false
  format : ReportFormat := .table
deriving DecidableEq, Repr

/-- A command. -/
inductive Command where
  | scan (o : CommandOptions)
  | fix (o : CommandOptions)
  | rules (o : CommandOptions)
deriving DecidableEq, Repr

/-- What a command line asks for. -/
inductive CommandLine where
  /-- A description of the commands. -/
  | help
  /-- Nothing that can be done. -/
  | wrong
  | command (c : Command)
deriving DecidableEq, Repr

namespace CommandLine

/-- The switch that every command knows. -/
def helpParameter : Text × Parameter := ("--help", .switch .help)

/-- The names for the format. -/
def formatParameters : Parameters where
  long := [helpParameter, ("--format", .field .format)]
  short := [('f', .field .format)]

/-- The names that the scan knows. -/
def scanParameters : Parameters where
  long := [helpParameter, ("--format", .field .format), ("--rule", .field .rule),
    ("--workers", .field .workers)]
  short := [('f', .field .format), ('r', .field .rule)]

/-- The names that the repair knows. -/
def fixParameters : Parameters where
  long := [helpParameter, ("--format", .field .format), ("--rule", .field .rule),
    ("--workers", .field .workers), ("--apply", .switch .apply), ("--dry-run", .switch .dryRun),
    ("--max-failures", .field .maxFailures)]
  short := [('f', .field .format), ('r', .field .rule)]

/-- The value of a field that is read in some way: the last one given, or else the fallback. -/
def last? {α : Type} (fallback : α) (read : Text → Option α) (f : Field) (args : List Argument) :
    Option α :=
  match (Arguments.values f args).getLast? with
  | some value => read value
  | none => some fallback

/-- The options that some arguments give, if every value is right. -/
def options? (args : List Argument) : Option CommandOptions := do
  return {
    path := (Arguments.words args).head?.map Path.ofText
    rules := Arguments.values .rule args
    workers := ← last? none (fun t => (Arguments.positive? t).map some) .workers args
    maxFailures := ← last? none (fun t => (Arguments.positive? t).map some) .maxFailures args
    isApplied := Arguments.isApplied args
    format := ← last? .table ReportFormat.ofName? .format args }

/-- Reads the arguments of a command, which may have so many words. Help goes before all values. -/
def ofArguments (known : Parameters) (maxWords : Nat) (command : CommandOptions → Command)
    (args : List Text) : CommandLine :=
  match Arguments.read? known args with
  | none => .wrong
  | some args =>
    if Arguments.hasSwitch .help args then .help
    else match options? args with
    | some o => if (Arguments.words args).length ≤ maxWords then .command (command o) else .wrong
    | none => .wrong

/-- Reads the name of a command and its arguments. -/
def ofCommand : List Text → CommandLine
  | [] => .wrong
  | name :: args =>
    if name = "scan" then ofArguments scanParameters 1 .scan args
    else if name = "fix" then ofArguments fixParameters 1 .fix args
    else if name = "rules" then ofArguments formatParameters 0 .rules args
    else .wrong

/-- Reads a command line. Only the switch for help may stand before the command. -/
def read (args : List Text) : CommandLine := go false args
where
  /-- Reads on, after the switch for help or not. -/
  go (helps : Bool) : List Text → CommandLine
    | [] => if helps then .help else .wrong
    | arg :: rest =>
      if arg = helpParameter.1 then go true rest
      else if arg = "--" then if helps then .help else ofCommand rest
      else if Arguments.isName arg then .wrong
      else if helps then .help
      else ofCommand (arg :: rest)

end CommandLine

end Layering
