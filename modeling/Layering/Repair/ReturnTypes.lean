import Layering.Java.Import
import Layering.Repair.Fixer
import Layering.Rule

/-!
# Correction of return types

The methods of a facade are made to return the types of the contract, and the imports follow.
-/

namespace Layering.ReturnTypes

/-- The source that a violation is about: the file at its place, or the first source below the
directory there. -/
def source? (v : Violation) (s : Site) : Except Failure (Option Path) :=
  Except.mapError Failure.fault do
  let location := Path.ofText v.location
  if ← s.isDirectory? location then
    return (← s.filesBelow location sourceEnding).find? (·.name ≠ packageInfoName)
  else if ← s.exists? location then return some location
  else return none

/-- The files that a correction may change. -/
def targets (_c : RepairContext) (v : Violation) (s : Site) : Except Failure (List Path) :=
  (source? v s).map Option.toList

/-- The patch for a source with some content, if there is anything to correct. -/
def patch? (file : Path) (core : Text) (mapping : TypeMapping) (content : Text) : Option Patch :=
  let signatures := Java.patchSignatures mapping content
  if signatures.text = content then none
  else
    let imports := Java.reconcileImports mapping signatures.text
    let description : Text :=
      "Changed return type from " ++ mapping.coreName ++ " to " ++ mapping.apiName
    some {
      description := description ++
        if mapping.inferred then (" (inferred mapping; verify the API type exists)" : Text) else []
      files := [file]
      diffs := signatures.diffs ++ imports.diffs
      remarks :=
        if mapping.inferred then
          ["Inferred " ++ mapping.apiName ++ " for " ++ core ++ " in " ++ file.name
            ++ "; review required"]
        else []
      changes := [.update file imports.text, .note ("Patched: " ++ file.text)] }

/-- Works out a correction. -/
def propose (c : RepairContext) (v : Violation) (s : Site) : Except Failure Proposal := do
  match ← source? v s with
  | none => return .nothing ("Could not determine source file from violation: " ++ v.location)
  | some file => match c.mappings.mentioned? v.message with
    | none => return .nothing "Could not determine core type from violation message"
    | some core => match c.mappings.resolve? core with
      | none => return .nothing ("No API interface mapping found for: " ++ core)
      | some mapping => match patch? file core mapping (← s.readText file) with
        | none => return .nothing "No changes needed - return type already correct or not found"
        | some patch => return .patch patch

/-- Corrects the return types of facades. -/
def fixer : Fixer :=
  .proposing "FacadeReturnTypeFixer"
    "Changes facade return types from core implementations to API interfaces" 80
    [Rule.facadeReturnType] targets propose

end Layering.ReturnTypes
