import Layering.Java.SyntaxError
import Layering.Text.Utf8
import Layering.Workspace.Fault

/-!
# Failures

Everything that can end an operation early.
-/

namespace Layering

/-- Why an operation ended early. -/
inductive Failure where
  /-- The file system refused something. -/
  | fault (f : Fault)
  /-- A file that should be text is none. -/
  | notText (f : Utf8.Fault)
  /-- A source has no outline. -/
  | notJava (file : Path) (e : Java.SyntaxError)
  /-- A file outside the project cannot be staged. -/
  | outsideProject (file project : Path)
  /-- A snapshot could not be taken. -/
  | noSnapshot (f : Fault)
  /-- A snapshot strategy that is not known, and those that are. -/
  | unknownStrategy (name : Text) (known : List Text)
  /-- What goes by the name of a snapshot strategy is none. -/
  | notAStrategy (name : Text)
  /-- A configuration file that cannot be read. -/
  | unreadableSettings (file : Path) (f : Fault)
  /-- A configuration file that is no document. -/
  | malformedSettings (file : Path)
  /-- A configuration file whose document is no map. -/
  | settingsNotMap (file : Path)
  /-- A rule catalog that is no document. -/
  | malformedCatalog (file : Path)
  /-- A component that is not known. -/
  | unknownComponent (name : Text)
  /-- What a fixer from outside says. -/
  | reported (message : Text)
deriving DecidableEq, Repr

namespace Failure

/-- The message for a failure. -/
def message : Failure → Text
  | .fault f => f.message
  | .notText f => f.message
  | .notJava file e => e.message file.text
  | .outsideProject file project => file.text ++ " is outside project root " ++ project.text
  | .noSnapshot f => "Failed to back up files: " ++ f.message
  | .unknownStrategy name known =>
    "Unknown backup strategy '" ++ name ++ "'. Available: " ++ List.intercalate [',', ' '] known
  | .notAStrategy name =>
    "Backup strategy '" ++ name ++ "' does not implement backup/rollback/cleanup"
  | .unreadableSettings file f => "Cannot read " ++ file.text ++ ": " ++ f.message
  | .malformedSettings file => "Invalid YAML in " ++ file.text
  | .settingsNotMap file => "Expected a mapping at the top of " ++ file.text
  | .malformedCatalog file => "Invalid YAML in " ++ file.text
  | .unknownComponent name => "Dependency '" ++ name ++ "' not registered."
  | .reported message => message

/-- The failure comes from the file system. -/
def fault? : Failure → Option Fault
  | .fault f => some f
  | _ => none

end Failure

end Layering
