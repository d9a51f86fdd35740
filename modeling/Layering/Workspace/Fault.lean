import Layering.Path
import Layering.Text.Quoted

/-!
# Faults

Why the file system refuses an operation.
-/

namespace Layering

/-- A refused operation. -/
inductive Fault where
  | notFound (path : Path)
  | alreadyExists (path : Path)
  | notDirectory (path : Path)
  | isDirectory (path : Path)
  | nameTooLong (path : Path)
  /-- A name in `directory` that belongs to the path with this last name is too long. -/
  | temporaryTooLong (directory : Path) (name : Text)
  /-- The path that a new file should take is a directory. -/
  | cannotReplace (directory : Path) (name : Text) (path : Path)
  /-- The path that a new file should take cannot be given to anything. -/
  | busy (directory : Path) (name : Text) (path : Path)
  /-- No free name was left for a new file. -/
  | noFreeName
  /-- A directory is not empty, or cannot be removed. -/
  | cannotRemove (path : Path)
  /-- There is no room for more. -/
  | diskFull
deriving DecidableEq, Repr

namespace Fault

/-- The name under which new contents are first written. Messages show it with eight letters in
place of the ones that are made up. -/
def temporaryName (name : Text) : Text := '.' :: name ++ ".XXXXXXXX.tmp"

/-- The number and the wording of a fault. -/
def numbered (number : Nat) (wording rest : Text) : Text :=
  ("[Errno " : Text) ++ Text.ofNat number ++ "] " ++ wording ++ rest

/-- The message for a fault at a path. -/
def atPath (number : Nat) (wording : Text) (path : Path) : Text :=
  numbered number wording (": " ++ Text.quoted path.text)

/-- The message for a fault of a new file. -/
def between (number : Nat) (wording : Text) (directory : Path) (name : Text) (path : Path) : Text :=
  numbered number wording (": " ++ Text.quoted (directory.child (temporaryName name)).text ++ " -> "
    ++ Text.quoted path.text)

/-- The message for a fault. -/
def message : Fault → Text
  | .notFound path => atPath 2 "No such file or directory" path
  | .alreadyExists path => atPath 17 "File exists" path
  | .notDirectory path => atPath 20 "Not a directory" path
  | .isDirectory path => atPath 21 "Is a directory" path
  | .nameTooLong path => atPath 36 "File name too long" path
  | .temporaryTooLong directory name =>
    atPath 36 "File name too long" (directory.child (temporaryName name))
  | .cannotReplace directory name path => between 21 "Is a directory" directory name path
  | .busy directory name path => between 16 "Device or resource busy" directory name path
  | .noFreeName => numbered 17 "No usable temporary file name found" []
  | .cannotRemove path => atPath 39 "Directory not empty" path
  | .diskFull => "disk full"

end Fault

end Layering
