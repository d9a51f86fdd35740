import Std.Data.ExtTreeMap
import Layering.Text.Utf8

/-!
# Trees

A tree of directories and files. Entries are found by the names on the way from the root; the root
itself is always a directory. Two trees are equal when they have the same entries.
-/

namespace Layering

/-- The names on the way from the root to an entry. -/
abbrev Location := List Text

/-- A directory or a file. -/
inductive Entry where
  | directory
  | file (bytes : Bytes) (mode : Nat)
deriving DecidableEq, Repr

/-- Locations are ordered name by name. -/
def Location.order (a b : Location) : Ordering := compare a b

instance Location.transCmp : Std.TransCmp Location.order := inferInstanceAs (Std.TransOrd Location)

/-- The entries below the root. -/
abbrev Tree := Std.ExtTreeMap Location Entry Location.order

/-- Why the names of a path lead to no entry. -/
inductive Obstacle where
  | notFound | notDirectory | nameTooLong
deriving DecidableEq, Repr

/-- The number of bytes of a name. -/
def nameSize (name : Text) : Nat := (Utf8.encode name).length

/-- The largest number of bytes that a name may have. -/
def maxNameSize : Nat := 255

namespace Tree

/-- The entry at a location. -/
def at? (tree : Tree) (location : Location) : Option Entry :=
  if location = [] then some .directory else tree[location]?

/-- There is a directory at a location. -/
def isDirectory (tree : Tree) (location : Location) : Bool := tree.at? location = some .directory

/-- Follows names from a location to an entry. Two points lead to the directory above. -/
def follow (tree : Tree) : Location → List Text → Except Obstacle Location
  | here, [] => .ok here
  | here, name :: rest =>
    if !tree.isDirectory here then .error .notDirectory
    else if name = ['.', '.'] then follow tree here.dropLast rest
    else if nameSize name > maxNameSize then .error .nameTooLong
    else if tree.at? (here ++ [name]) = none then .error .notFound
    else follow tree (here ++ [name]) rest

/-- The entries below a location, each with the names from there, in order. -/
def below (tree : Tree) (location : Location) : List (List Text × Entry) :=
  tree.toList.filterMap fun (place, entry) =>
    if location.isPrefixOf place && place ≠ location then
      some (place.drop location.length, entry)
    else none

/-- The tree without the entry at a location and all below it. -/
def without (tree : Tree) (location : Location) : Tree :=
  tree.filter fun place _ => !location.isPrefixOf place

end Tree

end Layering
