import Layering.Text.Basic

/-!
# Paths

A path is a start and the names below it. Empty names and single points mean nothing and are never
kept; a name of two points is kept until the path is resolved.
-/

namespace Layering

/-- Where a path starts. -/
inductive Path.Anchor where
  /-- At the working directory. -/
  | here
  /-- At the root. -/
  | root
  /-- At the root written as two slashes, which is a place of its own in comparisons. -/
  | doubleRoot
deriving DecidableEq, Repr

/-- The written form of a start. -/
def Path.Anchor.text : Path.Anchor → Text
  | .here => []
  | .root => ['/']
  | .doubleRoot => ['/', '/']

/-- A path in a tree of directories. -/
structure Path where
  anchor : Path.Anchor := .here
  names : List Text := []
deriving DecidableEq, Repr

namespace Path

/-- The names in a text, without the ones that mean nothing. -/
def namesOf (t : Text) : List Text :=
  (Text.splitOn '/' t).filter fun name => name ≠ [] && name ≠ ['.']

/-- Reads a path. -/
def ofText (t : Text) : Path :=
  let anchor := match (t.takeWhile (· = '/')).length with
    | 0 => .here
    | 2 => .doubleRoot
    | _ => .root
  ⟨anchor, namesOf t⟩

/-- A literal may stand where a path is expected. -/
instance : Coe String Path := ⟨fun s => ofText s⟩

/-- The names with slashes between them. -/
def joinNames (names : List Text) : Text := List.intercalate ['/'] names

/-- The written form. The working directory is a single point. -/
def text (p : Path) : Text :=
  match p.anchor, p.names with
  | .here, [] => ['.']
  | anchor, names => anchor.text ++ joinNames names

/-- The path starts at the root. -/
def isAbsolute (p : Path) : Bool := p.anchor ≠ .here

/-- The path `q` seen from `p`. An absolute path stays as it is. -/
def join (p q : Path) : Path := if q.isAbsolute then q else ⟨p.anchor, p.names ++ q.names⟩

/-- `p / q` is the path `q` seen from `p`. -/
instance : Div Path := ⟨join⟩

/-- The path without its last name. -/
def parent (p : Path) : Path := ⟨p.anchor, p.names.dropLast⟩

/-- The last name, empty if there is none. -/
def name (p : Path) : Text := p.names.getLast?.getD []

/-- The path with one more name. -/
def child (p : Path) (name : Text) : Path := ⟨p.anchor, p.names ++ [name]⟩

/-- The proper ancestors, nearest first. -/
def ancestors (p : Path) : List Path :=
  (List.range p.names.length).reverse.map fun n => ⟨p.anchor, p.names.take n⟩

/-- Two points take back the name before them. -/
def withoutParents (names : List Text) : List Text :=
  (names.foldl (fun kept name => if name = ['.', '.'] then kept.tail else name :: kept) []).reverse

/-- The path from the root, without names of two points. -/
def absolute (p workingDirectory : Path) : Path :=
  ⟨(workingDirectory.join p).anchor, withoutParents (workingDirectory.join p).names⟩

/-- The path from the one root, without names of two points. -/
def resolve (p workingDirectory : Path) : Path :=
  ⟨.root, withoutParents (workingDirectory.join p).names⟩

/-- The rest of a path below `root`. -/
def relativeTo? (p root : Path) : Option Path :=
  if p.anchor = root.anchor && root.names.isPrefixOf p.names then
    some ⟨.here, p.names.drop root.names.length⟩
  else none

/-- The path below `root`, or the path itself if it is elsewhere. -/
def relativeTo (p root : Path) : Path := (p.relativeTo? root).getD p

/-- The start, if it is written, and the names. -/
def key (p : Path) : List Text := if p.isAbsolute then p.anchor.text :: p.names else p.names

/-- Paths are ordered by their starts and then name by name. -/
def inOrder (p q : Path) : Bool := (compare p.key q.key).isLE

/-- Sorts paths. -/
def sort (paths : List Path) : List Path := paths.mergeSort inOrder

end Path

end Layering
