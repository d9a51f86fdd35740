import Layering.Failure
import Layering.Workspace.Tree

/-!
# Sites

The state that all operations work on, and what can be asked of it. An answer about a path may be a
fault, which names the path as it was given.
-/

namespace Layering

/-- The kinds of message about a run. -/
inductive Message.Kind where
  | step | error | warning | debug
deriving DecidableEq, Repr

/-- A message about a run. -/
structure Message where
  kind : Message.Kind
  text : Text
deriving DecidableEq, Repr

/-- What a file was before a change: its contents, or the nearest directory if it was absent. -/
inductive Held where
  | contents (bytes : Bytes)
  | absent (ancestor : Path)
deriving DecidableEq, Repr

/-- The file tree with the working directory, the snapshots held in memory, by resolved path, and
the messages so far. -/
structure Site where
  tree : Tree := {}
  workingDirectory : Location := []
  held : List (Path × Held) := []
  messages : List Message := []

namespace Site

/-- The working directory as a path. -/
def here (s : Site) : Path := ⟨.root, s.workingDirectory⟩

/-- The path from the root, without names of two points. -/
def resolve (s : Site) (p : Path) : Path := p.resolve s.here

/-- The location from which the names of a path are followed. -/
def start (s : Site) (p : Path) : Location := if p.isAbsolute then [] else s.workingDirectory

/-- The location of the entry that a path leads to. -/
def locate (s : Site) (p : Path) : Except Obstacle Location := s.tree.follow (s.start p) p.names

/-- The fault that an obstacle on the way of a path is. -/
def obstacle (p : Path) : Obstacle → Fault
  | .notFound => .notFound p
  | .notDirectory => .notDirectory p
  | .nameTooLong => .nameTooLong p

/-- The entry that a path leads to, if there is one. Only a name that is too long is a fault. -/
def entryOf? (s : Site) (p : Path) : Except Fault (Option Entry) :=
  match s.locate p with
  | .ok location => .ok (s.tree.at? location)
  | .error .nameTooLong => .error (.nameTooLong p)
  | .error _ => .ok none

/-- There is an entry at a path. -/
def exists? (s : Site) (p : Path) : Except Fault Bool := (s.entryOf? p).map (·.isSome)

/-- There is a directory at a path. -/
def isDirectory? (s : Site) (p : Path) : Except Fault Bool :=
  (s.entryOf? p).map (· = some .directory)

/-- There is a file at a path. -/
def isFile? (s : Site) (p : Path) : Except Fault Bool :=
  (s.entryOf? p).map fun
    | some (.file ..) => true
    | _ => false

/-- The contents and the mode of the file at a path. -/
def read (s : Site) (p : Path) : Except Fault (Bytes × Nat) :=
  match s.locate p with
  | .error o => .error (obstacle p o)
  | .ok location => match s.tree.at? location with
    | some (.file bytes mode) => .ok (bytes, mode)
    | some .directory => .error (.isDirectory p)
    | none => .error (.notFound p)

/-- The contents of the file at a path. -/
def readBytes (s : Site) (p : Path) : Except Failure Bytes :=
  ((s.read p).map (·.1)).mapError Failure.fault

/-- The text in the file at a path, with line feeds for all line breaks. -/
def readText (s : Site) (p : Path) : Except Failure Text := do
  let bytes ← s.readBytes p
  ((Utf8.decode bytes).map Text.unifyBreaks).mapError Failure.notText

/-- The files below a directory whose names end as given, in order. There are none below anything
else. -/
def filesBelow (s : Site) (p : Path) (ending : Text) : Except Fault (List Path) := do
  if ← s.isDirectory? p then
    match s.locate p with
    | .error _ => .ok []
    | .ok location => .ok ((s.tree.below location).filterMap fun (names, entry) =>
      match entry with
      | .file .. =>
        if ending.isSuffixOf (names.getLast?.getD []) then some ⟨p.anchor, p.names ++ names⟩
        else none
      | .directory => none)
  else .ok []

/-- The directories below a directory, each as the names from there, in order. There are none below
anything else. -/
def directoriesBelow (s : Site) (p : Path) : List (List Text) :=
  match s.locate p with
  | .error _ => []
  | .ok location =>
    if s.tree.isDirectory location then
      (s.tree.below location).filterMap fun (names, entry) =>
        if entry = .directory then some names else none
    else []

/-- The nearest directory above a path that exists, or the outermost one. -/
def nearestAncestor (s : Site) (p : Path) : Except Fault Path :=
  up p.parent p.parent.names.length
where
  /-- Goes up from a path with at most so many names. -/
  up (p : Path) : Nat → Except Fault Path
    | 0 => .ok p
    | n + 1 => do if ← s.exists? p then .ok p else up p.parent n

end Site

end Layering
