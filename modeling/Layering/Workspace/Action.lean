import Layering.Workspace.Site

/-!
# Actions

Operations that change a site. What an action has done stays done when it fails later on.
-/

namespace Layering

/-- An operation that changes a site and may fail. -/
abbrev Action (α : Type) := ExceptT Failure (StateM Site) α

namespace Action

/-- Asks something of the site. -/
def ask {α : Type} (question : Site → Except Failure α) : Action α := fun s => (question s, s)

/-- Asks something of the site to which the answer may be a fault. -/
def askFault {α : Type} (question : Site → Except Fault α) : Action α :=
  ask fun s => (question s).mapError Failure.fault

/-- Changes the site, unless that is refused. -/
def change (step : Site → Except Fault Site) : Action Unit := fun s =>
  match step s with
  | .ok s' => (.ok (), s')
  | .error f => (.error (.fault f), s)

/-- Runs an action and hands its end on as a value. -/
def attempt {α : Type} (action : Action α) : Action (Except Failure α) := fun s =>
  let (result, s') := action s
  (.ok result, s')

/-- Ends the action early because of a fault. -/
def refuse {α : Type} (f : Fault) : Action α := fun s => (.error (.fault f), s)

/-- Adds a message. -/
def say (kind : Message.Kind) (text : Text) : Action Unit := fun s =>
  (.ok (), { s with messages := s.messages ++ [⟨kind, text⟩] })

end Action

namespace Site

/-- The location that a new entry at a path takes. A path whose last name is none of its own has
none. -/
def slot? (s : Site) (p : Path) : Except Obstacle (Option Location) := do
  let parent ← s.tree.follow (s.start p) p.names.dropLast
  if !s.tree.isDirectory parent then .error .notDirectory
  else match p.names.getLast? with
    | none => .ok none
    | some name =>
      if name = ['.', '.'] then .ok none
      else if nameSize name > maxNameSize then .error .nameTooLong
      else .ok (some (parent ++ [name]))

/-- The site with an entry at a location, in place of any other. -/
def insert (s : Site) (location : Location) (entry : Entry) : Site :=
  { s with tree := s.tree.insert location entry }

/-- The site without the entry at a location. -/
def erase (s : Site) (location : Location) : Site := { s with tree := s.tree.erase location }

/-- The site with a new directory. -/
def withDirectory (p : Path) (s : Site) : Except Fault Site :=
  match s.slot? p with
  | .error o => .error (obstacle p o)
  | .ok none => .error (.alreadyExists p)
  | .ok (some location) =>
    if s.tree.at? location = none then .ok (s.insert location .directory)
    else .error (.alreadyExists p)

/-- The site with new contents at a path, and with the given mode. -/
def withFile (p : Path) (bytes : Bytes) (mode : Nat) (s : Site) : Except Fault Site :=
  match s.slot? p with
  | .error o => .error (obstacle p o)
  | .ok none => .error (.isDirectory p)
  | .ok (some location) =>
    if s.tree.isDirectory location then .error (.isDirectory p)
    else .ok (s.insert location (.file bytes mode))

/-- The site without the file at a path. -/
def withoutFile (p : Path) (s : Site) : Except Fault Site :=
  match s.slot? p with
  | .error o => .error (obstacle p o)
  | .ok none => .error (.isDirectory p)
  | .ok (some location) => match s.tree.at? location with
    | some (.file ..) => .ok (s.erase location)
    | some .directory => .error (.isDirectory p)
    | none => .error (.notFound p)

/-- The site without the empty directory at a path. -/
def withoutDirectory (p : Path) (s : Site) : Except Fault Site :=
  match s.slot? p with
  | .error o => .error (obstacle p o)
  | .ok none => .error (.cannotRemove p)
  | .ok (some location) => match s.tree.at? location with
    | some .directory =>
      if (s.tree.below location).isEmpty then .ok (s.erase location) else .error (.cannotRemove p)
    | some (.file ..) => .error (.notDirectory p)
    | none => .error (.notFound p)

/-- The site with another mode for the file at a path. Directories have no mode of their own. -/
def withMode (p : Path) (mode : Nat → Nat) (s : Site) : Except Fault Site :=
  match s.locate p with
  | .error o => .error (obstacle p o)
  | .ok location => match s.tree.at? location with
    | some (.file bytes old) => .ok (s.insert location (.file bytes (mode old)))
    | _ => .ok s

/-- The site without the directory at a path and everything in it. -/
def withoutTree (p : Path) (s : Site) : Except Fault Site :=
  match s.locate p with
  | .error o => .error (obstacle p o)
  | .ok location =>
    if s.tree.isDirectory location then .ok { s with tree := s.tree.without location }
    else .error (.notDirectory p)

end Site

namespace Action

/-- Makes a directory and those above it. One that is there already is left alone. -/
def makeDirectories (p : Path) : Action Unit := up p.names.length p
where
  /-- Makes a directory with at most so many names. -/
  up : Nat → Path → Action Unit
    | depth, p => do
      match (← get).withDirectory p with
      | .ok s => set s
      | .error (.notFound missing) =>
        match depth with
        | 0 => refuse (.notFound missing)
        | depth + 1 => do
          up depth p.parent
          match (← get).withDirectory p with
          | .ok s => set s
          | .error (.notFound missing) => refuse (.notFound missing)
          | .error f => acceptDirectory p f
      | .error f => acceptDirectory p f
  /-- A refusal does not matter where a directory is. -/
  acceptDirectory (p : Path) (f : Fault) : Action Unit := do
    if ← askFault (·.isDirectory? p) then pure () else refuse f

/-- The permissions of a file that is written for the first time. -/
def newFileMode : Nat := 0o600

/-- The permissions that let everyone run a file. -/
def executableBits : Nat := 0o111

/-- A name for new contents that are not in their place yet. -/
def temporaryName (name : Text) (n : Nat) : Text :=
  let digits := Text.ofNat n
  '.' :: name ++ '.' :: List.replicate (8 - digits.length) 'X' ++ digits ++ ".tmp"

/-- The first of these names in a directory that is free. -/
def freeLocation? (s : Site) (directory : Location) (name : Text) : Option Location :=
  ((List.range (s.tree.size + 1)).map fun n => directory ++ [temporaryName name n]).find? fun l =>
    s.tree.at? l = none

/-- Moves new contents to their place, with the mode of the file that was there. -/
def replace (temporary : Location) (directory p : Path) : Action Unit := change fun s => do
  let old ← s.entryOf? p
  match s.slot? p with
  | .error o => .error (Site.obstacle p o)
  | .ok none => .error (.busy directory p.name p)
  | .ok (some location) =>
    match s.tree.at? temporary, old with
    | some (.file bytes _), some (.file _ mode) =>
      .ok ((s.erase temporary).insert location (.file bytes mode))
    | some (.file bytes mode), none =>
      .ok ((s.erase temporary).insert location (.file bytes mode))
    | some (.file ..), some .directory => .error (.cannotReplace directory p.name p)
    | _, _ => .error (.notFound directory)

/-- Writes a file in full, with the directories above it. The contents are written beside the file
first and then moved to their place, so that no other state of the file is ever seen. A file keeps
its mode. -/
def writeBytes (p : Path) (bytes : Bytes) : Action Unit := do
  makeDirectories p.parent
  let directory := p.parent.absolute (← get).here
  if nameSize (Fault.temporaryName p.name) > maxNameSize then
    refuse (.temporaryTooLong directory p.name)
  else match freeLocation? (← get) directory.names p.name with
  | none => refuse .noFreeName
  | some temporary =>
    modify fun s => s.insert temporary (.file bytes newFileMode)
    match ← attempt (replace temporary directory p) with
    | .ok () => pure ()
    | .error e =>
      modify fun s => s.erase temporary
      throw e

/-- Writes a text in full. -/
def writeText (p : Path) (t : Text) : Action Unit := writeBytes p (Utf8.encode t)

/-- Removes a file, if it is there. -/
def deleteFile (p : Path) : Action Unit := do
  match (← get).withoutFile p with
  | .ok s => set s
  | .error (.notFound _) => pure ()
  | .error f => refuse f

/-- Lets everyone run a file, and says whether that was possible. -/
def makeExecutable (p : Path) : Action Bool := do
  match (← get).withMode p (· ||| executableBits) with
  | .ok s => set s; pure true
  | .error _ => pure false

/-- Copies a file with its mode. -/
def copyFile (source target : Path) : Action Unit := do
  let (bytes, mode) ← askFault (·.read source)
  change (Site.withFile target bytes mode)

/-- Gives a file the mode of another. -/
def copyMode (source target : Path) : Action Unit := do
  let (_, mode) ← askFault (·.read source)
  change (Site.withMode target fun _ => mode)

/-- Puts a file in its place with the given mode, and makes the directories above it. -/
def putFile (p : Path) (bytes : Bytes) (mode : Nat) : Action Unit := do
  makeDirectories p.parent
  change (Site.withFile p bytes mode)

/-- Removes the empty directories from one upwards, up to the first that is not empty. A directory
goes only if it is below `stop`. -/
def pruneUpTo (stop : Path) (start : Path) : Action Unit := up start.names.length start
where
  /-- Goes up from a directory with at most so many names. -/
  up : Nat → Path → Action Unit
    | depth, p => do
      let s ← get
      let resolved := s.resolve p
      let stop := s.resolve stop
      if resolved ≠ stop && resolved.ancestors.contains stop then
        match s.withoutDirectory p with
        | .error _ => pure ()
        | .ok s =>
          set s
          match depth with
          | 0 => pure ()
          | depth + 1 => up depth p.parent

end Action

end Layering
