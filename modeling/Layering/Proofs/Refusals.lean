import Layering.Proofs.Actions

/-!
# Operations that are refused

Writing a file takes many operations, and each of them may be refused for reasons that no tree shows: a
disk that is full, or permissions that are missing. Here any of them may be refused; where none is, files
are written as ever.
-/

namespace Layering

/-- What is refused while a file is written, besides what the tree rules out. -/
structure Refusals where
  /-- Making one directory. What is refused may differ from one try to the next. -/
  directory : Path → Site → Option Fault := fun _ _ => none
  /-- Making the new file. -/
  temporary : Option Fault := none
  /-- Writing the contents, after so many bytes of them. -/
  contents : Option (Nat × Fault) := none
  /-- Giving the new file the mode and the place of the one before. -/
  placing : Option Fault := none

namespace Refusals

variable (r : Refusals)

/-- The site with a new directory, unless that is refused. -/
def withDirectory (p : Path) (s : Site) : Except Fault Site :=
  match r.directory p s with
  | some f => .error f
  | none => s.withDirectory p

/-- Makes a directory and those above it. -/
def makeDirectories (p : Path) : Action Unit := up p.names.length p
where
  /-- Makes a directory with at most so many names. -/
  up : Nat → Path → Action Unit
    | depth, p => do
      match r.withDirectory p (← get) with
      | .ok s => set s
      | .error (.notFound missing) =>
        match depth with
        | 0 => Action.refuse (.notFound missing)
        | depth + 1 => do
          up depth p.parent
          match r.withDirectory p (← get) with
          | .ok s => set s
          | .error (.notFound missing) => Action.refuse (.notFound missing)
          | .error f => Action.makeDirectories.acceptDirectory p f
      | .error f => Action.makeDirectories.acceptDirectory p f

/-- What the new file holds when writing it ends. -/
def written (bytes : Bytes) : Bytes :=
  match r.contents with
  | some (n, _) => bytes.take n
  | none => bytes

/-- Finishes the new file and moves it to its place. -/
def replace (temporary : Location) (directory p : Path) : Action Unit :=
  match r.contents with
  | some (_, f) => Action.refuse f
  | none => match r.placing with
    | some f => Action.refuse f
    | none => Action.replace temporary directory p

/-- Writes a file in full, with the directories above it. Whatever is refused once the new file was made,
it is removed again. -/
def writeBytes (p : Path) (bytes : Bytes) : Action Unit := do
  r.makeDirectories p.parent
  let directory := p.parent.absolute (← get).here
  if nameSize (Fault.temporaryName p.name) > maxNameSize then
    Action.refuse (.temporaryTooLong directory p.name)
  else match r.temporary with
  | some f => Action.refuse f
  | none => match Action.freeLocation? (← get) directory.names p.name with
    | none => Action.refuse .noFreeName
    | some temporary =>
      modify fun s => s.insert temporary (.file (r.written bytes) Action.newFileMode)
      match ← Action.attempt (r.replace temporary directory p) with
      | .ok () => pure ()
      | .error e =>
        modify fun s => s.erase temporary
        throw e

/-- Nothing is refused. -/
def nothing : Refusals := {}

theorem up_nothing (depth : Nat) (p : Path) :
    makeDirectories.up nothing depth p = Action.makeDirectories.up depth p := by
  induction depth generalizing p with
  | zero =>
    unfold makeDirectories.up Action.makeDirectories.up
    rfl
  | succ depth ih =>
    unfold makeDirectories.up Action.makeDirectories.up
    simp only [ih p.parent]
    rfl

theorem makeDirectories_nothing (p : Path) :
    nothing.makeDirectories p = Action.makeDirectories p := up_nothing p.names.length p

theorem writeBytes_nothing (p : Path) (bytes : Bytes) :
    nothing.writeBytes p bytes = Action.writeBytes p bytes := by
  unfold writeBytes Action.writeBytes
  rw [makeDirectories_nothing]
  rfl

end Refusals

end Layering
