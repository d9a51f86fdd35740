import Layering.Text.Basic

/-!
# Sources of YAML

The characters of a text with their lines and columns, and what lies between the parts of a
document: blanks, comments and document marks.
-/

namespace Layering.Yaml

/-- A character and its place. -/
structure Spot where
  char : Char
  line : Nat
  column : Nat
deriving DecidableEq, Repr

/-- The rest of a text. -/
abbrev Source := List Spot

/-- The characters that end a line. -/
def isBreak (c : Char) : Bool := c = '\n' || c = '\x85' || c = '\u2028' || c = '\u2029'

/-- The characters that end a word. -/
def isWhite (c : Char) : Bool := c = ' ' || c = '\t' || isBreak c

/-- The ranges of the characters that a text may have. -/
def allowedRanges : List (Nat × Nat) :=
  [(0x09, 0x0A), (0x0D, 0x0D), (0x20, 0x7E), (0x85, 0x85), (0xA0, 0xFFFD), (0x10000, 0x10FFFF)]

/-- A text may have this character. -/
def isAllowed (c : Char) : Bool := Text.inRanges c.toNat allowedRanges

namespace Source

/-- The spots of a text that starts at some place. -/
def startingAt (line column : Nat) : Text → Source
  | [] => []
  | c :: rest =>
    ⟨c, line, column⟩ :: if isBreak c then startingAt (line + 1) 0 rest
      else startingAt line (column + 1) rest

/-- The spots of a text. A byte order mark at its start is no part of it. -/
def ofText : Text → Source
  | '\uFEFF' :: rest => startingAt 0 0 rest
  | t => startingAt 0 0 t

/-- No word goes on here. -/
def atWordEnd (rest : Source) : Bool := rest.head?.all (isWhite ·.char)

/-- The source after blanks, line breaks and comments. Tabs are no blanks. -/
def skipFrom (inComment : Bool) : Source → Source
  | [] => []
  | s :: rest =>
    if isBreak s.char then skipFrom false rest
    else if inComment || s.char = ' ' then skipFrom inComment rest
    else if s.char = '#' then skipFrom true rest
    else s :: rest

/-- The source at its next word. -/
def skip (rest : Source) : Source := skipFrom false rest

end Source

/-- The marks between documents. -/
inductive Mark where
  /-- Three hyphens, where a document starts. -/
  | start
  /-- Three points, where a document stops. -/
  | stop
deriving DecidableEq, Repr

/-- The mark at the start of a line, and the source after it. -/
def mark? : Source → Option (Mark × Source)
  | a :: b :: c :: after =>
    if a.column = 0 && Source.atWordEnd after then
      match a.char, b.char, c.char with
      | '-', '-', '-' => some (.start, after)
      | '.', '.', '.' => some (.stop, after)
      | _, _, _ => none
    else none
  | _ => none

/-- The source up to the first mark, and the mark with the source after it. -/
def cutAtMark : Source → Source × Option (Mark × Source)
  | [] => ([], none)
  | s :: rest =>
    match mark? (s :: rest) with
    | some found => ([], some found)
    | none => (s :: (cutAtMark rest).1, (cutAtMark rest).2)

end Layering.Yaml
