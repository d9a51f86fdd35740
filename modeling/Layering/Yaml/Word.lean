import Layering.Yaml.Plain
import Layering.Yaml.Source

/-!
# Scalars in a source

A scalar is plain or stands in quotes. It may go on over several lines; the breaks between these are
folded into spaces.
-/

namespace Layering.Yaml

/-- What lies between two words of a scalar. -/
inductive Gap where
  | none
  | blanks (t : Text)
  /-- A line break, and those after it. -/
  | breaks (first : Char) (more : Text)
  /-- A line break that is taken back, and the breaks after it. -/
  | joined (more : Text)

namespace Gap

/-- One form for most line breaks. -/
def normal (c : Char) : Char := if c = '\x85' then '\n' else c

/-- The gap after another blank. -/
def addBlank (c : Char) : Gap → Gap
  | .none => .blanks [c]
  | .blanks t => .blanks (t ++ [c])
  | g => g

/-- The gap after another line break. -/
def addBreak (c : Char) : Gap → Gap
  | .none | .blanks _ => .breaks (normal c) []
  | .breaks first more => .breaks first (more ++ [normal c])
  | .joined more => .joined (more ++ [normal c])

/-- What a gap stands for. A single line break becomes a space; of several, the first is dropped. -/
def text : Gap → Text
  | .none => []
  | .blanks t => t
  | .breaks '\n' [] => [' ']
  | .breaks '\n' more => more
  | .breaks first more => first :: more
  | .joined more => more

/-- There is something between the words. -/
def isOpen : Gap → Bool
  | .none => false
  | _ => true

end Gap

/-- Puts text before what was read. -/
def prepend (t : Text) : Text × Source → Text × Source := fun (more, rest) => (t ++ more, rest)

/-- The rest of a scalar in single quotes. A quote in it is written twice. -/
def single (gap : Gap) : Source → Option (Text × Source)
  | [] => none
  | s :: rest =>
    if isBreak s.char then single (gap.addBreak s.char) rest
    else if isWhite s.char then single (gap.addBlank s.char) rest
    else if s.char ≠ '\'' then (single .none rest).map (prepend (gap.text ++ [s.char]))
    else match rest with
      | q :: more =>
        if q.char = '\'' then (single .none more).map (prepend (gap.text ++ ['\'']))
        else some (gap.text, rest)
      | [] => some (gap.text, [])

/-- The characters that have an escape of their own. -/
def escapes : List (Char × Char) :=
  [('0', '\x00'), ('a', '\x07'), ('b', '\x08'), ('t', '\t'), ('\t', '\t'), ('n', '\n'),
   ('v', '\x0B'), ('f', '\x0C'), ('r', '\r'), ('e', '\x1B'), (' ', ' '), ('"', '"'), ('\\', '\\'),
   ('/', '/'), ('N', '\x85'), ('_', '\xA0'), ('L', '\u2028'), ('P', '\u2029')]

/-- The number of digits after an escape that gives a number. -/
def codeLength? : Char → Option Nat
  | 'x' => some 2
  | 'u' => some 4
  | 'U' => some 8
  | _ => none

/-- The character of a number, by its digits. -/
def codeChar? (length : Nat) (digits : Text) : Option Char :=
  let n := number 16 digits
  if digits.length = length && digits.all (fun c => c.isAlphanum && digitValue c < 16)
      && n.isValidChar then
    some (Char.ofNat n)
  else none

/-- The rest of a scalar in double quotes. -/
def double (gap : Gap) : Source → Option (Text × Source)
  | [] => none
  | s :: rest =>
    if isBreak s.char then double (gap.addBreak s.char) rest
    else if isWhite s.char then double (gap.addBlank s.char) rest
    else if s.char = '"' then some (gap.text, rest)
    else if s.char ≠ '\\' then (double .none rest).map (prepend (gap.text ++ [s.char]))
    else match rest with
      | [] => none
      | e :: more =>
        if isBreak e.char then (double (.joined []) more).map (prepend gap.text)
        else match Entries.get? e.char escapes, codeLength? e.char with
          | some c, _ => (double .none more).map (prepend (gap.text ++ [c]))
          | none, some length => do
            let c ← codeChar? length ((more.take length).map (·.char))
            (double .none (more.drop length)).map (prepend (gap.text ++ [c]))
          | none, none => none
termination_by r => r.length
decreasing_by all_goals simp_wf <;> omega

/-- The characters that end an item of a list or a map in brackets. -/
def isFlowMark (c : Char) : Bool := c = ',' || c = '[' || c = ']' || c = '{' || c = '}'

/-- A plain scalar ends before this character. -/
def stopsPlain (inFlow : Bool) (s : Spot) (rest : Source) : Bool :=
  isWhite s.char || (inFlow && (s.char = '?' || isFlowMark s.char))
    || (s.char = ':' && (Source.atWordEnd rest || (inFlow && rest.head?.any (isFlowMark ·.char))))

/-- The rest of a plain scalar. In a block it goes on only on lines that are indented enough.
`last` is the source after the last word. -/
def plain (inFlow : Bool) (least : Nat) (gap : Gap) (last : Source) : Source → Text × Source
  | [] => ([], last)
  | s :: rest =>
    if isBreak s.char then plain inFlow least (gap.addBreak s.char) last rest
    else if s.char = ' ' then plain inFlow least (gap.addBlank s.char) last rest
    else if stopsPlain inFlow s rest
        || (gap.isOpen && (s.char = '#' || (!inFlow && s.column < least))) then ([], last)
    else prepend (gap.text ++ [s.char]) (plain inFlow least .none rest rest)

/-- The characters that mean something where a scalar may start. -/
def indicators : Text := "-?:,[]{}#&*!|>'\"%@`"

/-- A plain scalar may start here. -/
def startsPlain (inFlow : Bool) (s : Spot) (rest : Source) : Bool :=
  if isWhite s.char then false
  else if indicators.contains s.char then
    !Source.atWordEnd rest && (s.char = '-' || (!inFlow && (s.char = '?' || s.char = ':')))
  else true

/-- A scalar as it was read. -/
structure Word where
  text : Text
  isPlain : Bool
  /-- The source after the scalar. -/
  rest : Source

/-- The scalar at the front of a source. -/
def word? (inFlow : Bool) (least : Nat) : Source → Option Word
  | [] => none
  | s :: rest =>
    if s.char = '\'' then (single .none rest).map fun (t, rest) => ⟨t, false, rest⟩
    else if s.char = '"' then (double .none rest).map fun (t, rest) => ⟨t, false, rest⟩
    else if startsPlain inFlow s rest then
      let (t, rest) := plain inFlow least .none (s :: rest) (s :: rest)
      some ⟨t, true, rest⟩
    else none

/-- What a scalar means. -/
def Word.scalar? (w : Word) : Option Scalar :=
  if w.isPlain then plain? w.text else some (.text w.text)

/-- The longest way from the start of a key to its colon. -/
def maxKeyLength : Nat := 1024

/-- The source after the colon, if the scalar is a key. A key stands on one line with its colon. -/
def Word.afterColon? (w : Word) (inFlow : Bool) (start : Source) : Option Source :=
  match start, w.rest.dropWhile (·.char = ' ') with
  | s :: _, colon :: rest =>
    if colon.char = ':' && colon.line = s.line && (inFlow || Source.atWordEnd rest)
        && start.length - (rest.length + 1) ≤ maxKeyLength then some rest
    else none
  | _, _ => none

end Layering.Yaml
