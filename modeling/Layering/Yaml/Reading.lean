import Layering.Yaml.Word

/-!
# Reading of YAML

Documents of nested maps and lists, in blocks by indentation or in brackets. Later values of a key
take the place of earlier ones. Anchors, tags and the other means of the format are not understood.

Every function takes a number that bounds the depth and the length of what is read; a number that
grows with the text is always enough.
-/

namespace Layering.Yaml

/-- Nothing more stands in a source but blanks and comments. -/
def Source.isDone (rest : Source) : Bool := rest.skip.isEmpty

/-- The source starts with this character. -/
def Source.startsWith (c : Char) (rest : Source) : Bool := rest.head?.any (·.char = c)

/-- The source at the word after its first character. -/
def Source.next (rest : Source) : Source := Source.skip rest.tail

mutual

/-- The value in brackets, or the scalar, at the front of a source. -/
def flow : Nat → Source → Option (Document × Source)
  | 0, _ => none
  | n + 1, rest =>
    if rest.startsWith '[' then flowList n [] rest.next
    else if rest.startsWith '{' then flowMap n [] rest.next
    else do
      let w ← word? true 0 rest
      some (.scalar (← w.scalar?), w.rest)

/-- The value after a colon in brackets, which may be left out. -/
def flowValue : Nat → Source → Option (Document × Source)
  | 0, _ => none
  | n + 1, rest =>
    if rest.startsWith ',' || rest.startsWith ']' || rest.startsWith '}' then some (.null, rest)
    else flow n rest

/-- The entry of a map in brackets at the front of a source, if there is a colon. -/
def flowPair : Nat → Source → Option ((Scalar × Document) × Source)
  | 0, _ => none
  | n + 1, rest => do
    let w ← word? true 0 rest
    let after ← w.afterColon? true rest
    let key ← w.scalar?
    let (value, rest) ← flowValue n after.skip
    some ((key, value), rest)

/-- The rest of a list in brackets. An entry of a map is a map of its own. -/
def flowList : Nat → List Document → Source → Option (Document × Source)
  | 0, _, _ => none
  | n + 1, items, rest =>
    if rest.startsWith ']' then some (.list items, rest.tail)
    else do
      let (item, rest) ← match flowPair n rest with
        | some ((key, value), rest) => some (Document.map [(key, value)], rest)
        | none => flow n rest
      let items := items ++ [item]
      let rest := rest.skip
      if rest.startsWith ',' then flowList n items rest.next
      else if rest.startsWith ']' then some (.list items, rest.tail)
      else none

/-- The rest of a map in brackets. A key without a colon has no value. -/
def flowMap : Nat → List (Scalar × Document) → Source → Option (Document × Source)
  | 0, _, _ => none
  | n + 1, entries, rest =>
    if rest.startsWith '}' then some (.map entries, rest.tail)
    else do
      let ((key, value), rest) ← match flowPair n rest with
        | some found => some found
        | none => match flow n rest with
          | some (.scalar key, rest) => some ((key, Document.null), rest)
          | _ => none
      let entries := Document.insert key value entries
      let rest := rest.skip
      if rest.startsWith ',' then flowMap n entries rest.next
      else if rest.startsWith '}' then some (.map entries, rest.tail)
      else none

end

/-- A hyphen that starts an item of a list. -/
def Source.startsItem : Source → Bool
  | s :: rest => s.char = '-' && Source.atWordEnd rest
  | [] => false

/-- The column of the next word. -/
def Source.column? (rest : Source) : Option Nat := rest.head?.map (·.column)

/-- The line of the next word. -/
def Source.line? (rest : Source) : Option Nat := rest.head?.map (·.line)

mutual

/-- The value at the front of a source, if it is indented enough, and else null. A block may start
only at the front of a line or of an item. -/
def block : Nat → (least : Nat) → (mayStart : Bool) → Source → Option (Document × Source)
  | 0, _, _, _ => none
  | n + 1, least, mayStart, rest =>
    match rest with
    | [] => some (.null, [])
    | s :: _ =>
      if s.column < least then some (.null, rest)
      else if rest.startsItem then
        if mayStart then blockList n s.column [] rest else none
      else if s.char = '[' || s.char = '{' then flow n rest
      else do
        let w ← word? false least rest
        match w.afterColon? false rest with
        | none => some (.scalar (← w.scalar?), w.rest)
        | some after =>
          if mayStart then blockMap n s.column [] (← w.scalar?) s.line after else none

/-- The rest of a list in a block, whose hyphens stand in one column. -/
def blockList : Nat → (column : Nat) → List Document → Source → Option (Document × Source)
  | 0, _, _, _ => none
  | n + 1, column, items, rest =>
    if rest.startsItem && rest.column? = some column then do
      let (item, rest) ← block n (column + 1) true rest.next
      blockList n column (items ++ [item]) rest.skip
    else some (.list items, rest)

/-- The rest of a map in a block, whose keys stand in one column, after the colon of a key on some
line. The hyphens of a list may stand in the column of its key. -/
def blockMap : Nat → (column : Nat) → List (Scalar × Document) → (key : Scalar) → (line : Nat) →
    Source → Option (Document × Source)
  | 0, _, _, _, _, _ => none
  | n + 1, column, entries, key, line, rest => do
    let rest := rest.skip
    let isBelow := rest.line? ≠ some line
    let (value, rest) ←
      if isBelow && rest.startsItem && rest.column? = some column then blockList n column [] rest
      else block n (column + 1) isBelow rest
    let entries := Document.insert key value entries
    let rest := rest.skip
    if rest.column? = some column then
      let w ← word? false (column + 1) rest
      let after ← w.afterColon? false rest
      blockMap n column entries (← w.scalar?) (rest.line?.getD 0) after
    else some (.map entries, rest)

end

/-- The value that a source holds, and nothing else. -/
def whole? (mayStart : Bool → Bool) (body : Source) : Option Document := do
  let start := body.skip
  let onFirstLine : Bool := start.line? = body.line?
  let (d, rest) ← block (2 * body.length + 3) 0 (mayStart onFirstLine) start
  if rest.isDone then some d else none

/-- The document up to a mark; nothing may follow that. -/
def upToMark? (mayStart : Bool → Bool) (body : Source) (after : Option (Mark × Source)) :
    Option Document :=
  match after with
  | none => whole? mayStart body
  | some (.start, _) => none
  | some (.stop, rest) => if rest.isDone then whole? mayStart body else none

/-- Reads a text with one document. On the line of a mark, no block may start. -/
def read? (t : Text) : Option Document :=
  if t.all isAllowed then
    match cutAtMark (Source.ofText t) with
    | (before, some (.start, after)) =>
      if before.isDone then
        let (body, rest) := cutAtMark after
        upToMark? (!·) body rest
      else none
    | (body, after) =>
      if body.isDone && after.isSome then none else upToMark? (fun _ => true) body after
  else none

end Layering.Yaml
