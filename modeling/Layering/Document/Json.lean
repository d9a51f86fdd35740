import Layering.Document

/-!
# JSON

The written form of a document: two spaces for every level, one line for every item, and no
character outside ASCII.
-/

namespace Layering.Json

/-- Four hexadecimal digits. -/
def hex4 (n : Nat) : Text :=
  let digit (k : Nat) : Char := (Nat.toDigits 16 (n / Nat.pow 16 k % 16)).headD '0'
  [digit 3, digit 2, digit 1, digit 0]

/-- An escape with four hexadecimal digits. -/
def escape (n : Nat) : Text := '\\' :: 'u' :: hex4 n

/-- The form of a character in quotes. What lies beyond the first plane becomes two halves. -/
def quotedChar (c : Char) : Text :=
  if c = '"' then ['\\', '"']
  else if c = '\\' then ['\\', '\\']
  else if c = '\n' then ['\\', 'n']
  else if c = '\r' then ['\\', 'r']
  else if c = '\t' then ['\\', 't']
  else if c = '\x0C' then ['\\', 'f']
  else if c = '\x08' then ['\\', 'b']
  else if 0x20 ≤ c.toNat && c.toNat ≤ 0x7E then [c]
  else if c.toNat < 0x10000 then escape c.toNat
  else
    let rest := c.toNat - 0x10000
    escape (0xD800 + rest / 0x400) ++ escape (0xDC00 + rest % 0x400)

/-- A text in quotes. -/
def quoted (t : Text) : Text := '"' :: t.flatMap quotedChar ++ ['"']

/-- A number of double precision. -/
def number (x : Binary64) : Text :=
  if x.isNotANumber then "NaN"
  else if x.isSpecial then (if x.isNegative then "-Infinity" else "Infinity")
  else x.text

/-- A scalar without quotes. -/
def scalarText : Scalar → Text
  | .null => "null"
  | .bool true => "true"
  | .bool false => "false"
  | .int n => Text.ofInt n
  | .float x => number x
  | .text t => t

/-- A scalar as a value. -/
def scalar : Scalar → Text
  | .text t => quoted t
  | s => scalarText s

/-- The start of a line at some level. -/
def newLine (level : Nat) : Text := '\n' :: List.replicate (2 * level) ' '

mutual

/-- A document as a value at some level. -/
def value (level : Nat) : Document → Text
  | .scalar s => scalar s
  | .list [] => ['[', ']']
  | .list (item :: rest) =>
    '[' :: newLine (level + 1) ++ value (level + 1) item ++ moreItems (level + 1) rest
      ++ newLine level ++ [']']
  | .map [] => ['\x7b', '\x7d']
  | .map ((key, item) :: rest) =>
    '\x7b' :: newLine (level + 1) ++ quoted (scalarText key) ++ ':' :: ' ' :: value (level + 1) item
      ++ moreEntries (level + 1) rest ++ newLine level ++ ['\x7d']

/-- The items of a list after the first. -/
def moreItems (level : Nat) : List Document → Text
  | [] => []
  | item :: rest => ',' :: newLine level ++ value level item ++ moreItems level rest

/-- The entries of a map after the first. -/
def moreEntries (level : Nat) : List (Scalar × Document) → Text
  | [] => []
  | (key, item) :: rest =>
    ',' :: newLine level ++ quoted (scalarText key) ++ ':' :: ' ' :: value level item
      ++ moreEntries level rest

end

/-- A document on lines of its own. -/
def render (d : Document) : Text := value 0 d ++ ['\n']

end Layering.Json
