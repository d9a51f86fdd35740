import Layering.Text.Printable

/-!
# Quoted text

A text as a message shows it: in quotes, with everything that cannot be seen written out.
-/

namespace Layering.Text

/-- The last digits of a number in hexadecimal. -/
def hexDigits (count n : Nat) : Text :=
  ((List.range count).reverse.map fun k => Nat.toDigits 16 (n / Nat.pow 16 k % 16)).flatten

/-- The form of a character between quotes of one kind. -/
def quotedChar (quote c : Char) : Text :=
  if c = quote || c = '\\' then ['\\', c]
  else if c = '\n' then ['\\', 'n']
  else if c = '\r' then ['\\', 'r']
  else if c = '\t' then ['\\', 't']
  else if isPrintable c then [c]
  else if c.toNat < 0x100 then '\\' :: 'x' :: hexDigits 2 c.toNat
  else if c.toNat < 0x10000 then '\\' :: 'u' :: hexDigits 4 c.toNat
  else '\\' :: 'U' :: hexDigits 8 c.toNat

/-- A text in single quotes, or in double quotes if it holds single quotes only. -/
def quoted (t : Text) : Text :=
  let quote := if t.contains '\'' && !t.contains '"' then '"' else '\''
  quote :: t.flatMap (quotedChar quote) ++ [quote]

end Layering.Text
