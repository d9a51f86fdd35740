import Layering.Document

/-!
# Plain scalars

A scalar without quotes may be null, a truth value or a number; else it is a text.
-/

namespace Layering.Yaml

/-- The spellings of null. -/
def nullForms : List Text := ["", "~", "null", "Null", "NULL"]

/-- The spellings of truth. -/
def trueForms : List Text :=
  ["yes", "Yes", "YES", "true", "True", "TRUE", "on", "On", "ON"]

/-- The spellings of falsehood. -/
def falseForms : List Text :=
  ["no", "No", "NO", "false", "False", "FALSE", "off", "Off", "OFF"]

/-- The sign of a number and what follows. A number is negative after a hyphen. -/
def splitSign : Text → Bool × Text
  | '-' :: rest => (true, rest)
  | '+' :: rest => (false, rest)
  | t => (false, t)

/-- The value of a digit. -/
def digitValue (c : Char) : Nat :=
  if c.isDigit then c.toNat - '0'.toNat else c.toLower.toNat - 'a'.toNat + 10

/-- The number with some digits. Underscores between them mean nothing. -/
def number (base : Nat) (digits : Text) : Nat :=
  (digits.filter (· ≠ '_')).foldl (fun n c => base * n + digitValue c) 0

/-- Digits of a base, or underscores. -/
def areDigits (base : Nat) (t : Text) : Bool :=
  t ≠ [] && t.all fun c => c = '_' || (c.isAlphanum && digitValue c < base)

/-- A whole number without its sign: decimal, or with the mark of another base. -/
def natural? : Text → Option Nat
  | ['0'] => some 0
  | '0' :: 'b' :: digits => if areDigits 2 digits then some (number 2 digits) else none
  | '0' :: 'x' :: digits => if areDigits 16 digits then some (number 16 digits) else none
  | '0' :: digits => if areDigits 8 digits then some (number 8 digits) else none
  | '_' :: _ => none
  | digits => if areDigits 10 digits then some (number 10 digits) else none

/-- The exponent at the end of a number, which has a sign. -/
def exponent? : Text → Option Int
  | [] => some 0
  | e :: sign :: digits =>
    if (e = 'e' || e = 'E') && (sign = '+' || sign = '-')
        && digits ≠ [] && digits.all (·.isDigit) then
      some (if sign = '-' then -(number 10 digits : Int) else number 10 digits)
    else none
  | _ => none

/-- A fraction, which has a point. A number that starts with the point has no sign. -/
def fraction? (t : Text) : Option Binary64 :=
  let (isNegative, body) := splitSign t
  let whole := body.takeWhile fun c => c.isDigit || c = '_'
  match body.drop whole.length with
  | '.' :: rest =>
    let digits := rest.takeWhile fun c => c.isDigit || c = '_'
    let isWritten : Bool := match whole, digits with
      | [], d :: _ => d.isDigit && t = body
      | w :: _, _ => w.isDigit
      | [], [] => false
    if isWritten then
      (exponent? (rest.drop digits.length)).map fun e =>
        .ofDecimal isNegative (number 10 (whole ++ digits))
          (e - (digits.filter (· ≠ '_')).length)
    else none
  | _ => none

/-- A number that is infinite or none. -/
def special? (t : Text) : Option Binary64 :=
  let (isNegative, body) := splitSign t
  if body = ".inf" || body = ".Inf" || body = ".INF" then some (.infinity isNegative)
  else if t = ".nan" || t = ".NaN" || t = ".NAN" then some .notANumber
  else none

/-- What a plain scalar means. Two spellings are reserved. -/
def plain? (t : Text) : Option Scalar :=
  if nullForms.contains t then some .null
  else if trueForms.contains t then some (.bool true)
  else if falseForms.contains t then some (.bool false)
  else if t = "<<" || t = "=" then none
  else
    let (isNegative, body) := splitSign t
    match natural? body, (fraction? t).or (special? t) with
    | some n, _ => some (.int (if isNegative then -n else n))
    | none, some x => some (.float x)
    | none, none => some (.text t)

end Layering.Yaml
