import Layering.Text.Basic

/-!
# Shortest decimals

A binary number of double precision is written with the fewest decimal digits that still determine
it. Everything is computed with whole numbers.
-/

namespace Layering

/-- A number of double precision, by its bits. -/
structure Binary64 where
  bits : UInt64
deriving DecidableEq, Repr

namespace Binary64

/-- The number next to `mantissa * 10 ^ exponent`. -/
def ofDecimal (negative : Bool) (mantissa : Nat) (exponent : Int) : Binary64 :=
  let magnitude := Float.ofScientific mantissa (exponent < 0) exponent.natAbs
  ⟨(if negative then -magnitude else magnitude).toBits⟩

/-- The sign bit is set. -/
def isNegative (x : Binary64) : Bool := x.bits.toNat ≥ Nat.pow 2 63

/-- The exponent bits. -/
def exponentBits (x : Binary64) : Nat := x.bits.toNat / Nat.pow 2 52 % Nat.pow 2 11

/-- The fraction bits. -/
def fractionBits (x : Binary64) : Nat := x.bits.toNat % Nat.pow 2 52

/-- Infinity of the given sign. -/
def infinity (negative : Bool) : Binary64 :=
  ⟨if negative then 0xFFF0000000000000 else 0x7FF0000000000000⟩

/-- The number that is none. -/
def notANumber : Binary64 := ⟨0x7FF8000000000000⟩

/-- The number is infinite or none. -/
def isSpecial (x : Binary64) : Bool := x.exponentBits = 2047

/-- The number is none. -/
def isNotANumber (x : Binary64) : Bool := x.isSpecial && x.fractionBits ≠ 0

/-- The number is zero, of either sign. -/
def isZero (x : Binary64) : Bool := x.exponentBits = 0 && x.fractionBits = 0

/-- The magnitude of a finite number is `significand * 2 ^ scale`. -/
def significand (x : Binary64) : Nat :=
  if x.exponentBits = 0 then x.fractionBits else Nat.pow 2 52 + x.fractionBits

/-- The binary exponent of the magnitude. -/
def scale (x : Binary64) : Int := (max x.exponentBits 1 : Nat) - 1075

/-- The whole number that a finite number equals, if there is one. -/
def toInt? (x : Binary64) : Option Int :=
  if x.isSpecial then none
  else
    let magnitude : Option Nat :=
      if 0 ≤ x.scale then some (x.significand * Nat.pow 2 x.scale.toNat)
      else
        let divisor := Nat.pow 2 (-x.scale).toNat
        if x.significand % divisor = 0 then some (x.significand / divisor) else none
    magnitude.map fun n => if x.isNegative then -(n : Int) else n

/-- A multiple of a power of ten: `digits * 10 ^ exponent`. -/
structure Decimal where
  digits : Nat
  exponent : Int
deriving DecidableEq, Repr

/-- The multiple of `10 ^ exponent` that is nearest to the magnitude, if it rounds to it. Quarters
of the last binary place are counted, so that the bounds of the rounding interval are whole. -/
def onGrid? (x : Binary64) (exponent : Int) : Option Decimal :=
  let m := x.significand
  let quarter := x.scale - 2
  -- a decimal `d` stands for `d * unit`, a count of quarters `n` for `n * weight`
  let unit := Nat.pow 10 exponent.toNat * Nat.pow 2 (-quarter).toNat
  let weight := Nat.pow 10 (-exponent).toNat * Nat.pow 2 quarter.toNat
  let value := 4 * m * weight
  let low := (if m = Nat.pow 2 52 && x.exponentBits > 1 then 4 * m - 1 else 4 * m - 2) * weight
  let high := (4 * m + 2) * weight
  let inside (d : Nat) : Bool :=
    if m % 2 = 0 then low ≤ d * unit && d * unit ≤ high else low < d * unit && d * unit < high
  let below := value / unit
  let above := below + 1
  let nearer := value - below * unit < above * unit - value
    || (value - below * unit = above * unit - value && below % 2 = 0)
  if inside below && (nearer || !inside above) then some ⟨below, exponent⟩
  else if inside above then some ⟨above, exponent⟩
  else none

/-- The decimal with the fewest digits that rounds to the magnitude of a finite number: that on the
coarsest grid. -/
def shortest (x : Binary64) : Decimal :=
  ((List.range 650).findSome? fun (i : Nat) => x.onGrid? (310 - (i : Int))).getD ⟨0, 0⟩

/-- The text of a magnitude that is not zero. The point is written out where it stands at most four
places to the left of the digits or sixteen to the right of the first; elsewhere there is a decimal
exponent of at least two digits. -/
def magnitudeText (d : Decimal) : Text :=
  let digits := Text.ofNat d.digits
  let point := digits.length + d.exponent
  if -4 < point && point ≤ 0 then
    ['0', '.'] ++ List.replicate (-point).toNat '0' ++ digits
  else if 0 < point && point ≤ 16 then
    if digits.length ≤ point then
      digits ++ List.replicate (point - digits.length).toNat '0' ++ ['.', '0']
    else digits.take point.toNat ++ '.' :: digits.drop point.toNat
  else
    let exponent := point - 1
    let shown := Text.ofNat exponent.natAbs
    digits.take 1 ++ (if digits.length > 1 then '.' :: digits.drop 1 else [])
      ++ 'e' :: (if exponent < 0 then '-' else '+')
      :: (if shown.length < 2 then '0' :: shown else shown)

/-- The text of a number. -/
def text (x : Binary64) : Text :=
  let sign : Text := if x.isNegative then ['-'] else []
  if x.isNotANumber then "nan"
  else if x.isSpecial then sign ++ "inf"
  else if x.isZero then sign ++ "0.0"
  else sign ++ magnitudeText x.shortest

end Binary64

end Layering
