import Layering.Text.Basic

/-!
# UTF-8

Bytes are read one at a time. Inside a character the next byte has to lie between two bounds, which
depend on the first byte for the second one and are the same for all others; the first byte that does
not fit ends the reading.
-/

namespace Layering

/-- The contents of a file. -/
abbrev Bytes := List UInt8

namespace Utf8

/-- Why bytes are no text. -/
inductive Reason where
  /-- No character starts with this byte. -/
  | start
  /-- The byte after these cannot follow them. -/
  | continuation
  /-- The bytes end inside a character. -/
  | truncated
deriving DecidableEq, Repr

/-- Bytes that are no text: the first of them, their place from `start` up to `stop`, and why. -/
structure Fault where
  first : UInt8
  start : Nat
  stop : Nat
  reason : Reason
deriving DecidableEq, Repr

/-- The wording of a reason. -/
def Reason.message : Reason → Text
  | .start => "invalid start byte"
  | .continuation => "invalid continuation byte"
  | .truncated => "unexpected end of data"

/-- Two hexadecimal digits. -/
def hex2 (b : UInt8) : Text :=
  Nat.toDigits 16 (b.toNat / 16) ++ Nat.toDigits 16 (b.toNat % 16)

/-- The message for a fault. -/
def Fault.message (f : Fault) : Text :=
  let place : Text :=
    if f.stop = f.start + 1 then
      "byte 0x" ++ hex2 f.first ++ " in position " ++ Text.ofNat f.start
    else "bytes in position " ++ Text.ofNat f.start ++ "-" ++ Text.ofNat (f.stop - 1)
  "'utf-8' codec can't decode " ++ place ++ ": " ++ f.reason.message

/-- A character of which some bytes have been read. -/
structure Pending where
  first : UInt8
  start : Nat
  /-- The number of bytes to come. -/
  left : Nat
  /-- The bounds of the next byte. -/
  low : Nat
  high : Nat
  value : Nat

/-- What the first byte of a character of several bytes says about it. -/
def pending? (position : Nat) (b : UInt8) : Option Pending :=
  let n := b.toNat
  if 0xC2 ≤ n && n ≤ 0xDF then some ⟨b, position, 1, 0x80, 0xBF, n - 0xC0⟩
  else if 0xE0 ≤ n && n ≤ 0xEF then
    some ⟨b, position, 2, if n = 0xE0 then 0xA0 else 0x80, if n = 0xED then 0x9F else 0xBF, n - 0xE0⟩
  else if 0xF0 ≤ n && n ≤ 0xF4 then
    some ⟨b, position, 3, if n = 0xF0 then 0x90 else 0x80, if n = 0xF4 then 0x8F else 0xBF, n - 0xF0⟩
  else none

/-- Reads bytes that start at `position`, perhaps inside a character. -/
def decodeFrom (position : Nat) : Option Pending → Bytes → Except Fault Text
  | none, [] => .ok []
  | some p, [] => .error ⟨p.first, p.start, position, .truncated⟩
  | none, b :: rest =>
    if b.toNat < 0x80 then
      (decodeFrom (position + 1) none rest).map (Char.ofNat b.toNat :: ·)
    else match pending? position b with
    | some p => decodeFrom (position + 1) (some p) rest
    | none => .error ⟨b, position, position + 1, .start⟩
  | some p, b :: rest =>
    if p.low ≤ b.toNat && b.toNat ≤ p.high then
      let value := p.value * 64 + b.toNat % 64
      if p.left = 1 then (decodeFrom (position + 1) none rest).map (Char.ofNat value :: ·)
      else
        decodeFrom (position + 1) (some ⟨p.first, p.start, p.left - 1, 0x80, 0xBF, value⟩) rest
    else .error ⟨p.first, p.start, position, .continuation⟩

/-- The text that bytes stand for. -/
def decode (bytes : Bytes) : Except Fault Text := decodeFrom 0 none bytes

/-- The bytes of a text. -/
def encode (t : Text) : Bytes := t.flatMap String.utf8EncodeChar

/-- The fault that is reported for bytes that arrive in two parts, of which the second is empty: an
unfinished character at the end is put off until then, and the count starts anew. -/
def Fault.inParts (bytes : Bytes) (f : Fault) : Fault :=
  let tail := bytes.drop f.start
  let isHalf : Bool := match tail with
    | [a, b] => a = 0xED && 0xA0 ≤ b && b ≤ 0xBF
    | _ => false
  if f.reason = .truncated || isHalf then ⟨f.first, 0, f.stop - f.start, f.reason⟩ else f

/-- The text that bytes stand for which arrive in two parts, of which the second is empty. -/
def decodeInParts (bytes : Bytes) : Except Fault Text := (decode bytes).mapError (·.inParts bytes)

end Utf8

/-- Every form of line break becomes one line feed. -/
def Text.unifyBreaks : Text → Text
  | [] => []
  | '\r' :: '\n' :: rest => '\n' :: unifyBreaks rest
  | '\r' :: rest => '\n' :: unifyBreaks rest
  | c :: rest => c :: unifyBreaks rest

end Layering
