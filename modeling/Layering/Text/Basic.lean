/-!
# Text

Text is a list of characters. Lengths, positions and orders all count characters, and functions on
text recurse on the list.
-/

namespace Layering

/-- A text, character by character. -/
abbrev Text := List Char

/-- A literal may stand where a text is expected. -/
instance : Coe String Text := ⟨String.toList⟩

namespace Text

/-- Whether `n` lies in one of the ranges, which are closed, ascending and apart. -/
def inRanges (n : Nat) : List (Nat × Nat) → Bool
  | [] => false
  | (low, high) :: rest => if n < low then false else decide (n ≤ high) || inRanges n rest

/-- The blank characters: Unicode white space and the four information separators. -/
def blankRanges : List (Nat × Nat) :=
  [(0x09, 0x0D), (0x1C, 0x20), (0x85, 0x85), (0xA0, 0xA0), (0x1680, 0x1680), (0x2000, 0x200A),
   (0x2028, 0x2029), (0x202F, 0x202F), (0x205F, 0x205F), (0x3000, 0x3000)]

/-- White space between words. -/
def isBlank (c : Char) : Bool := inRanges c.toNat blankRanges

/-- Every character that the core library calls white space is blank. -/
theorem isBlank_of_isWhitespace {c : Char} (h : c.isWhitespace = true) : isBlank c = true := by
  simp [Char.isWhitespace] at h
  rcases h with ((rfl | rfl) | rfl) | rfl <;> decide

/-- The decimal digits of a number. -/
def ofNat (n : Nat) : Text := Nat.toDigits 10 n

/-- A number with its sign, which only negative numbers carry. -/
def ofInt : Int → Text
  | .ofNat n => ofNat n
  | .negSucc n => '-' :: ofNat (n + 1)

/-- Texts are ordered by the code points of their characters. -/
def inOrder (s t : Text) : Bool := (compare s t).isLE

/-- The text without the blanks at its end. -/
def trimRight (t : Text) : Text := (t.reverse.dropWhile isBlank).reverse

/-- The text without the blanks at either end. -/
def trim (t : Text) : Text := trimRight (t.dropWhile isBlank)

/-- The maximal pieces in which no character satisfies `p`, the empty ones included. -/
def pieces (p : Char → Bool) : Text → List Text
  | [] => [[]]
  | c :: rest =>
    if p c then [] :: pieces p rest
    else match pieces p rest with
      | [] => [[c]]
      | piece :: more => (c :: piece) :: more

/-- The pieces between occurrences of a separating character. -/
def splitOn (separator : Char) (t : Text) : List Text := pieces (· == separator) t

/-- The words of a text: its maximal pieces without blanks. -/
def words (t : Text) : List Text := (pieces isBlank t).filter (· ≠ [])

/-- The words of a text with one space between them. -/
def singleSpaced (t : Text) : Text := List.intercalate [' '] (words t)

/-- The rest of a text that starts with `start`. -/
def dropStart? (start t : Text) : Option Text :=
  if start.isPrefixOf t then some (t.drop start.length) else none

theorem dropStart?_eq_some {start t rest : Text} :
    dropStart? start t = some rest ↔ t = start ++ rest := by
  constructor
  · intro h
    simp only [dropStart?] at h
    split at h
    · rename_i hp
      obtain ⟨tail, ht⟩ := List.isPrefixOf_iff_prefix.mp hp
      cases h
      simp [← ht]
    · contradiction
  · rintro rfl
    simp [dropStart?]

/-- The text before the first occurrence of the pattern, and the text after it. -/
def cut? (pattern : Text) : Text → Option (Text × Text)
  | [] => if pattern = [] then some ([], []) else none
  | c :: rest =>
    if pattern.isPrefixOf (c :: rest) then some ([], (c :: rest).drop pattern.length)
    else (cut? pattern rest).map fun (before, after) => (c :: before, after)

/-- The text after the last occurrence of a character, or all of it. -/
def afterLast (separator : Char) (t : Text) : Text :=
  (t.reverse.takeWhile (· ≠ separator)).reverse

/-- The text before the last occurrence of a character, if there is one. -/
def beforeLast? (separator : Char) (t : Text) : Option Text :=
  match t.reverse.dropWhile (· ≠ separator) with
  | [] => none
  | _ :: before => some before.reverse

/-- Nothing is lost between the two parts of a cut. -/
theorem cut?_eq_some {pattern t before after : Text} (h : cut? pattern t = some (before, after)) :
    t = before ++ pattern ++ after := by
  induction t generalizing before after with
  | nil =>
    simp only [cut?] at h
    split at h
    · simp_all
    · contradiction
  | cons c rest ih =>
    simp only [cut?] at h
    split at h
    · rename_i hp
      obtain ⟨tail, ht⟩ := List.isPrefixOf_iff_prefix.mp hp
      cases h
      rw [← ht]
      simp
    · obtain ⟨⟨b, a⟩, hb, he⟩ := Option.map_eq_some_iff.mp h
      cases he
      simp [ih hb]

end Text

end Layering
