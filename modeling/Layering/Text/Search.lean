import Layering.Text.Letters

/-!
# Searching text

Words in any case, words of their own, and the lines at whose start something is found.
-/

namespace Layering.Text

/-- Whether a character is a form of the small letter `small`, whatever its case. -/
def isFormOf (small c : Char) : Bool :=
  c = small || c = small.toUpper || (small = 's' && c = 'ſ')
    || (small = 'i' && (c = 'İ' || c = 'ı'))

/-- Takes a word in small letters off the front of a text in any case. -/
def dropAnyCase? : Text → Text → Option Text
  | [], t => some t
  | _ :: _, [] => none
  | small :: word, c :: t => if isFormOf small c then dropAnyCase? word t else none

/-- The blanks at the front of a text are dropped; there must be some. -/
def dropBlanks? (t : Text) : Option Text :=
  if t.head?.any isBlank then some (t.dropWhile isBlank) else none

/-- The first of the ends of a text where `find` finds something. -/
def firstSuffix? {α : Type} (find : Text → Option α) : Text → Option α
  | [] => find []
  | c :: rest => (find (c :: rest)).or (firstSuffix? find rest)

/-- A word starts or ends between two neighbours; at either end of a text there is no neighbour. -/
def isWordBoundary (before after : Option Char) : Bool :=
  before.any isWordChar ≠ after.any isWordChar

/-- Whether a name occurs in a text between word boundaries; `before` stands before the text. -/
def occursAsWord (name : Text) (before : Option Char) : Text → Bool
  | [] => name = [] && isWordBoundary before none
  | c :: rest =>
    (name.isPrefixOf (c :: rest) && isWordBoundary before (some c)
      && isWordBoundary (name.getLast?.or before) ((c :: rest).drop name.length).head?)
    || occursAsWord name (some c) rest

/-- The first line at whose start `find` finds something: the text before it, and what was found. -/
def atFirstLine? {α : Type} (find : Text → Option α) (atStart : Bool) : Text → Option (Text × α)
  | [] => if atStart then (find []).map ([], ·) else none
  | c :: rest =>
    match if atStart then find (c :: rest) else none with
    | some found => some ([], found)
    | none => (atFirstLine? find (c = '\n') rest).map fun (before, found) => (c :: before, found)

/-- The last line at whose start `find` finds something: the text before it, and what was found. -/
def atLastLine? {α : Type} (find : Text → Option α) (atStart : Bool) : Text → Option (Text × α)
  | [] => if atStart then (find []).map ([], ·) else none
  | c :: rest =>
    match atLastLine? find (c = '\n') rest with
    | some (before, found) => some (c :: before, found)
    | none => if atStart then (find (c :: rest)).map ([], ·) else none

end Layering.Text
