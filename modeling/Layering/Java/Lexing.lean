import Layering.Text.Letters
import Layering.Java.SyntaxError

/-!
# Lexing

`front` cuts one piece off a nonempty source: a blank, a comment or a token. The pieces join to the
source again (`front_append`), and `tokenize` cuts until nothing is left.
-/

namespace Layering.Java

/-- The piece that a source starts with, and the rest. -/
structure Front where
  /-- The kind of token, or nothing for a blank or a comment. -/
  kind : Option Token.Kind
  text : Text
  rest : Text

/-- Splits a text after the first end of a block comment. -/
def closeComment : Text → Option (Text × Text)
  | [] => none
  | '*' :: '/' :: rest => some (['*', '/'], rest)
  | c :: rest => (closeComment rest).map fun (text, rest) => (c :: text, rest)

/-- Splits a text after the closing quote. A line break closes nothing, and a backslash shields the
character after it, whatever it is. -/
def closeQuote (quote : Char) : Text → Option (Text × Text)
  | [] => none
  | ['\\'] => none
  | '\\' :: c :: rest => (closeQuote quote rest).map fun (text, rest) => ('\\' :: c :: text, rest)
  | c :: rest =>
    if c = '\n' then none
    else if c = quote then some ([c], rest)
    else (closeQuote quote rest).map fun (text, rest) => (c :: text, rest)

/-- Splits a text after the first three double quotes in a row that no backslash shields. -/
def closeTextBlock : Text → Option (Text × Text)
  | [] => none
  | ['\\'] => none
  | '\\' :: c :: rest => (closeTextBlock rest).map fun (text, rest) => ('\\' :: c :: text, rest)
  | '"' :: '"' :: '"' :: rest => some (['"', '"', '"'], rest)
  | c :: rest => (closeTextBlock rest).map fun (text, rest) => (c :: text, rest)

/-- Splits a text where the number that `previous` belongs to ends. A sign belongs to the number
right after one of the exponent marks. -/
def splitNumber (marks : Text) (previous : Char) : Text → Text × Text
  | [] => ([], [])
  | c :: rest =>
    if Text.isAlphanumeric c || c = '_' || c = '.'
        || ((c = '+' || c = '-') && marks.contains previous)
    then (c :: (splitNumber marks c rest).1, (splitNumber marks c rest).2)
    else ([], c :: rest)

/-- The characters that mark an exponent in a number that starts with `c` and goes on with `rest`:
binary in a hexadecimal number, decimal otherwise. -/
def exponentMarks (c : Char) (rest : Text) : Text :=
  if c = '0' && (rest.head? = some 'x' || rest.head? = some 'X') then ['p', 'P'] else ['e', 'E']

/-- The characters that start a name. -/
def isNameStart (c : Char) : Bool := Text.isLetter c || c = '_' || c = '$'

/-- The characters that a name goes on with. -/
def isNamePart (c : Char) : Bool := Text.isAlphanumeric c || c = '_' || c = '$'

/-- The symbol that a source starts with: three are longer than one character. -/
def splitSymbol : Char → Text → Text × Text
  | '.', '.' :: '.' :: rest => (['.', '.', '.'], rest)
  | '-', '>' :: rest => (['-', '>'], rest)
  | ':', ':' :: rest => ([':', ':'], rest)
  | c, rest => ([c], rest)

/-- A number starts with a digit, or with a point before a digit. -/
def startsNumber (c : Char) (rest : Text) : Bool :=
  Text.isDigit c || (c = '.' && (rest.head?.any Text.isDigit))

private def literal (kind : Token.Kind) (problem : Problem) (opening : Text) :
    Option (Text × Text) → Except Problem Front
  | some (text, rest) => .ok ⟨some kind, opening ++ text, rest⟩
  | none => .error problem

/-- Cuts the first piece off the source `c :: rest`. -/
def front (c : Char) (rest : Text) : Except Problem Front :=
  if Text.isBlank c then .ok ⟨none, c :: rest.takeWhile Text.isBlank, rest.dropWhile Text.isBlank⟩
  else match c, rest with
  | '/', '/' :: rest =>
    .ok ⟨none, '/' :: '/' :: rest.takeWhile (· ≠ '\n'), rest.dropWhile (· ≠ '\n')⟩
  | '/', '*' :: rest =>
    match closeComment rest with
    | some (text, rest) => .ok ⟨none, '/' :: '*' :: text, rest⟩
    | none => .error .unterminatedComment
  | '"', '"' :: '"' :: rest =>
    literal .string .unterminatedTextBlock ['"', '"', '"'] (closeTextBlock rest)
  | '"', rest => literal .string .unterminatedLiteral ['"'] (closeQuote '"' rest)
  | '\'', rest => literal .character .unterminatedLiteral ['\''] (closeQuote '\'' rest)
  | c, rest =>
    if startsNumber c rest then
      let tail := splitNumber (exponentMarks c rest) c rest
      .ok ⟨some .number, c :: tail.1, tail.2⟩
    else if isNameStart c then
      .ok ⟨some .identifier, c :: rest.takeWhile isNamePart, rest.dropWhile isNamePart⟩
    else
      let symbol := splitSymbol c rest
      .ok ⟨some .symbol, symbol.1, symbol.2⟩

theorem closeComment_append {t text rest : Text} (h : closeComment t = some (text, rest)) :
    text ++ rest = t := by
  fun_induction closeComment t generalizing text rest with
  | case1 => simp at h
  | case2 => cases h; rfl
  | case3 c t _ ih =>
    obtain ⟨⟨x, y⟩, hx, he⟩ := Option.map_eq_some_iff.1 h
    cases he
    simp [ih hx]

theorem closeQuote_append {quote : Char} {t text rest : Text}
    (h : closeQuote quote t = some (text, rest)) : text ++ rest = t := by
  fun_induction closeQuote quote t generalizing text rest with
  | case1 => simp at h
  | case2 => simp at h
  | case3 c t ih =>
    obtain ⟨⟨x, y⟩, hx, he⟩ := Option.map_eq_some_iff.1 h
    cases he
    simp [ih hx]
  | case4 => simp at h
  | case5 => cases h; rfl
  | case6 c t _ _ _ _ ih =>
    obtain ⟨⟨x, y⟩, hx, he⟩ := Option.map_eq_some_iff.1 h
    cases he
    simp [ih hx]

theorem closeTextBlock_append {t text rest : Text} (h : closeTextBlock t = some (text, rest)) :
    text ++ rest = t := by
  fun_induction closeTextBlock t generalizing text rest with
  | case1 => simp at h
  | case2 => simp at h
  | case3 c t ih =>
    obtain ⟨⟨x, y⟩, hx, he⟩ := Option.map_eq_some_iff.1 h
    cases he
    simp [ih hx]
  | case4 => cases h; rfl
  | case5 c t _ _ _ ih =>
    obtain ⟨⟨x, y⟩, hx, he⟩ := Option.map_eq_some_iff.1 h
    cases he
    simp [ih hx]

theorem splitNumber_append (marks : Text) (previous : Char) (t : Text) :
    (splitNumber marks previous t).1 ++ (splitNumber marks previous t).2 = t := by
  induction t generalizing previous with
  | nil => rfl
  | cons c t ih => simp only [splitNumber]; split <;> simp [ih]

theorem splitSymbol_append (c : Char) (t : Text) :
    (splitSymbol c t).1 ++ (splitSymbol c t).2 = c :: t := by
  unfold splitSymbol
  split <;> simp

theorem splitSymbol_ne_nil (c : Char) (t : Text) : (splitSymbol c t).1 ≠ [] := by
  unfold splitSymbol
  split <;> simp

private theorem literal_append {kind : Token.Kind} {problem : Problem} {opening : Text}
    {split : Option (Text × Text)} {f : Front} (h : literal kind problem opening split = .ok f) :
    ∃ text rest, split = some (text, rest) ∧ f = ⟨some kind, opening ++ text, rest⟩ := by
  unfold literal at h
  split at h
  · cases h
    exact ⟨_, _, rfl, rfl⟩
  · contradiction

/-- The first piece and the rest join to the source, and the piece is not empty. -/
theorem front_append {c : Char} {rest : Text} {f : Front} (h : front c rest = .ok f) :
    f.text ++ f.rest = c :: rest ∧ f.text ≠ [] := by
  unfold front at h
  split at h
  · cases h; simp
  · split at h
    · cases h; simp
    · split at h
      · rename_i hc; cases h; simp [closeComment_append hc]
      · contradiction
    · obtain ⟨text, rest', hs, rfl⟩ := literal_append h
      simp [closeTextBlock_append hs]
    · obtain ⟨text, rest', hs, rfl⟩ := literal_append h
      simp [closeQuote_append hs]
    · obtain ⟨text, rest', hs, rfl⟩ := literal_append h
      simp [closeQuote_append hs]
    · split at h
      · cases h; simp [splitNumber_append]
      · split at h
        · cases h; simp
        · cases h; simp [splitSymbol_append, splitSymbol_ne_nil]

theorem length_rest_lt {c : Char} {rest : Text} {f : Front} (h : front c rest = .ok f) :
    f.rest.length < (c :: rest).length := by
  obtain ⟨ha, hn⟩ := front_append h
  have := congrArg List.length ha
  have := List.length_pos_iff.mpr hn
  simp only [List.length_append] at *
  omega

/-- The tokens of a source, and the place where the source ends. -/
structure Tokenization where
  tokens : List Token := []
  stop : Position := {}
deriving DecidableEq, Repr

/-- Adds the piece of kind `kind` in front, if it is a token. -/
def Tokenization.push (kind : Option Token.Kind) (text : Text) (position : Position)
    (t : Tokenization) : Tokenization :=
  match kind with
  | some kind => { t with tokens := ⟨kind, text, position⟩ :: t.tokens }
  | none => t

/-- The tokens of a source whose first character stands at `position`. -/
def tokenizeFrom (position : Position) : Text → Except SyntaxError Tokenization
  | [] => .ok ⟨[], position⟩
  | c :: rest =>
    match h : front c rest with
    | .error problem => .error ⟨problem, position⟩
    | .ok f =>
      have := length_rest_lt h
      (tokenizeFrom (position.after f.text) f.rest).map (·.push f.kind f.text position)
termination_by source => source.length
decreasing_by exact this

/-- The tokens of a source. -/
def tokenize (source : Text) : Except SyntaxError Tokenization := tokenizeFrom {} source

end Layering.Java
