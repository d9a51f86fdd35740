import Layering.Text.Basic

/-!
# Java tokens

Names and keywords are one kind of token. Literals keep their quotes, so that nothing inside them
can be taken for code.
-/

namespace Layering.Java

/-- A place in a source: lines and columns count from one. -/
structure Position where
  line : Nat := 1
  column : Nat := 1
deriving DecidableEq, Repr

/-- The place after one more character. -/
def Position.next (p : Position) (c : Char) : Position :=
  if c = '\n' then ⟨p.line + 1, 1⟩ else ⟨p.line, p.column + 1⟩

/-- The place after some more text. -/
def Position.after (p : Position) (t : Text) : Position := t.foldl Position.next p

@[simp] theorem Position.after_nil (p : Position) : p.after [] = p := rfl

@[simp] theorem Position.after_cons (p : Position) (c : Char) (t : Text) :
    p.after (c :: t) = (p.next c).after t := rfl

@[simp] theorem Position.after_append (p : Position) (t u : Text) :
    p.after (t ++ u) = (p.after t).after u := by
  simp [Position.after]

/-- The lexical class of a token. -/
inductive Token.Kind where
  /-- A name or a keyword. -/
  | identifier
  /-- A string literal or a text block. -/
  | string
  /-- A character literal. -/
  | character
  /-- A numeric literal. -/
  | number
  /-- A bracket, a separator or an operator. -/
  | symbol
deriving DecidableEq, Repr

/-- A token with its source text and the place of its first character. -/
structure Token where
  kind : Token.Kind
  text : Text
  position : Position
deriving DecidableEq, Repr

namespace Token

/-- The token is the given symbol. -/
def isSymbol (t : Token) (text : Text) : Bool := t.kind = .symbol && t.text = text

/-- The token is the given name or keyword. -/
def isWord (t : Token) (text : Text) : Bool := t.kind = .identifier && t.text = text

/-- The token is a name or a keyword. -/
def isIdentifier (t : Token) : Bool := t.kind = .identifier

/-- The token is one of the given names or keywords. -/
def isOneOf (t : Token) (words : List Text) : Bool := t.kind = .identifier && words.contains t.text

end Token

end Layering.Java
