import Layering.Java.SyntaxError

/-!
# Headers

What the tokens before a body or a semicolon say: the supertypes of a type, and the name, the
parameters, the return type and the modifiers of a method.
-/

namespace Layering.Java

/-- The texts of some tokens, joined. -/
def spelling (tokens : List Token) : Text := tokens.flatMap (·.text)

/-- The token opens type arguments or a parenthesis. -/
def Token.isOpening (t : Token) : Bool := t.isSymbol "<" || t.isSymbol "("

/-- The token closes type arguments or a parenthesis. -/
def Token.isClosing (t : Token) : Bool := t.isSymbol ">" || t.isSymbol ")"

/-- Splits what follows the name of a type at the brace that opens its body. Of the part before it,
only the tokens outside brackets remain, and no brackets. -/
def splitBody (depth : Nat) : List Token → Option (List Token × List Token)
  | [] => none
  | t :: rest =>
    if depth = 0 && t.isSymbol "\x7b" then some ([], rest)
    else if t.isOpening then splitBody (depth + 1) rest
    else if t.isClosing then splitBody (depth - 1) rest
    else if depth = 0 then (splitBody depth rest).map fun (header, body) => (t :: header, body)
    else splitBody depth rest

/-- The keywords that start a list of types. -/
def clauseKeywords : List Text := ["extends", "implements", "permits"]

/-- The supertypes of a type header, each with the keyword that starts its list. A supertype goes by
its last name; `clause` is the list that the header starts in, and `name` the last name so far. -/
def supertypes (clause : Option Text) (name : Option Text) : List Token → List (Text × Text)
  | [] => entry
  | t :: rest =>
    if t.isOneOf clauseKeywords then entry ++ supertypes (some t.text) none rest
    else if t.isSymbol "," then entry ++ supertypes clause none rest
    else supertypes clause (if t.isIdentifier then some t.text else name) rest
where
  /-- The supertype that ends here. -/
  entry : List (Text × Text) :=
    match clause, name with
    | some clause, some name => [(clause, name)]
    | _, _ => []

/-- The supertypes in the lists that one keyword starts. -/
def supertypesOf (clause : Text) (header : List Token) : List Text :=
  ((supertypes none none header).filter (·.1 = clause)).map (·.2)

/-- The modifiers of a member. -/
def modifierWords : List Text :=
  ["public", "protected", "private", "static", "final", "abstract", "synchronized", "native",
   "default", "strictfp", "transient", "volatile", "sealed", "non-sealed"]

/-- The token is a modifier. -/
def Token.isModifier (t : Token) : Bool := t.isOneOf modifierWords

/-- Splits a member header at the parenthesis that opens the parameters: the first one outside type
arguments. There is none after an equals sign. -/
def splitParameters (angle : Nat) : List Token → Option (List Token × List Token)
  | [] => none
  | t :: rest =>
    if angle = 0 && t.isSymbol "=" then none
    else if angle = 0 && t.isSymbol "(" then some ([], rest)
    else
      let angle := if t.isSymbol "<" then angle + 1 else if t.isSymbol ">" then angle - 1 else angle
      (splitParameters angle rest).map fun (before, parameters) => (t :: before, parameters)

/-- Counts the parameters up to the closing parenthesis: one more than the commas outside brackets,
unless nothing but commas was seen. -/
def countParameters (depth commas : Nat) (seen : Bool) : List Token → Nat
  | [] => if seen then commas + 1 else 0
  | t :: rest =>
    if t.isOpening then countParameters (depth + 1) commas true rest
    else if depth = 0 && t.isSymbol ")" then if seen then commas + 1 else 0
    else if t.isClosing then countParameters (depth - 1) commas true rest
    else if depth = 0 && t.isSymbol "," then countParameters depth (commas + 1) seen rest
    else countParameters depth commas true rest

/-- The tokens of the type that ends a member header, last token first; so is the header. The type
reaches back to a modifier or to a name without a point before it, both outside type arguments. -/
def typeBackwards (angle : Int) : List Token → List Token
  | [] => []
  | t :: before =>
    if angle = 0 && t.isModifier then []
    else
      let angle := if t.isSymbol ">" then angle + 1 else if t.isSymbol "<" then angle - 1 else angle
      if angle = 0 && t.isIdentifier && !before.head?.any (·.isSymbol ".") then [t]
      else t :: typeBackwards angle before

/-- The method that a member header declares, if it declares one. -/
def methodHeader? (header : List Token) : Option Method := do
  let (before, parameters) ← splitParameters 0 header
  let name ← before.getLast?
  if !name.isIdentifier || name.text = "new" then none
  else
    let start := before.dropLast
    some {
      name := name.text
      arity := countParameters 0 0 false parameters
      line := name.position.line
      returnType := spelling (typeBackwards 0 start.reverse).reverse
      modifiers := (start.filter (·.isModifier)).map (·.text)
      generic := (start.find? fun t => !t.isModifier).any (·.isSymbol "<") }

/-- What follows the word `return` is the null literal, perhaps in parentheses, and a semicolon. -/
def returnsNull (rest : List Token) : Bool :=
  let depth := (rest.takeWhile (·.isSymbol "(")).length
  match rest.drop depth with
  | [] => false
  | value :: rest =>
    let closing := rest.take depth
    value.isWord "null" && closing.length = depth && closing.all (·.isSymbol ")")
      && (rest.drop depth).head?.any (·.isSymbol ";")

/-- The kind of the type declaration that starts here. A name after a point starts none. -/
def declaredKind? (afterPoint : Bool) : List Token → Option TypeKind
  | t :: next :: rest =>
    if t.isSymbol "@" && next.isWord "interface" then some .annotationType
    else if afterPoint || !next.isIdentifier then none
    else if t.isWord "class" then some .«class»
    else if t.isWord "interface" then some .interface
    else if t.isWord "enum" then some .enum
    else if t.isWord "record" && rest.head?.any (·.isOpening) then some .record
    else none
  | _ => none

/-- What follows an annotation, given what follows its at sign: a qualified name and perhaps
arguments in parentheses. There is none if the parentheses stay open. -/
def afterAnnotationName : List Token → List Token
  | name :: rest =>
    if !name.isIdentifier then name :: rest
    else match rest with
    | point :: next :: more =>
      if point.isSymbol "." && next.isIdentifier then afterAnnotationName (next :: more) else rest
    | _ => rest
  | [] => []

/-- What follows the parenthesis that closes the one before these tokens, `depth` levels up. -/
def afterParenthesis (depth : Nat) : List Token → Option (List Token)
  | [] => none
  | t :: rest =>
    if t.isSymbol "(" then afterParenthesis (depth + 1) rest
    else if t.isSymbol ")" then if depth = 0 then some rest else afterParenthesis (depth - 1) rest
    else afterParenthesis depth rest

theorem length_of_splitBody {depth : Nat} {tokens header body : List Token}
    (h : splitBody depth tokens = some (header, body)) : body.length < tokens.length := by
  fun_induction splitBody depth tokens generalizing header body with
  | case1 => simp at h
  | case2 => cases h; simp
  | case3 _ _ _ _ _ ih => have := ih h; simp; omega
  | case4 _ _ _ _ _ _ ih => have := ih h; simp; omega
  | case5 _ _ _ _ _ ih =>
    obtain ⟨⟨x, y⟩, hx, he⟩ := Option.map_eq_some_iff.1 h
    cases he
    have := ih hx
    simp; omega
  | case6 _ _ _ _ _ _ _ ih => have := ih h; simp; omega

theorem length_afterAnnotationName (tokens : List Token) :
    (afterAnnotationName tokens).length ≤ tokens.length := by
  fun_induction afterAnnotationName tokens <;> grind

theorem length_of_afterParenthesis {depth : Nat} {tokens rest : List Token}
    (h : afterParenthesis depth tokens = some rest) : rest.length < tokens.length := by
  fun_induction afterParenthesis depth tokens <;> grind

end Layering.Java
