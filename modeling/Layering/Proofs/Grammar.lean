import Layering.Proofs.Abreast
import Layering.Java.Outlining

/-!
# The grammar of declarations

Which tokens are declarations, and what they declare. Wherever a member header can stand, annotations
can stand between its tokens; the other rules speak of the header without them. A body is opaque but
for its return statements.
-/

namespace Layering.Java

/-! ### Tokens -/

/-- The words that start the declaration of a type. -/
def typeWords : List Text := ["class", "interface", "enum", "record"]

namespace Token

/-- The token is a name, and no keyword. -/
def isName (t : Token) : Bool := t.isIdentifier && !reservedWords.contains t.text

/-- The token is a parenthesis. -/
def isParenthesis (t : Token) : Bool := t.isSymbol "(" || t.isSymbol ")"

/-- The token is a brace. -/
def isBrace (t : Token) : Bool := t.isSymbol "\x7b" || t.isSymbol "\x7d"

/-- The token can stand in a member header: it is no brace, no semicolon and no at sign, and starts no
type. -/
def isPlain (t : Token) : Bool :=
  !t.isBrace && !t.isSymbol ";" && !t.isSymbol "@" && !t.isOneOf typeWords

/-- The token belongs to the modifiers of a type. One of these is spelled with a hyphen. -/
def isTypeModifier (t : Token) : Bool := t.isModifier || t.isWord "non" || t.isSymbol "-"

end Token

/-- Tokens in which brackets are paired and nested. -/
inductive Nested (opens closes : Token → Bool) : List Token → Prop
  | nil : Nested opens closes []
  | token {t : Token} {rest : List Token} (open_ : opens t = false) (close : closes t = false)
      (more : Nested opens closes rest) : Nested opens closes (t :: rest)
  | group {opening closing : Token} {inner rest : List Token} (open_ : opens opening = true)
      (close : closes closing = true) (inside : Nested opens closes inner)
      (more : Nested opens closes rest) : Nested opens closes (opening :: inner ++ closing :: rest)

/-- Tokens of a kind between two brackets. -/
inductive Enclosed (opens closes : Text) (inside : List Token → Prop) : List Token → Prop
  | intro {opening closing : Token} {inner : List Token} (open_ : opening.isSymbol opens = true)
      (close : closing.isSymbol closes = true) (within : inside inner) :
      Enclosed opens closes inside (opening :: inner ++ [closing])

/-- Tokens that stand, or are left out. -/
def Optional (kind : List Token → Prop) (tokens : List Token) : Prop := tokens = [] ∨ kind tokens

/-! ### Names and types -/

/-- Names with points between them. -/
inductive QualifiedName : List Token → Prop
  | simple {name : Token} (named : name.isName = true) : QualifiedName [name]
  | qualified {name point : Token} {more : List Token} (named : name.isName = true)
      (pointed : point.isSymbol "." = true) (further : QualifiedName more) :
      QualifiedName (name :: point :: more)

/-- Type arguments, or the type parameters of a method: there are no parentheses and no modifiers in
them. -/
def TypeArguments : List Token → Prop :=
  Enclosed "<" ">" fun inner => Nested (·.isSymbol "<") (·.isSymbol ">") inner ∧
    ∀ t ∈ inner, t.isParenthesis = false ∧ t.isModifier = false

/-- A type, and its simple name. -/
inductive IsType : List Token → Text → Prop
  | name {t : Token} (named : t.isName = true) : IsType [t] t.text
  | inner {type : List Token} {outer : Text} {point t : Token} (typed : IsType type outer)
      (pointed : point.isSymbol "." = true) (named : t.isName = true) :
      IsType (type ++ [point, t]) t.text
  | arguments {type arguments : List Token} {name : Text} (typed : IsType type name)
      (applied : TypeArguments arguments) : IsType (type ++ arguments) name
  | array {type : List Token} {name : Text} {opening closing : Token} (typed : IsType type name)
      (opens : opening.isSymbol "[" = true) (closes : closing.isSymbol "]" = true) :
      IsType (type ++ [opening, closing]) name

/-! ### Member headers -/

/-- Brackets that make a variable an array. -/
inductive Dimensions : List Token → Prop
  | none : Dimensions []
  | more {opening closing : Token} {rest : List Token} (opens : opening.isSymbol "[" = true)
      (closes : closing.isSymbol "]" = true) (further : Dimensions rest) :
      Dimensions (opening :: closing :: rest)

/-- A parameter, perhaps of variable number. -/
inductive Parameter : List Token → Prop
  | intro {modifiers type dots dimensions : List Token} {simple : Text} {name : Token}
      (marked : ∀ t ∈ modifiers, t.isModifier = true) (typed : IsType type simple)
      (varied : dots = [] ∨ ∃ t, dots = [t] ∧ t.isSymbol "..." = true)
      (named : name.isName = true) (array : Dimensions dimensions) :
      Parameter (modifiers ++ type ++ dots ++ name :: dimensions)

/-- Parameters with commas between them, and their number. -/
inductive Parameters : List Token → Nat → Prop
  | none : Parameters [] 0
  | last {p : List Token} (parameter : Parameter p) : Parameters p 1
  | more {p rest : List Token} {comma : Token} {n : Nat} (parameter : Parameter p)
      (separated : comma.isSymbol "," = true) (further : Parameters rest (n + 1)) :
      Parameters (p ++ comma :: rest) (n + 2)

/-- The header of a method or a constructor, and the method. A constructor has no type. Behind the
parameters anything can stand, such as the exceptions it throws. -/
inductive MethodHeader : List Token → Method → Prop
  | intro {modifiers own type parameters clause : List Token} {name opening closing : Token}
      {arity : Nat} (marked : ∀ t ∈ modifiers, t.isModifier = true)
      (generic : Optional TypeArguments own)
      (typed : Optional (fun type => ∃ simple, IsType type simple) type)
      (named : name.isName = true) (opens : opening.isSymbol "(" = true)
      (taken : Parameters parameters arity) (closes : closing.isSymbol ")" = true) :
      MethodHeader
        (modifiers ++ own ++ type ++ name :: opening :: (parameters ++ closing :: clause))
        { name := name.text
          arity
          line := name.position.line
          returnType := spelling type
          modifiers := modifiers.map (·.text)
          generic := !own.isEmpty }

/-- The names of the variables that one field declaration declares. -/
inductive Declarators : List Token → Prop
  | last {name : Token} {dimensions : List Token} (named : name.isName = true)
      (array : Dimensions dimensions) : Declarators (name :: dimensions)
  | more {name comma : Token} {dimensions rest : List Token} (named : name.isName = true)
      (array : Dimensions dimensions) (separated : comma.isSymbol "," = true)
      (further : Declarators rest) : Declarators (name :: dimensions ++ comma :: rest)

/-- The header of a field, up to its semicolon or its first initializer. -/
inductive FieldHeader : List Token → Prop
  | intro {modifiers type names : List Token} {simple : Text}
      (marked : ∀ t ∈ modifiers, t.isModifier = true) (typed : IsType type simple)
      (declared : Declarators names) : FieldHeader (modifiers ++ type ++ names)

/-- `tokens` are the plain tokens of `header` with annotations between them. -/
inductive Annotated : List Token → List Token → Prop
  | nil : Annotated [] []
  | token {t : Token} {tokens header : List Token} (plain : t.isPlain = true)
      (more : Annotated tokens header) : Annotated (t :: tokens) (t :: header)
  | marker {sign : Token} {name tokens header : List Token} (signed : sign.isSymbol "@" = true)
      (named : QualifiedName name)
      (ends : ∀ t ∈ tokens.head?, t.isSymbol "(" = false ∧ t.isSymbol "." = false)
      (more : Annotated tokens header) : Annotated (sign :: name ++ tokens) header
  | applied {sign : Token} {name arguments tokens header : List Token}
      (signed : sign.isSymbol "@" = true) (named : QualifiedName name)
      (enclosed : Enclosed "(" ")" (Nested (·.isSymbol "(") (·.isSymbol ")")) arguments)
      (more : Annotated tokens header) : Annotated (sign :: name ++ arguments ++ tokens) header

/-! ### Bodies -/

/-- The null literal, perhaps in parentheses. -/
inductive NullLiteral : List Token → Prop
  | null {t : Token} (word : t.isWord "null" = true) : NullLiteral [t]
  | parenthesized {opening closing : Token} {value : List Token}
      (opens : opening.isSymbol "(" = true) (literal : NullLiteral value)
      (closes : closing.isSymbol ")" = true) : NullLiteral (opening :: value ++ [closing])

/-- The statement that goes on with these tokens ends right after a null literal. -/
def EndsInNull (tokens : List Token) : Prop :=
  ∃ value semicolon rest, tokens = value ++ semicolon :: rest ∧ NullLiteral value ∧
    semicolon.isSymbol ";" = true

/-- The inside of a body: the braces are nested and no type is declared. The return statements count,
wherever they stand. -/
inductive Body : List Token → List Return → Prop
  | nil : Body [] []
  | token {t : Token} {rest : List Token} {returns : List Return} (brace : t.isBrace = false)
      (word : t.isOneOf typeWords = false) (other : t.isWord "return" = false)
      (more : Body rest returns) : Body (t :: rest) returns
  | leave {t : Token} {rest : List Token} {returns : List Return} {isNull : Bool}
      (word : t.isWord "return" = true) (value : isNull = true ↔ EndsInNull rest)
      (more : Body rest returns) : Body (t :: rest) (⟨t.position.line, isNull⟩ :: returns)
  | block {opening closing : Token} {inner rest : List Token} {early late : List Return}
      (opens : opening.isSymbol "\x7b" = true) (inside : Body inner early)
      (closes : closing.isSymbol "\x7d" = true) (more : Body rest late) :
      Body (opening :: inner ++ closing :: rest) (early ++ late)

/-- Tokens with bodies between them, and the headers before and behind the bodies. -/
inductive Pieces : List Token → List (List Token) → Prop
  | last {tokens header : List Token} (piece : Annotated tokens header) : Pieces tokens [header]
  | block {tokens header inner rest : List Token} {headers : List (List Token)}
      {returns : List Return} {opening closing : Token} (piece : Annotated tokens header)
      (opens : opening.isSymbol "\x7b" = true) (inside : Body inner returns)
      (closes : closing.isSymbol "\x7d" = true) (more : Pieces rest headers) :
      Pieces (tokens ++ opening :: (inner ++ closing :: rest)) (header :: headers)

/-! ### Types -/

/-- The keyword of a type declaration, with its kind and its line. -/
inductive Keyword : List Token → TypeKind → Nat → Prop
  | word {t : Token} {kind : TypeKind} (other : kind ≠ .annotationType)
      (word : t.isWord kind.name = true) : Keyword [t] kind t.position.line
  | atInterface {sign t : Token} (signed : sign.isSymbol "@" = true)
      (word : t.isWord "interface" = true) : Keyword [sign, t] .annotationType sign.position.line

/-- Types with commas between them, and their simple names. -/
inductive Types : List Token → List Text → Prop
  | last {type : List Token} {name : Text} (typed : IsType type name) : Types type [name]
  | more {type rest : List Token} {comma : Token} {name : Text} {names : List Text}
      (typed : IsType type name) (separated : comma.isSymbol "," = true)
      (further : Types rest names) : Types (type ++ comma :: rest) (name :: names)

/-- The lists of supertypes in a type header: the simple name of each, with the keyword of its list. -/
inductive Clauses : List Token → List (Text × Text) → Prop
  | none : Clauses [] []
  | clause {keyword : Token} {types rest : List Token} {names : List Text}
      {entries : List (Text × Text)} (word : keyword.isOneOf clauseKeywords = true)
      (listed : Types types names) (further : Clauses rest entries) :
      Clauses (keyword :: types ++ rest) (names.map (keyword.text, ·) ++ entries)

/-- The names in the lists that a keyword starts. -/
def namesOf (keyword : Text) (entries : List (Text × Text)) : List Text :=
  (entries.filter (·.1 = keyword)).map (·.2)

/-- The header of a type from its keyword on, and the type without its members. -/
inductive TypeHeader (contract : FixerContract) : List Token → TypeDeclaration → Prop
  | intro {keyword own components clauses : List Token} {name : Token} {kind : TypeKind} {line : Nat}
      {entries : List (Text × Text)} (starts : Keyword keyword kind line)
      (named : name.isName = true)
      (generic : Optional (Enclosed "<" ">" (Nested Token.isOpening Token.isClosing)) own)
      (record : kind = .record →
        Enclosed "(" ")" (Nested Token.isOpening Token.isClosing) components)
      (other : kind ≠ .record → components = []) (listed : Clauses clauses entries) :
      TypeHeader contract (keyword ++ name :: (own ++ components ++ clauses)) {
        name := name.text
        kind
        line
        bases := namesOf "extends" entries
        interfaces := namesOf "implements" entries
        role := contract.role kind (namesOf "extends" entries) (namesOf "implements" entries) }

/-- What stands before the members of a type: of an enumeration its constants, which can have bodies,
and a semicolon. -/
inductive Constants : TypeKind → List Token → Prop
  | none {kind : TypeKind} (other : kind ≠ .enum) : Constants kind []
  | enum {tokens : List Token} {headers : List (List Token)} {semicolon : Token}
      (listed : Pieces tokens headers) (ends : semicolon.isSymbol ";" = true) :
      Constants .enum (tokens ++ [semicolon])

/-- The front of a type up to its brace, and the type without its members. -/
inductive TypeStart (contract : FixerContract) : List Token → TypeDeclaration → Prop
  | intro {tokens modifiers header : List Token} {opening : Token} {type : TypeDeclaration}
      (marked : Annotated tokens modifiers) (modified : ∀ t ∈ modifiers, t.isTypeModifier = true)
      (declared : TypeHeader contract header type) (opens : opening.isSymbol "\x7b" = true) :
      TypeStart contract (tokens ++ header ++ [opening]) type

/-- The front of a type up to its members, and the type without them. -/
inductive TypeFront (contract : FixerContract) : List Token → TypeDeclaration → Prop
  | intro {tokens constants : List Token} {type : TypeDeclaration}
      (started : TypeStart contract tokens type) (listed : Constants type.kind constants) :
      TypeFront contract (tokens ++ constants) type

/-- Declarations, the methods among them, and the types declared in them in the order in which their
bodies end. Outside every type there are types only. -/
inductive Declarations (contract : FixerContract) :
    Bool → List Token → List Method → List TypeDeclaration → Prop
  | nil {inType : Bool} : Declarations contract inType [] [] []
  | empty {inType : Bool} {semicolon : Token} {rest : List Token} {methods : List Method}
      {types : List TypeDeclaration} (ends : semicolon.isSymbol ";" = true)
      (more : Declarations contract inType rest methods types) :
      Declarations contract inType (semicolon :: rest) methods types
  | field {tokens header rest : List Token} {semicolon : Token} {methods : List Method}
      {types : List TypeDeclaration} (marked : Annotated tokens header)
      (declared : FieldHeader header) (ends : semicolon.isSymbol ";" = true)
      (more : Declarations contract true rest methods types) :
      Declarations contract true (tokens ++ semicolon :: rest) methods types
  | initialized {tokens header value rest : List Token} {equals semicolon : Token}
      {methods : List Method} {types : List TypeDeclaration}
      (marked : Annotated tokens (header ++ equals :: value)) (declared : FieldHeader header)
      (assigned : equals.isSymbol "=" = true) (ends : semicolon.isSymbol ";" = true)
      (more : Declarations contract true rest methods types) :
      Declarations contract true (tokens ++ semicolon :: rest) methods types
  | abstract {tokens header rest : List Token} {semicolon : Token} {method : Method}
      {methods : List Method} {types : List TypeDeclaration} (marked : Annotated tokens header)
      (declared : MethodHeader header method) (ends : semicolon.isSymbol ";" = true)
      (more : Declarations contract true rest methods types) :
      Declarations contract true (tokens ++ semicolon :: rest)
        ({ method with hasBody := false } :: methods) types
  | method {tokens header inner rest : List Token} {opening closing : Token} {method : Method}
      {returns : List Return} {methods : List Method} {types : List TypeDeclaration}
      (marked : Annotated tokens header) (declared : MethodHeader header method)
      (opens : opening.isSymbol "\x7b" = true) (inside : Body inner returns)
      (closes : closing.isSymbol "\x7d" = true)
      (more : Declarations contract true rest methods types) :
      Declarations contract true (tokens ++ opening :: (inner ++ closing :: rest))
        ({ method with returns } :: methods) types
  | initializer {tokens modifiers inner rest : List Token} {opening closing : Token}
      {returns : List Return} {methods : List Method} {types : List TypeDeclaration}
      (marked : Annotated tokens modifiers) (modified : ∀ t ∈ modifiers, t.isModifier = true)
      (opens : opening.isSymbol "\x7b" = true) (inside : Body inner returns)
      (closes : closing.isSymbol "\x7d" = true)
      (more : Declarations contract true rest methods types) :
      Declarations contract true (tokens ++ opening :: (inner ++ closing :: rest)) methods types
  | type {inType : Bool} {front inner rest : List Token} {closing : Token} {type : TypeDeclaration}
      {own methods : List Method} {nested types : List TypeDeclaration}
      (opened : TypeFront contract front type)
      (members : Declarations contract true inner own nested)
      (closes : closing.isSymbol "\x7d" = true)
      (more : Declarations contract inType rest methods types) :
      Declarations contract inType (front ++ inner ++ closing :: rest) methods
        (nested ++ { type with methods := own } :: types)
  | enumeration {inType : Bool} {tokens constants rest : List Token} {headers : List (List Token)}
      {closing : Token} {type : TypeDeclaration} {methods : List Method}
      {types : List TypeDeclaration} (started : TypeStart contract tokens type)
      (kind : type.kind = .enum) (listed : Pieces constants headers)
      (closes : closing.isSymbol "\x7d" = true)
      (more : Declarations contract inType rest methods types) :
      Declarations contract inType (tokens ++ constants ++ closing :: rest) methods (type :: types)

/-! ### Sources -/

/-- The package declaration, if there is one, and the name of the package. -/
inductive PackageDeclaration : List Token → Text → Prop
  | none : PackageDeclaration [] []
  | declared {tokens name : List Token} {keyword semicolon : Token} (marked : Annotated tokens [])
      (word : keyword.isWord "package" = true) (named : QualifiedName name)
      (ends : semicolon.isSymbol ";" = true) :
      PackageDeclaration (tokens ++ keyword :: (name ++ [semicolon])) (spelling name)

/-- What an import names: one thing, or all that a package or a type holds. -/
inductive ImportedName : List Token → Prop
  | single {name : List Token} (named : QualifiedName name) : ImportedName name
  | all {name : List Token} {point star : Token} (named : QualifiedName name)
      (pointed : point.isSymbol "." = true) (starred : star.isSymbol "*" = true) :
      ImportedName (name ++ [point, star])

/-- Import declarations, and what they import. -/
inductive Imports : List Token → List Text → Prop
  | none : Imports [] []
  | more {keyword semicolon : Token} {static name rest : List Token} {names : List Text}
      (word : keyword.isWord "import" = true)
      (members : static = [] ∨ ∃ t, static = [t] ∧ t.isWord "static" = true)
      (named : ImportedName name) (ends : semicolon.isSymbol ";" = true)
      (further : Imports rest names) :
      Imports (keyword :: (static ++ name ++ semicolon :: rest)) (spelling name :: names)

/-- A source, and what it declares. -/
inductive CompilationUnit (contract : FixerContract) : List Token → Outline → Prop
  | intro {first second third : List Token} {package : Text} {imports : List Text}
      {types : List TypeDeclaration} (packaged : PackageDeclaration first package)
      (imported : Imports second imports) (declared : Declarations contract false third [] types) :
      CompilationUnit contract (first ++ second ++ third) { package, imports, types }

end Layering.Java
