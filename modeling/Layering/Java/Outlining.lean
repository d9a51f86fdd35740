import Layering.Java.Header
import Layering.Java.Lexing

/-!
# Outlining

`outline` reads a source token by token with a stack of open braces. Inside a method only the
braces, the return statements and the types declared there count; returns inside a lambda or an anonymous
class count for the method around it.
-/

namespace Layering.Java

/-- An open brace. -/
inductive Frame where
  /-- The body of a type. The constants of an enumeration stand first and end at a semicolon. -/
  | type (declared : TypeDeclaration) (inConstants : Bool)
  /-- The body of a method of the type right below it. -/
  | method (declared : Method)
  | block
deriving DecidableEq, Repr

/-- What is known after some tokens. -/
structure Reading where
  /-- The open braces, innermost first. -/
  stack : List Frame := []
  /-- The member tokens since the last semicolon or brace. -/
  header : List Token := []
  outline : Outline := {}
  /-- The last token was a point. -/
  afterPoint : Bool := false
deriving DecidableEq, Repr

/-- A method is added to the type on top of the stack. -/
def addMethod (m : Method) : List Frame → List Frame
  | .type declared inConstants :: below =>
    .type { declared with methods := declared.methods ++ [m] } inConstants :: below
  | stack => stack

/-- A return statement is added to the innermost method of the innermost type. -/
def addReturn (r : Return) : List Frame → List Frame
  | .method declared :: below =>
    .method { declared with returns := declared.returns ++ [r] } :: below
  | .block :: below => .block :: addReturn r below
  | stack => stack

namespace Reading

/-- No body but that of a type is open. -/
def atMembers (r : Reading) : Bool :=
  match r.stack with
  | [] | .type .. :: _ => true
  | _ => false

/-- A type declaration of the given kind starts at `t`; `rest` starts with its name. -/
def openType (contract : FixerContract) (kind : TypeKind) (t : Token) (rest : List Token)
    (r : Reading) : Except SyntaxError (Reading × List Token) :=
  let name := (rest.head?.map (·.text)).getD []
  match splitBody 0 rest.tail with
  | none => .error ⟨.missingBody kind name, t.position⟩
  | some (header, rest) =>
    let bases := supertypesOf "extends" header
    let interfaces := supertypesOf "implements" header
    let declared : TypeDeclaration := {
      name, kind, bases, interfaces
      line := t.position.line
      role := contract.role kind bases interfaces }
    .ok ({ r with
      stack := .type declared (kind = .enum) :: r.stack
      header := []
      afterPoint := false }, rest)

/-- A package or import declaration is complete. -/
def declare (keyword name : Text) (o : Outline) : Outline :=
  if keyword = "package" then { o with package := name }
  else { o with imports := o.imports ++ [name] }

/-- A package or import declaration starts at `t`. -/
def directive (t : Token) (rest : List Token) (r : Reading) :
    Except SyntaxError (Reading × List Token) :=
  let parts := rest.takeWhile fun t => !t.isSymbol ";"
  let rest := rest.dropWhile fun t => !t.isSymbol ";"
  let name := spelling (parts.filter fun t => !t.isWord "static")
  if rest = [] then .error ⟨.unterminatedDirective t.text, t.position⟩
  else
    .ok ({ r with
      outline := declare t.text name r.outline
      header := []
      afterPoint := false }, rest.tail)

/-- An annotation starts before `rest`. -/
def annotationAt (rest : List Token) (r : Reading) :
    Except SyntaxError (Reading × List Token) :=
  let r := { r with afterPoint := false }
  match afterAnnotationName rest with
  | opening :: rest =>
    if opening.isSymbol "(" then
      match afterParenthesis 0 rest with
      | some rest => .ok (r, rest)
      | none => .error ⟨.unbalancedParentheses, opening.position⟩
    else .ok (r, opening :: rest)
  | [] => .ok (r, [])

/-- A semicolon ends a member. -/
def endMember (r : Reading) : Reading :=
  let stack := match r.stack with
    | .type declared true :: below => .type declared false :: below
    | stack => match methodHeader? r.header with
      | some m => addMethod { m with hasBody := false } stack
      | none => stack
  { r with stack, header := [] }

/-- A brace opens the body of a member. -/
def openMember (t : Token) (r : Reading) : Except SyntaxError Reading :=
  match r.stack with
  | [] => .error ⟨.braceOutsideType, t.position⟩
  | .type _ false :: _ =>
    let frame := match methodHeader? r.header with
      | some m => .method m
      | none => .block
    .ok { r with stack := frame :: r.stack, header := [] }
  | _ => .ok { r with stack := .block :: r.stack, header := [] }

/-- A brace closes the type on top of the stack. -/
def closeType (t : Token) (r : Reading) : Except SyntaxError Reading :=
  match r.stack with
  | .type declared _ :: below => .ok { r with
      stack := below
      header := []
      outline := { r.outline with types := r.outline.types ++ [declared] } }
  | _ => .error ⟨.unbalancedBrace, t.position⟩

/-- A token between the members of a type, or outside every type. -/
def member (t : Token) (r : Reading) : Except SyntaxError Reading :=
  if t.isSymbol ";" then .ok r.endMember
  else if t.isSymbol "\x7b" then r.openMember t
  else if t.isSymbol "\x7d" then r.closeType t
  else .ok { r with header := r.header ++ [t] }

/-- A brace closes a method or a block. -/
def closeBody (r : Reading) : Reading :=
  match r.stack with
  | .method m :: below => { r with stack := addMethod m below, header := [] }
  | _ :: below => { r with stack := below, header := [] }
  | [] => r

/-- A token inside a method or a block, with what follows it. -/
def body (t : Token) (rest : List Token) (r : Reading) : Reading :=
  if t.isSymbol "\x7b" then { r with stack := .block :: r.stack }
  else if t.isSymbol "\x7d" then r.closeBody
  else if t.isWord "return" then
    { r with stack := addReturn ⟨t.position.line, returnsNull rest⟩ r.stack }
  else r

/-- Reads what starts at `t`, and returns what follows it. -/
def step (contract : FixerContract) (t : Token) (rest : List Token) (r : Reading) :
    Except SyntaxError (Reading × List Token) :=
  match declaredKind? r.afterPoint (t :: rest) with
  | some .annotationType => r.openType contract .annotationType t rest.tail
  | some kind => r.openType contract kind t rest
  | none =>
    if r.stack = [] && t.isOneOf ["package", "import"] then r.directive t rest
    else if r.atMembers && t.isSymbol "@" then r.annotationAt rest
    else
      let next := if r.atMembers then r.member t else .ok (r.body t rest)
      next.map fun r => ({ r with afterPoint := t.isSymbol "." }, rest)

private theorem length_of_openType {contract : FixerContract} {kind : TypeKind} {t : Token}
    {rest rest' : List Token} {r r' : Reading}
    (h : r.openType contract kind t rest = .ok (r', rest')) : rest'.length ≤ rest.length := by
  unfold openType at h
  split at h
  · contradiction
  · rename_i hs
    cases h
    have := length_of_splitBody hs
    simp at this
    omega

private theorem length_of_directive {t : Token} {rest rest' : List Token} {r r' : Reading}
    (h : r.directive t rest = .ok (r', rest')) : rest'.length ≤ rest.length := by
  simp only [directive] at h
  split at h
  · contradiction
  · cases h
    have := (List.dropWhile_sublist (l := rest) fun t => !t.isSymbol ";").length_le
    simp only [List.length_tail]
    omega

private theorem length_of_annotationAt {rest rest' : List Token} {r r' : Reading}
    (h : r.annotationAt rest = .ok (r', rest')) : rest'.length ≤ rest.length := by
  have := length_afterAnnotationName rest
  unfold annotationAt at h
  split at h
  · split at h
    · split at h
      · rename_i hp
        cases h
        have := length_of_afterParenthesis hp
        simp_all
        omega
      · contradiction
    · cases h
      simp_all
  · cases h
    simp

/-- Every step takes at least its first token. -/
theorem length_of_step {contract : FixerContract} {t : Token} {rest rest' : List Token}
    {r r' : Reading} (h : r.step contract t rest = .ok (r', rest')) :
    rest'.length ≤ rest.length := by
  unfold step at h
  split at h
  · have := length_of_openType h
    simp at this
    omega
  · exact length_of_openType h
  · split at h
    · exact length_of_directive h
    · split at h
      · exact length_of_annotationAt h
      · simp only [Except.map] at h
        split at h
        · contradiction
        · cases h
          simp

end Reading

/-- Reads the rest of a source that ends at `stop`. -/
def readOutline (contract : FixerContract) (stop : Position) (r : Reading) :
    List Token → Except SyntaxError Outline
  | [] => if r.stack = [] then .ok r.outline else .error ⟨.endInsideDeclaration, stop⟩
  | t :: rest =>
    match h : r.step contract t rest with
    | .error e => .error e
    | .ok (next, rest') =>
      have := Reading.length_of_step h
      readOutline contract stop next rest'
termination_by tokens => tokens.length

/-- The outline of a source. -/
def outline (contract : FixerContract) (source : Text) : Except SyntaxError Outline :=
  (tokenize source).bind fun t => readOutline contract t.stop {} t.tokens

end Layering.Java
