import Layering.Java.Token

/-!
# Declarations

The shape of a source file as far as the layering rules need it: the declared types, their methods
and the return statements of these.
-/

namespace Layering.Java

/-- A return statement: its line, and whether it returns the null literal. -/
structure Return where
  line : Nat
  isNull : Bool
deriving DecidableEq, Repr

/-- A method or a constructor. -/
structure Method where
  name : Text
  arity : Nat
  line : Nat
  /-- The text of the declared return type, empty for a constructor. -/
  returnType : Text := []
  returns : List Return := []
  modifiers : List Text := []
  hasBody : Bool := true
  /-- The method declares type parameters of its own. -/
  generic : Bool := false
deriving DecidableEq, Repr

/-- The simple name of a type: without its arguments and its qualifier. -/
def simpleTypeName (type : Text) : Text := Text.afterLast '.' (type.takeWhile (· ≠ '<'))

namespace Method

/-- The simple name of the return type. -/
def returnTypeName (m : Method) : Text := simpleTypeName m.returnType

/-- The first return of the null literal. -/
def firstNull? (m : Method) : Option Return := m.returns.find? (·.isNull)

/-- The declared return type can be replaced in the source: the method has a body and no type
parameters, and its return type is a bare simple name. -/
def isRewritable (m : Method) : Bool :=
  m.hasBody && !m.generic && m.returnType = m.returnTypeName

end Method

/-- The kinds of type declaration. -/
inductive TypeKind where
  | «class» | interface | enum | record | annotationType
deriving DecidableEq, Repr

/-- The name of a kind of type declaration. -/
def TypeKind.name : TypeKind → Text
  | .«class» => "class"
  | .interface => "interface"
  | .enum => "enum"
  | .record => "record"
  | .annotationType => "annotation"

/-- The kinds that declare a contract and no behaviour. -/
def TypeKind.isInterface : TypeKind → Bool
  | .interface | .annotationType => true
  | _ => false

/-- How a type relates to the contract of a fixer. -/
inductive FixerRole where
  | none | implementsCapability | extendsBase
deriving DecidableEq, Repr

/-- The name of a role. -/
def FixerRole.name : FixerRole → Text
  | .none => "none"
  | .implementsCapability => "implements_capability"
  | .extendsBase => "extends_base"

/-- The type is an implementation of a fixer. -/
def FixerRole.isFixer (r : FixerRole) : Bool := r ≠ .none

/-- The names that make a type a fixer. -/
structure FixerContract where
  interfaces : List Text := ["Fixer"]
  bases : List Text := ["AbstractStructureFixer"]

/-- The role of a type with the given kind and supertypes. -/
def FixerContract.role (contract : FixerContract) (kind : TypeKind) (bases interfaces : List Text) :
    FixerRole :=
  if kind.isInterface then .none
  else if interfaces.any contract.interfaces.contains then .implementsCapability
  else if bases.any contract.bases.contains then .extendsBase
  else .none

/-- A type declaration. Supertypes are simple names. -/
structure TypeDeclaration where
  name : Text
  kind : TypeKind
  line : Nat
  bases : List Text := []
  interfaces : List Text := []
  methods : List Method := []
  role : FixerRole := .none
deriving DecidableEq, Repr

/-- The first method with this name and number of parameters. -/
def TypeDeclaration.method? (t : TypeDeclaration) (name : Text) (arity : Nat) : Option Method :=
  t.methods.find? fun m => m.name = name && m.arity = arity

/-- What one source file declares; types stand in the order in which their bodies end. -/
structure Outline where
  package : Text := []
  imports : List Text := []
  types : List TypeDeclaration := []
deriving DecidableEq, Repr

/-- The types that are not interfaces. -/
def Outline.concrete (o : Outline) : List TypeDeclaration :=
  o.types.filter fun t => !t.kind.isInterface

end Layering.Java
